import EarlyExit.Expansion.Step
import EarlyExit.Proofs.Tree.Renamed

/-!
# Placements in another surrounding

Where a site is placed is read off the tree around it, up to the method it is in, and not
off the names of variables.  So a site in a tree that is renamed and put below a path has
the placement it had, below that path.
-/

namespace EarlyExit

open Node

/-- What is above a place, in the tree renamed and put below a path. -/
def Above.moved (q : Path) (f : String -> String) (a : Above) : Above :=
  ⟨q ++ a.path, a.node.rename f, a.slot⟩

@[simp] theorem Above.moved_path (q : Path) (f : String -> String) (a : Above) :
    (a.moved q f).path = q ++ a.path := rfl

@[simp] theorem Above.moved_node (q : Path) (f : String -> String) (a : Above) :
    (a.moved q f).node = a.node.rename f := rfl

@[simp] theorem Above.moved_slot (q : Path) (f : String -> String) (a : Above) :
    (a.moved q f).slot = a.slot := rfl

/-- What is above all methods: nothing, or a unit. -/
inductive Outside : List Above -> Prop
  | nothing : Outside []
  | unit (p : Path) (u : CompilationUnit) (slot : Slot) : Outside [⟨p, .unit u, slot⟩]

namespace Expansion

def Place.under (q : Path) : Place -> Place
  | .anchored anchor => .anchored (q ++ anchor)
  | .lifted anchor conditional => .lifted (q ++ anchor) (q ++ conditional)
  | .wrapped lambda => .wrapped (q ++ lambda)

def Context.under (q : Path) (c : Context) : Context :=
  { c with scope := q ++ c.scope, place := c.place.under q }

def Verdict.under (q : Path) : Verdict -> Verdict
  | .accepted c => .accepted (c.under q)
  | .rejected reason node => .rejected reason (q ++ node)
  | .failed d => .failed d

/-- A placement in a tree that is put below a path. -/
def Placement.under (q : Path) (p : Placement) : Placement :=
  ⟨p.chain.map (q ++ ·), p.statement.map (q ++ ·), p.verdict.under q⟩

section Placing

variable {q : Path} {f : String -> String} {tail : List Above}

theorem isSwitchExpr_moved (a : Above) : (a.moved q f).isSwitchExpr = a.isSwitchExpr := by
  obtain ⟨p, n, slot⟩ := a
  cases n with
  | expr e => cases e <;> rfl
  | _ => rfl

theorem isConditional_moved (a : Above) : (a.moved q f).isConditional = a.isConditional := by
  obtain ⟨p, n, slot⟩ := a
  cases n with
  | expr e => cases e <;> rfl
  | _ => rfl

theorem head_moved (htail : Outside tail) (l : List Above) :
    (l.map (Above.moved q f) ++ tail).head?.any Above.isSwitchExpr =
      l.head?.any Above.isSwitchExpr := by
  cases l with
  | nil => cases htail <;> rfl
  | cons a rest => simp [isSwitchExpr_moved]

theorem scopeDepth_moved (htail : Outside tail) (l : List Above) :
    scopeDepth (l.map (Above.moved q f) ++ tail) = scopeDepth l := by
  induction l with
  | nil => cases htail <;> rfl
  | cons a rest ih =>
      obtain ⟨p, n, slot⟩ := a
      rw [List.map_cons, List.cons_append, scopeDepth, scopeDepth, ih]
      cases n with
      | expr e => cases e <;> rfl
      | arm c => simp only [Above.moved, rename, head_moved htail]
      | _ => rfl

theorem innermost?_moved (htail : Outside tail) (l : List Above) :
    innermost? (l.map (Above.moved q f) ++ tail) =
      (innermost? l).map fun x => (q ++ x.1, x.2) := by
  induction l with
  | nil => cases htail <;> rfl
  | cons a rest ih =>
      obtain ⟨p, n, slot⟩ := a
      rw [List.map_cons, List.cons_append, innermost?, innermost?]
      cases n with
      | expr e => cases e <;> first | rfl | exact ih
      | arm c =>
          simp only [Above.moved, rename, head_moved htail, ih]
          split <;> rfl
      | _ => first | rfl | exact ih

theorem misplaced?_moved (htail : Outside tail) (stmt : Above) (l : List Above) :
    misplaced? (stmt.moved q f) (l.map (Above.moved q f) ++ tail) =
      (misplaced? stmt l).map fun x => (x.1, q ++ x.2) := by
  cases l with
  | nil => cases htail <;> rfl
  | cons a rest =>
      obtain ⟨p, n, slot⟩ := a
      cases n with
      | stmt s =>
          cases s with
          | forLoop =>
              simp only [misplaced?, List.map_cons, List.cons_append, Above.moved, rename,
                Stmt.rename]
              split <;> rfl
          | _ => rfl
      | _ => rfl

theorem anchorSlot?_rename (s : Stmt) : (s.rename f).anchorSlot? = s.anchorSlot? := by
  cases s <;> rfl

theorem anchorName_rename (s : Stmt) : (s.rename f).anchorName = s.anchorName := by
  cases s <;> rfl

theorem slotFault?_rename (s : Stmt) (slot : Slot) :
    slotFault? (s.rename f) slot = slotFault? s slot := by
  cases s <;> rfl

theorem ofAnchor_rename (s : Stmt) (exit : Exit) :
    Exit.ofAnchor (s.rename f) exit = Exit.ofAnchor s exit := by
  cases s <;> rfl

theorem judge_moved (htail : Outside tail) (depth : Nat) (chain : List Path) (up : Above)
    (s : Stmt) (l : List Above) (place : Place) :
    judge depth (chain.map (q ++ ·)) (up.moved q f) (s.rename f)
        (l.map (Above.moved q f) ++ tail) (place.under q) =
      (judge depth chain up s l place).under q := by
  simp only [judge, Above.moved_path, Above.moved_slot, slotFault?_rename, misplaced?_moved htail,
    innermost?_moved htail, Stmt.span_rename, anchorName_rename, ofAnchor_rename]
  cases slotFault? s up.slot with
  | some reason => rfl
  | none =>
      cases misplaced? up l with
      | some x => rfl
      | none =>
          cases innermost? l with
          | none => rfl
          | some x => rfl

/-! ## Conditionals -/

theorem nest_moved (htail : Outside tail) (up : Above) (l : List Above) :
    nest (up.moved q f) (l.map (Above.moved q f) ++ tail) =
      ((nest up l).1.map (Above.moved q f), (nest up l).2.1.moved q f,
        (nest up l).2.2.map (Above.moved q f) ++ tail) := by
  induction l generalizing up with
  | nil => cases htail <;> rfl
  | cons a rest ih =>
      rw [List.map_cons, List.cons_append, nest, nest, isConditional_moved, ih]
      cases a.isConditional <;> rfl

theorem branchType_rename (e : Expr) : branchType (e.rename f) = branchType e := by
  cases e with
  | literal s value raw => cases value <;> rfl
  | _ => rfl

theorem conditionalType_rename (type : String) (onTrue onFalse : Expr) :
    conditionalType type (onTrue.rename f) (onFalse.rename f) =
      conditionalType type onTrue onFalse := by
  simp only [conditionalType, branchType_rename]

theorem needsTypedTemp_rename (s : Stmt) : (s.rename f).needsTypedTemp = s.needsTypedTemp := by
  cases s <;> rfl

theorem liftsFrom_rename (s : Stmt) (slot : Slot) (n : Node) :
    liftsFrom (s.rename f) slot (n.rename f) = liftsFrom s slot n := by
  cases n with
  | expr e =>
      cases e with
      | conditional =>
          simp only [rename, Expr.rename, liftsFrom, anchorSlot?_rename, needsTypedTemp_rename,
            conditionalType_rename]
      | _ => rfl
  | _ => rfl

theorem inConditional_moved (htail : Outside tail) (depth : Nat) (chain : List Path) (up : Above)
    (l : List Above) :
    inConditional depth (chain.map (q ++ ·)) (up.moved q f) (l.map (Above.moved q f) ++ tail) =
      (inConditional depth chain up l).under q := by
  have hchain : chain.map (q ++ ·) ++ ((nest up l).1.map (Above.moved q f)).map (·.path) ++
      [((nest up l).2.1.moved q f).path] =
        (chain ++ (nest up l).1.map (·.path) ++ [(nest up l).2.1.path]).map (q ++ ·) := by
    simp [Function.comp_def]
  unfold inConditional
  simp only [nest_moved htail, hchain]
  generalize chain ++ (nest up l).1.map (·.path) ++ [(nest up l).2.1.path] = whole
  cases (nest up l).2.2 with
  | nil => cases htail <;> rfl
  | cons next rest =>
      simp only [List.map_cons, List.cons_append, Above.moved_node, Above.moved_slot]
      cases hnext : next.node with
      | expr e =>
          cases e with
          | assign s target op value =>
              cases target with
              | ident =>
                  cases rest with
                  | nil => cases htail <;> rfl
                  | cons stmt rest =>
                      simp only [List.map_cons, List.cons_append, Above.moved_node]
                      cases hstmt : stmt.node with
                      | stmt s =>
                          cases s with
                          | expr s e =>
                              simp only [rename_expr, rename_stmt, Expr.rename, Stmt.rename]
                              have hjudge := judge_moved (q := q) (f := f) htail depth
                                (whole ++ [next.path]) stmt (.expr s e) rest
                                (.lifted stmt.path (nest up l).2.1.path)
                              rw [List.map_append] at hjudge
                              by_cases hslot : next.slot = .value
                              · simp only [hslot, if_true]
                                exact hjudge
                              · simp only [hslot, if_false]
                                rfl
                          | _ => rfl
                      | _ => rfl
              | _ => rfl
          | _ => rfl
      | stmt s =>
          simp only [rename_stmt, liftsFrom_rename]
          split
          next =>
            exact judge_moved htail depth whole next s rest (.lifted next.path (nest up l).2.1.path)
          next => rfl
      | _ => rfl

/-- Climbing ends at a method, so what is above it does not matter. -/
theorem climb_moved (htail : Outside tail) (span : Span) (depth : Nat) (chain : List Path)
    {l : List Above} (hl : tail = [] ∨ ∃ a ∈ l, ∃ m, a.node = .method m) :
    climb span depth (chain.map (q ++ ·)) (l.map (Above.moved q f) ++ tail) =
      (climb span depth chain l).under q := by
  induction l generalizing chain with
  | nil =>
      obtain rfl : tail = [] := by simpa using hl
      rfl
  | cons up rest ih =>
      have hhigher (hup : ∀ m, up.node ≠ .method m) :
          climb span depth (chain.map (q ++ ·) ++ [(up.moved q f).path])
              (rest.map (Above.moved q f) ++ tail) =
            (climb span depth (chain ++ [up.path]) rest).under q := by
        have hrest : tail = [] ∨ ∃ a ∈ rest, ∃ m, a.node = .method m := by
          refine hl.imp_right ?_
          rintro ⟨a, ha, m, hm⟩
          rcases List.mem_cons.1 ha with rfl | ha
          · exact absurd hm (hup m)
          · exact ⟨a, ha, m, hm⟩
        rw [← ih _ hrest, List.map_append]
        rfl
      rw [List.map_cons, List.cons_append]
      unfold climb
      simp only [Above.moved_node, Above.moved_slot]
      cases hup : up.node with
      | expr e =>
          have hhigher := hhigher (by simp [hup])
          cases e with
          | conditional => exact inConditional_moved htail depth chain up rest
          | binary | assign =>
              simp only [rename_expr, Expr.rename]
              rw [apply_ite (Placement.under q), ← hhigher]
              rfl
          | template => rfl
          | lambda => rfl
          | _ => exact hhigher
      | stmt s => exact judge_moved htail depth chain up s rest (.anchored up.path)
      | _ => rfl

/-! ## Placements -/

theorem Place.under_nil (p : Place) : p.under [] = p := by
  cases p <;> rfl

theorem Placement.under_nil (p : Placement) : p.under [] = p := by
  obtain ⟨chain, statement, verdict⟩ := p
  have hchain : chain.map (([] : Path) ++ ·) = chain := List.map_id'' (fun _ => rfl) chain
  have hstatement : statement.map (([] : Path) ++ ·) = statement := by cases statement <;> rfl
  have hverdict : verdict.under [] = verdict := by
    cases verdict with
    | accepted c => simp only [Verdict.under, Context.under, c.place.under_nil, List.nil_append]
    | _ => rfl
  simp only [Placement.under, hchain, hstatement, hverdict]

/-- A site is placed alike whatever the variables are called. -/
theorem place_rename (root : Node) (p : Path) (span : Span) :
    place (root.rename f) p span = place root p span := by
  have hspine : (root.rename f).spine p = (root.spine p).map (Above.moved [] f) ++ [] := by
    rw [spine_rename, List.append_nil]
    rfl
  unfold place
  dsimp only
  rw [hspine, scopeDepth_moved .nothing]
  exact (climb_moved (q := []) .nothing span _ [] (.inl rfl)).trans (Placement.under_nil _)

theorem siteKind?_rename (o : Options) (n : Node) : siteKind? o (n.rename f) = siteKind? o n := by
  cases n with
  | expr e =>
      cases e with
      | call s receiver name args type =>
          cases args with
          | nil => simp [Expr.rename, siteKind?, Registry.resolve]
          | cons => rfl
      | _ => rfl
  | _ => rfl

theorem sites_rename (o : Options) (root : Node) : sites o (root.rename f) = sites o root := by
  simp only [sites, walk_rename, List.filterMap_map]
  refine congrArg (root.walk.filterMap ·) (funext fun y => ?_)
  simp only [Function.comp_apply, siteAt?, siteKind?_rename, span_rename]

theorem placements_rename (o : Options) (root : Node) :
    placements o (root.rename f) = placements o root := by
  simp only [placements, sites_rename, place_rename]

end Placing

end Expansion

end EarlyExit
