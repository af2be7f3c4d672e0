import Mathlib.Data.List.Basic
import EarlyExit.Expansion.Step
import EarlyExit.Proofs.Tree.Replace

/-!
# What a site sees above it

Placing a site looks at little of the nodes above it: what kind of node each is, and
through which slot the way leads down.  `Shape` keeps just that.  The shapes above a
site decide the exit it is placed with now, and also the exit it will have when its
turn comes, after the conditionals around it have been lifted.
-/

namespace EarlyExit

/-! ## Faces -/

/-- What the node above an expression can see of it. -/
structure Face where
  type : String
  branch : String
  isVariable : Bool

namespace Expr

def isVariable : Expr -> Bool
  | .ident .. => true
  | _ => false

def face (e : Expr) : Face :=
  ⟨e.staticType, branchType e, e.isVariable⟩

end Expr

namespace Node

/-- The face of an expression; other nodes are never looked into from above. -/
def face? : Node -> Option Face
  | .expr e => some e.face
  | _ => none

def staticType : Node -> String
  | .expr e => e.staticType
  | _ => ""

theorem staticType_of_face {a b : Node} (h : a.face? = b.face?) : a.staticType = b.staticType := by
  cases a <;> cases b <;> simp_all [face?, staticType, Expr.face]

end Node

namespace Expansion

/-! ## Shapes -/

/-- What matters of a statement above a site. -/
structure StmtShape where
  /-- The way leads through the anchor slot. -/
  anchors : Bool
  throws : Bool
  typedTemp : Bool
  isExpr : Bool
  /-- A statement right below may be given a prologue. -/
  holds : Bool
deriving DecidableEq

/-- What matters of a node above a site. -/
inductive Shape
  | operand
  /-- An operand that runs conditionally, or is written to. -/
  | barrier
  | conditional (typed viaTest : Bool)
  /-- The value assigned to a variable. -/
  | assignment
  | lambda
  | switchExpr
  | arm
  | method
  | stmt (s : StmtShape)
  | other
deriving DecidableEq

def stmtShape (s : Stmt) (slot : Slot) : StmtShape where
  anchors := s.anchorSlot? = some slot
  throws := match s with | .throw .. => true | _ => false
  typedTemp := s.needsTypedTemp
  isExpr := match s with | .expr .. => true | _ => false
  holds :=
    match s with
    | .block _ | .branch .. | .forEach .. | .whileLoop .. | .doWhile .. => true
    | .forLoop .. => slot = .body
    | _ => false

/-- The shape of a node above a site, with the slot that leads down to the site. -/
def shape (n : Node) (slot : Slot) : Shape :=
  match n with
  | .expr (.binary _ _ op _) => if slot = .right && op.isShortCircuit then .barrier else .operand
  | .expr (.conditional _ _ onTrue onFalse type) =>
      .conditional (!(conditionalType type onTrue onFalse).isEmpty) (slot = .test)
  | .expr (.template ..) => .barrier
  | .expr (.assign _ target _ _) =>
      if slot = .target then .barrier
      else if target.isVariable && slot = .value then .assignment else .operand
  | .expr (.lambda ..) => .lambda
  | .expr (.switch ..) => .switchExpr
  | .expr _ => .operand
  | .arm _ => .arm
  | .method _ => .method
  | .stmt s => .stmt (stmtShape s slot)
  | _ => .other

def shapes (up : List Above) : List Shape :=
  up.map fun a => shape a.node a.slot

/-! ## Prospects -/

/-- The exit that leaves the innermost scope. -/
def scopeExit? : List Shape -> Option Exit
  | [] => none
  | .method :: _ | .lambda :: _ => some .ret
  | .arm :: rest => if rest.head? = some .switchExpr then some .yield else scopeExit? rest
  | _ :: rest => scopeExit? rest

def Shape.holds : Shape -> Bool
  | arm => true
  | stmt s => s.holds
  | _ => false

/-- What becomes of a site. -/
structure Prospect where
  /-- The exit it is placed with at present. -/
  now : Exit
  /-- The exit it has when it is hoisted, if it gets that far. -/
  later : Option Exit
deriving DecidableEq

/-- How far the way up from a site has come. -/
inductive Gait
  | walking
  /--
  In a nest of conditionals: whether the last one passed has a type, whether one was
  passed through its test, and whether one without a type stands in the test of another.
  -/
  | nested (typed viaTest stuck : Bool)

/-- The exit now, for a statement of that kind; the exit later, when the lifting is done. -/
def prospectAt (throws viaTest stuck : Bool) (rest : List Shape) : Option Prospect :=
  if rest.head?.any Shape.holds then
    (scopeExit? rest).map fun e =>
      ⟨if throws then .throw else e,
        if stuck then none else some (if throws && !viaTest then .throw else e)⟩
  else none

/-- What becomes of a site with these shapes above it; nothing if it is rejected. -/
def prospect? : Gait -> List Shape -> Option Prospect
  | _, [] => none
  | .walking, .operand :: rest | .walking, .assignment :: rest | .walking, .switchExpr :: rest =>
      prospect? .walking rest
  | .walking, .conditional typed viaTest :: rest => prospect? (.nested typed viaTest false) rest
  | .walking, .lambda :: _ => some ⟨.ret, some .ret⟩
  | .walking, .stmt s :: rest => if s.anchors then prospectAt s.throws false false rest else none
  | .nested typed viaTest stuck, .conditional typed' viaTest' :: rest =>
      prospect? (.nested typed' (viaTest || viaTest') (stuck || (viaTest' && !typed))) rest
  | .nested _ _ stuck, .lambda :: _ => some ⟨.ret, if stuck then none else some .ret⟩
  | .nested _ _ stuck, .assignment :: .stmt s :: rest =>
      if s.anchors && s.isExpr then prospectAt false false stuck rest else none
  | .nested typed viaTest stuck, .stmt s :: rest =>
      if s.anchors && (!s.typedTemp || typed) then prospectAt s.throws viaTest stuck rest else none
  | _, _ => none

/-! ## Placing decides by shapes alone -/

def Verdict.exit? : Verdict -> Option Exit
  | accepted c => some c.exit
  | _ => none

@[simp] theorem shapes_nil : shapes [] = [] := rfl

@[simp] theorem shapes_cons (a : Above) (rest : List Above) :
    shapes (a :: rest) = shape a.node a.slot :: shapes rest := rfl

@[simp] theorem shapes_append (up rest : List Above) :
    shapes (up ++ rest) = shapes up ++ shapes rest := by
  simp [shapes]

theorem slotFault?_eq_none {s : Stmt} {slot : Slot} :
    slotFault? s slot = none ↔ s.anchorSlot? = some slot := by
  cases s <;> simp [slotFault?, Stmt.anchorSlot?]

theorem misplaced?_eq_none (stmt : Above) {rest : List Above} :
    misplaced? stmt rest = none ↔ (shapes rest).head?.any Shape.holds = true := by
  cases rest with
  | nil => simp [misplaced?]
  | cons up rest =>
      obtain ⟨path, node, slot⟩ := up
      cases node with
      | stmt s => cases s <;> simp [misplaced?, shape, Shape.holds, stmtShape]
      | expr e =>
          cases e <;> simp [misplaced?, shape, Shape.holds]
          all_goals grind [Shape.holds]
      | _ => simp [misplaced?, shape, Shape.holds]

theorem head?_isSwitchExpr (rest : List Above) :
    rest.head?.any Above.isSwitchExpr = true ↔ (shapes rest).head? = some .switchExpr := by
  cases rest with
  | nil => simp
  | cons up rest =>
      obtain ⟨path, node, slot⟩ := up
      cases node with
      | expr e =>
          cases e <;> simp [shape, Above.isSwitchExpr]
          all_goals grind
      | _ => simp [shape, Above.isSwitchExpr]

theorem innermost?_exit (up : List Above) :
    (innermost? up).map (·.2) = scopeExit? (shapes up) := by
  induction up with
  | nil => rfl
  | cons a rest ih =>
      obtain ⟨path, node, slot⟩ := a
      cases node with
      | arm c =>
          simp only [innermost?, shapes_cons, shape, scopeExit?]
          by_cases hs : rest.head?.any Above.isSwitchExpr = true
          · simp [hs, (head?_isSwitchExpr rest).1 hs]
          · simp [hs, mt (head?_isSwitchExpr rest).2 hs, ih]
      | expr e =>
          cases e with
          | binary s l op r =>
              simp only [innermost?, shapes_cons, shape]
              split <;> simpa [scopeExit?] using ih
          | assign s t op v =>
              simp only [innermost?, shapes_cons, shape]
              repeat' split
              all_goals simpa [scopeExit?] using ih
          | lambda s ps b => rfl
          | _ => simpa [innermost?, shape, scopeExit?] using ih
      | method m => rfl
      | _ => simpa [innermost?, shape, scopeExit?] using ih

theorem judge_exit (depth : Nat) (chain : List Path) (up : Above) (s : Stmt)
    (rest : List Above) (place : Place) (viaTest stuck : Bool) :
    (judge depth chain up s rest place).verdict.exit? =
      if (stmtShape s up.slot).anchors then
        (prospectAt (stmtShape s up.slot).throws viaTest stuck (shapes rest)).map (·.now)
      else none := by
  have hthrow : ∀ exit, Exit.ofAnchor s exit =
      if (stmtShape s up.slot).throws then .throw else exit := by
    intro exit
    cases s <;> simp [Exit.ofAnchor, stmtShape]
  have hanchors : (stmtShape s up.slot).anchors = true ↔ slotFault? s up.slot = none := by
    simp [stmtShape, slotFault?_eq_none]
  unfold judge
  cases hslot : slotFault? s up.slot with
  | some reason =>
      have : (stmtShape s up.slot).anchors = false := by simpa [hslot] using hanchors
      simp [this, Verdict.exit?]
  | none =>
      simp only [hanchors.2 hslot, if_true]
      unfold prospectAt
      cases hplace : misplaced? up rest with
      | some fault =>
          have hnot : ¬(shapes rest).head?.any Shape.holds = true := by
            rw [← misplaced?_eq_none up, hplace]
            simp
          rw [if_neg hnot]
          simp [Verdict.exit?]
      | none =>
          rw [if_pos ((misplaced?_eq_none up).1 hplace), ← innermost?_exit]
          cases innermost? rest <;> simp [Verdict.exit?, hthrow]

theorem conditional_shape {a : Above} (h : a.isConditional = true) :
    ∃ typed, shape a.node a.slot = .conditional typed (a.slot = .test) := by
  obtain ⟨path, node, slot⟩ := a
  cases node with
  | expr e => cases e <;> first | exact ⟨_, rfl⟩ | simp [Above.isConditional] at h
  | _ => simp [Above.isConditional] at h

/-- What a nest of conditionals comes to is decided above its outermost one. -/
theorem inConditional_cons (depth : Nat) (chain : List Path) (up next : Above)
    (rest : List Above) (h : next.isConditional = true) :
    (inConditional depth chain up (next :: rest)).verdict.exit? =
      (inConditional depth chain next rest).verdict.exit? := by
  unfold inConditional
  simp only [nest, h, if_true]
  obtain ⟨inner, top, outer⟩ := nest next rest
  cases outer with
  | nil => rfl
  | cons above outer =>
      dsimp only
      split
      · rfl
      · split
        · split
          · split
            · simp only [judge_exit _ _ _ _ _ _ false false]
            · rfl
          · rfl
        · rfl
      · split
        · simp only [judge_exit _ _ _ _ _ _ false false]
        · rfl
      · rfl

/-- The verdict on a conditional that no other one encloses. -/
theorem inConditional_top (depth : Nat) (chain : List Path) {up next : Above}
    {rest : List Above} {typed v : Bool} (viaTest stuck : Bool)
    (hup : shape up.node up.slot = .conditional typed v) (hnext : ¬next.isConditional = true) :
    (inConditional depth chain up (next :: rest)).verdict.exit? =
      (prospect? (.nested typed viaTest stuck) (shapes (next :: rest))).map (·.now) := by
  have hlifts : ∀ s slot, liftsFrom s slot up.node =
      ((stmtShape s slot).anchors && (!(stmtShape s slot).typedTemp || typed)) := by
    intro s slot
    obtain ⟨path, node, upSlot⟩ := up
    cases node with
    | expr e =>
        cases e <;> simp_all [shape, liftsFrom, stmtShape]
        all_goals grind
    | _ => simp [shape] at hup
  have hnest : nest up (next :: rest) = ([], up, next :: rest) := by simp [nest, hnext]
  simp only [inConditional, hnest, shapes_cons]
  obtain ⟨path, node, slot⟩ := next
  cases node with
  | stmt s =>
      simp only [shape, prospect?, hlifts]
      split
      next h =>
        rw [judge_exit _ _ _ _ _ _ viaTest stuck]
        simp_all
      next => rfl
  | expr e =>
      cases e with
      | lambda => rfl
      | conditional => simp [Above.isConditional] at hnext
      | assign s target op value =>
          by_cases hvalue : target.isVariable = true ∧ slot = .value
          · obtain ⟨hvar, rfl⟩ := hvalue
            cases target <;> simp [Expr.isVariable] at hvar
            rw [show shape (.expr (.assign s (.ident _ _ _) op value)) .value = .assignment from rfl]
            cases rest with
            | nil => rfl
            | cons stmt rest =>
                obtain ⟨path', node', slot'⟩ := stmt
                cases node' with
                | stmt s' =>
                    cases s' with
                    | expr s' e =>
                        simp only [shapes_cons, shape, prospect?]
                        rw [if_true, judge_exit _ _ _ _ _ _ false stuck]
                        split <;> simp_all [stmtShape]
                    | _ => simp [shape, stmtShape, prospect?, Verdict.exit?]
                | expr e =>
                    cases e <;> simp [shape, prospect?, Verdict.exit?]
                    all_goals (repeat' split) <;> simp [prospect?]
                | _ => simp [shape, prospect?, Verdict.exit?]
          · have hshape : shape (.expr (.assign s target op value)) slot = .barrier ∨
                shape (.expr (.assign s target op value)) slot = .operand := by
              simp only [shape]
              repeat' split
              all_goals simp_all
            have hnone : prospect? (.nested typed viaTest stuck)
                (shape (.expr (.assign s target op value)) slot :: shapes rest) = none := by
              rcases hshape with h | h <;> rw [h] <;> rfl
            rw [hnone]
            cases target <;> try rfl
            have hslot : slot ≠ .value := fun h => hvalue ⟨rfl, h⟩
            cases rest with
            | nil => rfl
            | cons stmt rest =>
                simp only [hslot, if_false]
                split <;> rfl
      | binary s l op r =>
          simp only [shape]
          split <;> rfl
      | _ => rfl
  | _ => rfl

theorem inConditional_exit (depth : Nat) (chain : List Path) (up : Above) (rest : List Above)
    {typed v : Bool} (viaTest stuck : Bool)
    (hup : shape up.node up.slot = .conditional typed v) :
    (inConditional depth chain up rest).verdict.exit? =
      (prospect? (.nested typed viaTest stuck) (shapes rest)).map (·.now) := by
  induction rest generalizing up typed v viaTest stuck with
  | nil => simp [inConditional, nest, prospect?, Verdict.exit?]
  | cons next rest ih =>
      by_cases hnext : next.isConditional = true
      · obtain ⟨typed', hshape⟩ := conditional_shape hnext
        rw [inConditional_cons _ _ _ _ _ hnext, shapes_cons, hshape, prospect?]
        exact ih next _ _ hshape
      · exact inConditional_top depth chain viaTest stuck hup hnext

/-- Whether a site is accepted, and with which exit, is decided by the shapes above it. -/
theorem climb_exit (span : Span) (depth : Nat) (chain : List Path) (up : List Above) :
    (climb span depth chain up).verdict.exit? =
      (prospect? .walking (shapes up)).map (·.now) := by
  induction up generalizing chain with
  | nil => rfl
  | cons a rest ih =>
      obtain ⟨path, node, slot⟩ := a
      cases node with
      | stmt s =>
          rw [climb, judge_exit _ _ _ _ _ _ false false, shapes_cons, shape, prospect?]
          split <;> rfl
      | expr e =>
          cases e with
          | conditional s c a b t => exact inConditional_exit depth chain _ rest _ _ rfl
          | binary s l op r =>
              simp only [climb, shapes_cons, shape]
              split
              · rfl
              · simpa [prospect?] using ih _
          | assign s t op v =>
              simp only [climb, shapes_cons, shape]
              split
              · rfl
              · split <;> simpa [prospect?] using ih _
          | lambda => rfl
          | template => rfl
          | _ => simpa [climb, shape, prospect?] using ih _
      | _ => rfl

/-! ## All sites of a tree -/

def Site.under (slot : Slot) (s : Site) : Site :=
  { s with path := slot :: s.path }

theorem sites_eq (o : Options) (n : Node) :
    sites o n = (siteAt? o ([], n)).toList ++
      n.slots.flatMap fun x => (sites o x.2).map (Site.under x.1) := by
  have hsite : ∀ (slot : Slot) (y : Path × Node),
      siteAt? o (slot :: y.1, y.2) = (siteAt? o y).map (Site.under slot) := by
    intro slot y
    simp only [siteAt?, Option.map_map]
    rfl
  unfold sites
  rw [Node.walk_eq, List.filterMap_cons, List.filterMap_flatMap]
  simp only [List.filterMap_map, Function.comp_def, hsite, List.map_filterMap]
  cases siteAt? o ([], n) <;> rfl

/-- The shapes above every site, in the order of the sites, with the path of the site. -/
def located (o : Options) (n : Node) : List (Path × List Shape) :=
  (sites o n).map fun s => (s.path, shapes (n.spine s.path))

/-- The shapes above every site, in the order of the sites. -/
def ways (o : Options) (n : Node) : List (List Shape) :=
  (located o n).map (·.2)

theorem shapes_spine_cons {n c : Node} {slot : Slot} (h : n.get? slot = some c) (p : Path) :
    shapes (n.spine (slot :: p)) = shapes (c.spine p) ++ [shape n slot] := by
  simp [Node.spine, h, shapes, Function.comp_def]

def raise (n : Node) (slot : Slot) (x : Path × List Shape) : Path × List Shape :=
  (slot :: x.1, x.2 ++ [shape n slot])

theorem located_eq (o : Options) (n : Node) :
    located o n = (if (siteKind? o n).isSome then [([], [])] else []) ++
      n.slots.flatMap fun x => (located o x.2).map (raise n x.1) := by
  unfold located
  rw [sites_eq, List.map_append, List.map_flatMap]
  congr 1
  · cases h : siteKind? o n <;> simp [siteAt?, h, Node.spine]
  · refine List.flatMap_congr fun x hx => ?_
    rw [List.map_map, List.map_map]
    refine List.map_congr_left fun s _ => ?_
    simp [raise, Site.under, shapes_spine_cons (Node.get?_eq_some.2 hx)]

theorem ways_eq (o : Options) (n : Node) :
    ways o n = (if (siteKind? o n).isSome then [[]] else []) ++
      n.slots.flatMap fun x => (ways o x.2).map (· ++ [shape n x.1]) := by
  unfold ways
  rw [located_eq, List.map_append, List.map_flatMap]
  congr 1
  · split <;> rfl
  · simp [raise, Function.comp_def]

/-! ## Changing a tree below

A change that keeps the face of the changed node keeps the shapes of all nodes above.
-/

theorem face_setExprSlot {e e' : Expr} {slot : Slot} {new : Node}
    (h : Node.setExprSlot e slot new = some e') : e'.face = e.face := by
  unfold Node.setExprSlot at h
  split at h
  all_goals simp only [Option.map_eq_some_iff, Option.some.injEq, reduceCtorEq] at h
  all_goals first
    | subst h; rfl
    | obtain ⟨_, _, rfl⟩ := h; rfl

theorem face?_set {n n' new : Node} {slot : Slot} (h : n.set? slot new = some n') :
    n'.face? = n.face? := by
  unfold Node.set? at h
  split at h
  all_goals simp only [Option.map_eq_some_iff, Option.some.injEq, reduceCtorEq] at h
  all_goals first
    | subst h; rfl
    | obtain ⟨_, hs, rfl⟩ := h
      first
        | rfl
        | exact congrArg some (face_setExprSlot hs)

theorem face?_put {n n' old new : Node} {p : Path} (hold : n.at? p = some old)
    (hput : n.put? new p = some n') (hface : old.face? = new.face?) : n.face? = n'.face? := by
  cases p with
  | nil =>
      cases hold
      cases hput
      exact hface
  | cons slot rest =>
      obtain ⟨_, _, _, _, hset⟩ := Node.put?_cons_eq_some.1 hput
      exact (face?_set hset).symm

theorem shape_setExprSlot {e e' : Expr} {slot : Slot} {old new : Node}
    (hold : (slot, old) ∈ Node.exprSlots e) (h : Node.setExprSlot e slot new = some e')
    (hface : old.face? = new.face?) (s : Slot) : shape (.expr e') s = shape (.expr e) s := by
  unfold Node.setExprSlot at h
  split at h
  all_goals simp only [Option.map_eq_some_iff, Option.some.injEq, reduceCtorEq] at h
  all_goals first
    | subst h; rfl
    | obtain ⟨_, _, rfl⟩ := h; rfl
    | subst h
      simp only [Node.exprSlots, List.mem_append, Node.mem_single, Node.ofExpr?_eq_some,
        reduceCtorEq, false_and, false_or, or_false, true_and] at hold
      obtain ⟨rfl, _⟩ := hold
      simp only [Node.face?, Expr.face, Option.some.injEq, Face.mk.injEq] at hface
      simp [shape, conditionalType, hface]

theorem shape_setStmtSlot {t t' : Stmt} {slot : Slot} {new : Node}
    (h : Node.setStmtSlot t slot new = some t') (s : Slot) :
    shape (.stmt t') s = shape (.stmt t) s := by
  unfold Node.setStmtSlot at h
  split at h
  all_goals simp only [Option.map_eq_some_iff, Option.some.injEq, reduceCtorEq] at h
  all_goals first
    | subst h; rfl
    | obtain ⟨_, _, rfl⟩ := h; rfl

theorem shape_set {n n' old new : Node} {slot : Slot} (hold : n.get? slot = some old)
    (h : n.set? slot new = some n') (hface : old.face? = new.face?) (s : Slot) :
    shape n' s = shape n s := by
  rw [Node.get?_eq_some] at hold
  unfold Node.set? at h
  split at h
  all_goals simp only [Option.map_eq_some_iff, Option.some.injEq, reduceCtorEq] at h
  all_goals first
    | subst h; rfl
    | obtain ⟨_, hs, rfl⟩ := h
      first
        | rfl
        | exact shape_setStmtSlot hs s
        | exact shape_setExprSlot hold hs hface s

theorem siteKind?_setExprSlot {o : Options} {e e' : Expr} {slot : Slot} {old new : Node}
    (hold : (slot, old) ∈ Node.exprSlots e) (h : Node.setExprSlot e slot new = some e')
    (htype : old.staticType = new.staticType) : siteKind? o (.expr e') = siteKind? o (.expr e) := by
  unfold Node.setExprSlot at h
  split at h
  all_goals simp only [Option.map_eq_some_iff, Option.some.injEq, reduceCtorEq] at h
  all_goals first
    | subst h; rfl
    | obtain ⟨_, _, rfl⟩ := h; rfl
    | -- another receiver of the same static type
      subst h
      simp only [Node.exprSlots, List.mem_append, Node.mem_single, Node.ofExpr?_eq_some,
        Node.mem_listed, reduceCtorEq, false_and, and_false, exists_false, or_false,
        true_and] at hold
      obtain ⟨rfl, _⟩ := hold
      simp only [Node.staticType] at htype
      simp only [siteKind?]
      split <;> simp_all [Registry.resolve]
    | -- a call with an argument is no site
      obtain ⟨_, hset, rfl⟩ := h
      obtain ⟨hi, rfl⟩ := Node.setEntry_eq_some.1 hset
      simp only [siteKind?]
      split <;> split <;> simp_all

theorem siteKind?_set {o : Options} {n n' old new : Node} {slot : Slot}
    (hold : n.get? slot = some old) (h : n.set? slot new = some n')
    (htype : old.staticType = new.staticType) : siteKind? o n' = siteKind? o n := by
  rw [Node.get?_eq_some] at hold
  unfold Node.set? at h
  split at h
  all_goals simp only [Option.map_eq_some_iff, Option.some.injEq, reduceCtorEq] at h
  all_goals first
    | subst h; rfl
    | obtain ⟨_, hs, rfl⟩ := h
      first
        | rfl
        | exact siteKind?_setExprSlot hold hs htype

/--
Sites elsewhere keep their ways up, and sites below see the same nodes above the change.
The lists `l` and `r` are of the sites on both sides of the change.
-/
theorem located_put {o : Options} {root root' old new : Node} {p : Path}
    (hold : root.at? p = some old) (hput : root.put? new p = some root')
    (hnew : new.isFilled = true) (hface : old.face? = new.face?) :
    ∃ l r,
      located o root = l ++
        (located o old).map (fun x => (p ++ x.1, x.2 ++ shapes (root.spine p))) ++ r ∧
      ways o root' = l.map (·.2) ++ (ways o new).map (· ++ shapes (root.spine p)) ++
        r.map (·.2) ∧
      ∀ x ∈ l ++ r, p.below? x.1 = none := by
  induction p generalizing root root' with
  | nil =>
      cases hold
      cases hput
      exact ⟨[], [], by simp [Node.spine], by simp [Node.spine], by simp⟩
  | cons slot rest ih =>
      obtain ⟨c, hc, hold⟩ := Node.at?_cons_eq_some.1 hold
      obtain ⟨d, c', hd, hput, hset⟩ := Node.put?_cons_eq_some.1 hput
      rw [hc] at hd
      cases hd
      obtain ⟨l, r, hl, hr, hlr⟩ := ih hold hput
      have hfaces := face?_put hold hput hface
      obtain ⟨before, after, hslots, hslots', hne⟩ :=
        Node.slots_set_split hc (Node.isFilled_put hnew hput) hset
      have hshape := shape_set hc hset hfaces
      have hspine : shapes (root.spine (slot :: rest)) =
          shapes (c.spine rest) ++ [shape root slot] := shapes_spine_cons hc rest
      let above (x : Slot × Node) : List (Path × List Shape) :=
        (located o x.2).map (raise root x.1)
      refine ⟨(if (siteKind? o root).isSome then [([], [])] else []) ++ before.flatMap above ++
        l.map (raise root slot), r.map (raise root slot) ++ after.flatMap above, ?_, ?_, ?_⟩
      · rw [located_eq, hslots, hspine]
        simp [hl, above, Function.comp_def, raise]
      · rw [ways_eq, siteKind?_set hc hset (Node.staticType_of_face hfaces), hslots', hspine]
        simp only [hshape]
        rw [List.flatMap_append, List.flatMap_cons, hr]
        split <;> simp [above, ways, Function.comp_def, raise, List.map_flatMap]
      · have hother (z : Slot × Node) (hz : z ∈ before ++ after) :
            ∀ x ∈ above z, Path.below? (slot :: rest) x.1 = none := by
          intro x hx
          obtain ⟨y, _, rfl⟩ := List.mem_map.1 hx
          simp [Path.below?, raise, Ne.symm (hne z hz)]
        have hthis (y : Path × List Shape) (hy : y ∈ l ++ r) :
            Path.below? (slot :: rest) (raise root slot y).1 = none := by
          simpa [Path.below?, raise] using hlr y hy
        intro x hx
        simp only [List.mem_append, List.mem_flatMap, List.mem_map] at hx
        rcases hx with ((hx | ⟨z, hz, hx⟩) | ⟨y, hy, rfl⟩) | (⟨y, hy, rfl⟩ | ⟨z, hz, hx⟩)
        · split at hx
          · simp only [List.mem_singleton] at hx
            subst hx
            rfl
          · simp at hx
        · exact hother z (by simp [hz]) x hx
        · exact hthis y (by simp [hy])
        · exact hthis y (by simp [hy])
        · exact hother z (by simp [hz]) x hx

end Expansion

end EarlyExit
