import EarlyExit.Expansion.Names
import EarlyExit.Proofs.Tree.Spine

/-!
# Renamed variables

A tree with its variables renamed, where they are declared and where they are used.
Labels, members, classes and types are no variables.  Renaming changes no shape, so
whatever finds or replaces a part of a tree by its place commutes with it.
-/

namespace EarlyExit

section Rename

variable (f : String -> String)

def Param.rename (p : Param) : Param :=
  { p with name := f p.name }

theorem Param.rename_id (p : Param) : p.rename id = p := rfl

mutual

@[simp] def Expr.rename : Expr -> Expr
  | .missing => .missing
  | .ident s name type => .ident s (f name) type
  | .literal s value raw => .literal s value raw
  | .call s receiver name args type => .call s receiver.rename name (renameExprs args) type
  | .field s target name type => .field s target.rename name type
  | .assign s target op value => .assign s target.rename op value.rename
  | .binary s left op right => .binary s left.rename op right.rename
  | .unary s op operand trailing => .unary s op operand.rename trailing
  | .conditional s test onTrue onFalse type =>
      .conditional s test.rename onTrue.rename onFalse.rename type
  | .index s array position type => .index s array.rename position.rename type
  | .newArray s elemType dims elements listed =>
      .newArray s elemType (renameExprs dims) (renameExprs elements) listed
  | .newObject s className args => .newObject s className (renameExprs args)
  | .lambda s params body => .lambda s (params.map (Param.rename f)) body.rename
  | .switch s selector cases type => .switch s selector.rename (renameCases cases) type
  | .template s processor fragments values => .template s processor fragments (renameExprs values)

@[simp] def Body.rename : Body -> Body
  | .value e => .value e.rename
  | .block b => .block b.rename

@[simp] def Block.rename : Block -> Block
  | .mk s ss => .mk s (renameStmts ss)

@[simp] def Stmt.rename : Stmt -> Stmt
  | .missing => .missing
  | .block b => .block b.rename
  | .expr s e => .expr s e.rename
  | .var s name type value => .var s (f name) type value.rename
  | .ret s value => .ret s value.rename
  | .throw s value => .throw s value.rename
  | .yield s value implicit => .yield s value.rename implicit
  | .branch s test onTrue onFalse => .branch s test.rename onTrue.rename onFalse.rename
  | .forLoop s init test update body =>
      .forLoop s (renameStmts init) test.rename (renameExprs update) body.rename
  | .forEach s name type iterable body => .forEach s (f name) type iterable.rename body.rename
  | .whileLoop s test body => .whileLoop s test.rename body.rename
  | .doWhile s body test => .doWhile s body.rename test.rename
  | .switch s selector cases => .switch s selector.rename (renameCases cases)
  | .tryCatch s resources body catches cleanup =>
      .tryCatch s (renameStmts resources) body.rename (renameCatches catches)
        (renameCleanup cleanup)
  | .sync s monitor body => .sync s monitor.rename body.rename
  | .labeled s label body => .labeled s label body.rename
  | .breakTo s label => .breakTo s label
  | .continueTo s label => .continueTo s label
  | .assert s test message => .assert s test.rename message.rename

@[simp] def Case.rename : Case -> Case
  | .mk s labels arrow body => .mk s (renameExprs labels) arrow (renameStmts body)

@[simp] def Catch.rename : Catch -> Catch
  | .mk s param body => .mk s (param.map (Param.rename f)) body.rename

def renameExprs : List Expr -> List Expr
  | [] => []
  | e :: rest => e.rename :: renameExprs rest

def renameStmts : List Stmt -> List Stmt
  | [] => []
  | s :: rest => s.rename :: renameStmts rest

def renameCases : List Case -> List Case
  | [] => []
  | c :: rest => c.rename :: renameCases rest

def renameCatches : List Catch -> List Catch
  | [] => []
  | c :: rest => c.rename :: renameCatches rest

def renameCleanup : Option Block -> Option Block
  | none => none
  | some b => some b.rename

end

def Method.rename (m : Method) : Method :=
  { m with params := m.params.map (Param.rename f), body := m.body.map (Block.rename f) }

def CompilationUnit.rename (u : CompilationUnit) : CompilationUnit :=
  { u with methods := u.methods.map (Method.rename f) }

def Node.rename : Node -> Node
  | .unit u => .unit (u.rename f)
  | .method m => .method (m.rename f)
  | .param p => .param (p.rename f)
  | .stmt s => .stmt (s.rename f)
  | .arm c => .arm (c.rename f)
  | .clause c => .clause (c.rename f)
  | .expr e => .expr (e.rename f)

@[simp] theorem Node.rename_method (m : Method) :
    (Node.method m).rename f = .method (m.rename f) := rfl

@[simp] theorem Node.rename_stmt (s : Stmt) : (Node.stmt s).rename f = .stmt (s.rename f) := rfl

@[simp] theorem Node.rename_expr (e : Expr) : (Node.expr e).rename f = .expr (e.rename f) := rfl

@[simp] theorem renameExprs_eq_map (l : List Expr) : renameExprs f l = l.map (Expr.rename f) := by
  induction l with
  | nil => rfl
  | cons e rest ih => exact congrArg (_ :: ·) ih

@[simp] theorem renameStmts_eq_map (l : List Stmt) : renameStmts f l = l.map (Stmt.rename f) := by
  induction l with
  | nil => rfl
  | cons s rest ih => exact congrArg (_ :: ·) ih

@[simp] theorem renameCases_eq_map (l : List Case) : renameCases f l = l.map (Case.rename f) := by
  induction l with
  | nil => rfl
  | cons c rest ih => exact congrArg (_ :: ·) ih

@[simp] theorem renameCatches_eq_map (l : List Catch) :
    renameCatches f l = l.map (Catch.rename f) := by
  induction l with
  | nil => rfl
  | cons c rest ih => exact congrArg (_ :: ·) ih

@[simp] theorem renameCleanup_eq_map (b : Option Block) :
    renameCleanup f b = b.map (Block.rename f) := by
  cases b <;> rfl

/-! ## What renaming keeps -/

@[simp] theorem Expr.isMissing_rename (e : Expr) : (e.rename f).isMissing = e.isMissing := by
  cases e <;> rfl

@[simp] theorem Stmt.isMissing_rename (s : Stmt) : (s.rename f).isMissing = s.isMissing := by
  cases s <;> rfl

@[simp] theorem Expr.span_rename (e : Expr) : (e.rename f).span = e.span := by
  cases e <;> rfl

@[simp] theorem Block.span_rename (b : Block) : (b.rename f).span = b.span := by
  cases b; rfl

@[simp] theorem Stmt.span_rename (s : Stmt) : (s.rename f).span = s.span := by
  cases s with
  | block b => exact b.span_rename f
  | _ => rfl

@[simp] theorem Expr.staticType_rename (e : Expr) : (e.rename f).staticType = e.staticType := by
  cases e <;> rfl

namespace Node

@[simp] theorem span_rename (n : Node) : (n.rename f).span = n.span := by
  cases n with
  | stmt s => exact s.span_rename f
  | expr e => exact e.span_rename f
  | arm c => cases c; rfl
  | clause c => cases c; rfl
  | _ => rfl

/-! ## Children -/

def renameSlot (x : Slot × Node) : Slot × Node :=
  (x.1, x.2.rename f)

theorem ofExpr?_rename (e : Expr) : ofExpr? (e.rename f) = (ofExpr? e).map (rename f) := by
  cases e <;> rfl

theorem ofStmt?_rename (s : Stmt) : ofStmt? (s.rename f) = (ofStmt? s).map (rename f) := by
  cases s <;> rfl

theorem single_rename (slot : Slot) (child : Option Node) :
    single slot (child.map (rename f)) = (single slot child).map (renameSlot f) := by
  cases child <;> rfl

theorem listed_rename {view : α -> Option Node} {g : α -> α} (slot : Nat -> Slot)
    (hview : ∀ a, view (g a) = (view a).map (rename f)) (i : Nat) (l : List α) :
    listed slot view i (l.map g) = (listed slot view i l).map (renameSlot f) := by
  induction l generalizing i with
  | nil => rfl
  | cons a rest ih =>
      rw [List.map_cons, listed, listed, hview]
      cases view a with
      | none => exact ih (i + 1)
      | some n =>
          rw [Option.map_some, List.map_cons]
          exact congrArg (_ :: ·) (ih (i + 1))

theorem single_expr_rename (slot : Slot) (e : Expr) :
    single slot (ofExpr? (e.rename f)) = (single slot (ofExpr? e)).map (renameSlot f) := by
  rw [ofExpr?_rename, single_rename]

theorem single_stmt_rename (slot : Slot) (s : Stmt) :
    single slot (ofStmt? (s.rename f)) = (single slot (ofStmt? s)).map (renameSlot f) := by
  rw [ofStmt?_rename, single_rename]

theorem single_block_rename (slot : Slot) (b : Option Block) :
    single slot ((b.map (Block.rename f)).map ofBlock) =
      (single slot (b.map ofBlock)).map (renameSlot f) := by
  cases b <;> rfl

theorem listed_exprs_rename (slot : Nat -> Slot) (l : List Expr) :
    listed slot ofExpr? 0 (l.map (Expr.rename f)) =
      (listed slot ofExpr? 0 l).map (renameSlot f) :=
  listed_rename f slot (ofExpr?_rename f) 0 l

theorem listed_stmts_rename (slot : Nat -> Slot) (l : List Stmt) :
    listed slot ofStmt? 0 (l.map (Stmt.rename f)) =
      (listed slot ofStmt? 0 l).map (renameSlot f) :=
  listed_rename f slot (ofStmt?_rename f) 0 l

theorem listed_params_rename (slot : Nat -> Slot) (l : List Param) :
    listed slot (some ∘ .param) 0 (l.map (Param.rename f)) =
      (listed slot (some ∘ .param) 0 l).map (renameSlot f) :=
  listed_rename f (g := Param.rename f) slot (fun _ => rfl) 0 l

theorem listed_arms_rename (slot : Nat -> Slot) (l : List Case) :
    listed slot (some ∘ .arm) 0 (l.map (Case.rename f)) =
      (listed slot (some ∘ .arm) 0 l).map (renameSlot f) :=
  listed_rename f (g := Case.rename f) slot (fun _ => rfl) 0 l

theorem listed_clauses_rename (slot : Nat -> Slot) (l : List Catch) :
    listed slot (some ∘ .clause) 0 (l.map (Catch.rename f)) =
      (listed slot (some ∘ .clause) 0 l).map (renameSlot f) :=
  listed_rename f (g := Catch.rename f) slot (fun _ => rfl) 0 l

theorem bodySlot_rename (slot : Slot) (b : Body) :
    bodySlot slot (b.rename f) = (bodySlot slot b).map (renameSlot f) := by
  cases b with
  | value e => exact single_expr_rename f slot e
  | block b => rfl

theorem exprSlots_rename (e : Expr) :
    exprSlots (e.rename f) = (exprSlots e).map (renameSlot f) := by
  cases e <;>
    simp only [Expr.rename, exprSlots, renameExprs_eq_map, renameCases_eq_map, single_expr_rename,
      listed_exprs_rename, listed_params_rename, listed_arms_rename, bodySlot_rename,
      List.map_append, List.map_nil]

theorem stmtSlots_rename (s : Stmt) :
    stmtSlots (s.rename f) = (stmtSlots s).map (renameSlot f) := by
  cases s with
  | block b =>
      cases b
      simp only [Stmt.rename, Block.rename, stmtSlots, Block.stmts, renameStmts_eq_map,
        listed_stmts_rename]
  | _ =>
      simp only [Stmt.rename, stmtSlots, renameExprs_eq_map, renameStmts_eq_map,
        renameCases_eq_map, renameCatches_eq_map, renameCleanup_eq_map, single_expr_rename,
        single_stmt_rename, single_block_rename, listed_exprs_rename, listed_stmts_rename,
        listed_arms_rename, listed_clauses_rename, List.map_append, List.map_cons, List.map_nil]
      try rfl

/-- The children of a renamed node are renamed. -/
theorem slots_rename (n : Node) : (n.rename f).slots = n.slots.map (renameSlot f) := by
  cases n with
  | unit u => exact listed_rename f (g := Method.rename f) .method (fun _ => rfl) 0 u.methods
  | method m =>
      simp only [rename, Method.rename, slots, listed_params_rename, single_block_rename,
        List.map_append]
  | param p => rfl
  | stmt s => exact stmtSlots_rename f s
  | arm c =>
      cases c
      simp only [rename, Case.rename, slots, Case.labels, Case.body, renameExprs_eq_map,
        renameStmts_eq_map, listed_exprs_rename, listed_stmts_rename, List.map_append]
  | clause c =>
      obtain ⟨s, p, b⟩ := c
      cases p <;> rfl
  | expr e => exact exprSlots_rename f e

/-! ## Places -/

theorem lookup_renameSlot (l : List (Slot × Node)) (slot : Slot) :
    (l.map (renameSlot f)).lookup slot = (l.lookup slot).map (rename f) := by
  induction l with
  | nil => rfl
  | cons x rest ih =>
      obtain ⟨s, n⟩ := x
      simp only [List.map_cons, renameSlot, List.lookup_cons]
      cases slot == s with
      | true => rfl
      | false => exact ih

theorem get?_rename (n : Node) (slot : Slot) :
    (n.rename f).get? slot = (n.get? slot).map (rename f) := by
  rw [get?, slots_rename, lookup_renameSlot]
  rfl

theorem at?_rename (n : Node) (p : Path) : (n.rename f).at? p = (n.at? p).map (rename f) := by
  induction p generalizing n with
  | nil => rfl
  | cons slot rest ih =>
      rw [at?, at?, get?_rename]
      cases n.get? slot with
      | none => rfl
      | some c => exact ih c

theorem walk_rename (n : Node) :
    (n.rename f).walk = n.walk.map fun y => (y.1, y.2.rename f) := by
  induction n using childInduction with
  | step n ih =>
      rw [walk_eq, walk_eq, slots_rename, List.map_cons, List.flatMap_map, List.map_flatMap]
      refine congrArg (_ :: ·) (congrArg List.flatten (List.map_congr_left fun x hx => ?_))
      rw [renameSlot, ih x hx]
      simp

theorem nodes_rename (n : Node) : (n.rename f).nodes = n.nodes.map (rename f) := by
  simp [nodes, walk_rename]

theorem spine_rename (n : Node) (p : Path) :
    (n.rename f).spine p = (n.spine p).map fun a => { a with node := a.node.rename f } := by
  induction p generalizing n with
  | nil => rfl
  | cons slot rest ih =>
      rw [spine, spine, get?_rename]
      cases n.get? slot with
      | none => rfl
      | some c => simp [ih c, Function.comp_def]

/-! ## Replacing -/

theorem setEntry_map {g : α -> β} {l l' : List α} {i : Nat} {a : α}
    (h : setEntry l i a = some l') : setEntry (l.map g) i (g a) = some (l'.map g) := by
  obtain ⟨hi, rfl⟩ := setEntry_eq_some.1 h
  exact setEntry_eq_some.2 ⟨by simpa using hi, by simp⟩

theorem setExprSlot_rename {e e' : Expr} {slot : Slot} {c : Node}
    (h : setExprSlot e slot c = some e') :
    setExprSlot (e.rename f) slot (c.rename f) = some (e'.rename f) := by
  unfold setExprSlot at h
  split at h
  all_goals simp only [Option.map_eq_some_iff, Option.some.injEq, reduceCtorEq] at h
  all_goals first
    | subst h
      simp [Expr.rename, Body.rename, Stmt.rename, rename, setExprSlot]
    | obtain ⟨l, hl, rfl⟩ := h
      simp [Expr.rename, rename, setExprSlot, setEntry_map hl]

theorem setStmtSlot_rename {s s' : Stmt} {slot : Slot} {c : Node}
    (h : setStmtSlot s slot c = some s') :
    setStmtSlot (s.rename f) slot (c.rename f) = some (s'.rename f) := by
  unfold setStmtSlot at h
  split at h
  all_goals simp only [Option.map_eq_some_iff, Option.some.injEq, reduceCtorEq] at h
  all_goals first
    | subst h
      simp [Stmt.rename, rename, setStmtSlot]
    | obtain ⟨l, hl, rfl⟩ := h
      simp [Stmt.rename, Block.rename, rename, setStmtSlot, setEntry_map hl]

theorem set?_rename {n n' c : Node} {slot : Slot} (h : n.set? slot c = some n') :
    (n.rename f).set? slot (c.rename f) = some (n'.rename f) := by
  unfold set? at h
  split at h
  all_goals simp only [Option.map_eq_some_iff, Option.some.injEq, reduceCtorEq] at h
  case h_1 | h_2 =>
    obtain ⟨l, hl, rfl⟩ := h
    exact Option.map_eq_some_iff.2 ⟨_, setEntry_map hl, rfl⟩
  case h_4 | h_5 =>
    obtain ⟨l, hl, rfl⟩ := h
    simp [rename, Case.rename, set?, setEntry_map hl]
  case h_8 =>
    obtain ⟨s, hs, rfl⟩ := h
    exact Option.map_eq_some_iff.2 ⟨_, setStmtSlot_rename f hs, rfl⟩
  case h_9 =>
    obtain ⟨e, he, rfl⟩ := h
    exact Option.map_eq_some_iff.2 ⟨_, setExprSlot_rename f he, rfl⟩
  all_goals
    subst h
    rfl

theorem put?_rename {n n' new : Node} {p : Path} (h : n.put? new p = some n') :
    (n.rename f).put? (new.rename f) p = some (n'.rename f) := by
  induction p generalizing n n' with
  | nil =>
      cases h
      rfl
  | cons slot rest ih =>
      obtain ⟨c, c', hc, hput, hset⟩ := put?_cons_eq_some.1 h
      refine put?_cons_eq_some.2 ⟨c.rename f, c'.rename f, ?_, ih hput, set?_rename f hset⟩
      rw [get?_rename, hc, Option.map_some]

/-! ## Variables -/

def variableName? : Node -> Option String
  | .expr (.ident _ name _) | .stmt (.var _ name _ _) | .stmt (.forEach _ name _ _ _) => some name
  | .param p => some p.name
  | _ => none

def variableNames (n : Node) : List String :=
  n.nodes.filterMap variableName?

theorem variableName?_rename (n : Node) :
    variableName? (n.rename f) = (variableName? n).map f := by
  cases n with
  | expr e => cases e <;> rfl
  | stmt s => cases s <;> rfl
  | _ => rfl

theorem variableNames_rename (n : Node) :
    (n.rename f).variableNames = n.variableNames.map f := by
  rw [variableNames, nodes_rename, List.filterMap_map, variableNames, List.map_filterMap]
  exact congrArg (n.nodes.filterMap ·) (funext fun c => variableName?_rename f c)

theorem mem_variableNames_self {n : Node} {x : String} (h : variableName? n = some x) :
    x ∈ n.variableNames := by
  rw [variableNames, nodes_eq]
  exact List.mem_filterMap.2 ⟨n, List.mem_cons_self, h⟩

theorem mem_variableNames_child {n : Node} {y : Slot × Node} (hy : y ∈ n.slots) {x : String}
    (h : x ∈ y.2.variableNames) : x ∈ n.variableNames := by
  obtain ⟨c, hc, hx⟩ := List.mem_filterMap.1 h
  rw [variableNames, nodes_eq]
  exact List.mem_filterMap.2 ⟨c, List.mem_cons_of_mem _ (List.mem_flatMap.2 ⟨y, hy, hc⟩), hx⟩

theorem mem_usedNames_of_variable {n : Node} {x : String} (h : x ∈ n.variableNames) :
    x ∈ Expansion.usedNames n := by
  obtain ⟨c, hc, hx⟩ := List.mem_filterMap.1 h
  refine List.mem_filterMap.2 ⟨c, hc, ?_⟩
  cases c with
  | expr e => cases e <;> exact hx
  | stmt s => cases s <;> first | exact hx | cases hx
  | param p => exact hx
  | unit | method | arm | clause => cases hx

/-! ## Renamings that agree -/

section Agree

variable {f} {g : String -> String}

/-- Both renamings make the same of the children in some slots. -/
def Agree (f g : String -> String) (l : List (Slot × Node)) : Prop :=
  ∀ x ∈ l, x.2.rename f = x.2.rename g

theorem agree_append {l r : List (Slot × Node)} : Agree f g (l ++ r) ↔ Agree f g l ∧ Agree f g r :=
  List.forall_mem_append

theorem agree_expr {slot : Slot} {e : Expr} :
    Agree f g (single slot (ofExpr? e)) ↔ e.rename f = e.rename g := by
  cases e <;> simp [Agree, single, ofExpr?, rename, Expr.rename]

theorem agree_stmt {slot : Slot} {s : Stmt} :
    Agree f g (single slot (ofStmt? s)) ↔ s.rename f = s.rename g := by
  cases s <;> simp [Agree, single, ofStmt?, rename, Stmt.rename]

theorem agree_block {slot : Slot} {b : Block} :
    Agree f g [(slot, ofBlock b)] ↔ b.rename f = b.rename g := by
  simp [Agree, ofBlock, rename, Stmt.rename]

theorem agree_cleanup {slot : Slot} {b : Option Block} :
    Agree f g (single slot (b.map ofBlock)) ↔ b.map (Block.rename f) = b.map (Block.rename g) := by
  cases b <;> simp [Agree, single, ofBlock, rename, Stmt.rename]

theorem agree_param {slot : Slot} {p : Option Param} :
    Agree f g (single slot (p.map .param)) ↔ p.map (Param.rename f) = p.map (Param.rename g) := by
  cases p <;> simp [Agree, single, rename]

theorem agree_body {slot : Slot} {b : Body} :
    Agree f g (bodySlot slot b) ↔ b.rename f = b.rename g := by
  cases b with
  | value e => simpa [bodySlot, Body.rename] using agree_expr
  | block b => simpa [bodySlot, Body.rename] using agree_block

theorem agree_listed {view : α -> Option Node} {r : (String -> String) -> α -> α}
    (hview : ∀ a, (∀ n, view a = some n -> n.rename f = n.rename g) ↔ r f a = r g a)
    {slot : Nat -> Slot} {k : Nat} {l : List α} :
    Agree f g (listed slot view k l) ↔ l.map (r f) = l.map (r g) := by
  induction l generalizing k with
  | nil => simp [Agree, listed]
  | cons a rest ih =>
      rw [List.map_cons, List.map_cons, List.cons.injEq, ← hview a, ← ih (k := k + 1), listed]
      cases view a <;> simp [Agree]

theorem agree_exprs {slot : Nat -> Slot} {k : Nat} {l : List Expr} :
    Agree f g (listed slot ofExpr? k l) ↔ l.map (Expr.rename f) = l.map (Expr.rename g) :=
  agree_listed fun e => by cases e <;> simp [ofExpr?, rename, Expr.rename]

theorem agree_stmts {slot : Nat -> Slot} {k : Nat} {l : List Stmt} :
    Agree f g (listed slot ofStmt? k l) ↔ l.map (Stmt.rename f) = l.map (Stmt.rename g) :=
  agree_listed fun s => by cases s <;> simp [ofStmt?, rename, Stmt.rename]

theorem agree_params {slot : Nat -> Slot} {k : Nat} {l : List Param} :
    Agree f g (listed slot (some ∘ .param) k l) ↔
      l.map (Param.rename f) = l.map (Param.rename g) :=
  agree_listed fun p => by simp [rename]

theorem agree_arms {slot : Nat -> Slot} {k : Nat} {l : List Case} :
    Agree f g (listed slot (some ∘ .arm) k l) ↔ l.map (Case.rename f) = l.map (Case.rename g) :=
  agree_listed fun c => by simp [rename]

theorem agree_clauses {slot : Nat -> Slot} {k : Nat} {l : List Catch} :
    Agree f g (listed slot (some ∘ .clause) k l) ↔
      l.map (Catch.rename f) = l.map (Catch.rename g) :=
  agree_listed fun c => by simp [rename]

theorem agree_methods {slot : Nat -> Slot} {k : Nat} {l : List Method} :
    Agree f g (listed slot (some ∘ .method) k l) ↔
      l.map (Method.rename f) = l.map (Method.rename g) :=
  agree_listed fun m => by simp [rename]

/-- A renamed node is told by the new name of its variable and by its renamed children. -/
theorem rename_congr_slots {n : Node} (hself : ∀ x, variableName? n = some x -> f x = g x)
    (h : Agree f g n.slots) : n.rename f = n.rename g := by
  cases n with
  | unit u =>
      rw [slots, agree_methods] at h
      simp only [rename, CompilationUnit.rename, h]
  | method m =>
      rw [slots, agree_append, agree_params, agree_cleanup] at h
      simp only [rename, Method.rename, h]
  | param p => simp only [rename, Param.rename, hself p.name rfl]
  | stmt s =>
      cases s with
      | block b =>
          cases b
          simp only [slots, stmtSlots, Block.stmts, agree_stmts] at h
          simp only [rename, Stmt.rename, Block.rename, renameStmts_eq_map, h]
      | var s name type value =>
          simp only [slots, stmtSlots, agree_expr] at h
          simp only [rename, Stmt.rename, hself name rfl, h]
      | forEach s name type iterable body =>
          simp only [slots, stmtSlots, agree_append, agree_expr, agree_stmt] at h
          simp only [rename, Stmt.rename, hself name rfl, h]
      | _ =>
          simp only [slots, stmtSlots, agree_append, agree_expr, agree_stmt, agree_block,
            agree_cleanup, agree_exprs, agree_stmts, agree_arms, agree_clauses] at h
          simp only [rename, Stmt.rename, renameExprs_eq_map, renameStmts_eq_map,
            renameCases_eq_map, renameCatches_eq_map, renameCleanup_eq_map, h]
  | arm c =>
      cases c
      simp only [slots, Case.labels, Case.body, agree_append, agree_exprs, agree_stmts] at h
      simp only [rename, Case.rename, renameExprs_eq_map, renameStmts_eq_map, h]
  | clause c =>
      cases c
      simp only [slots, Catch.param, Catch.body, agree_append, agree_param, agree_block] at h
      simp only [rename, Catch.rename, h]
  | expr e =>
      cases e with
      | ident s name type => simp only [rename, Expr.rename, hself name rfl]
      | _ =>
          simp only [slots, exprSlots, agree_append, agree_expr, agree_body, agree_exprs,
            agree_params, agree_arms] at h
          simp only [rename, Expr.rename, renameExprs_eq_map, renameCases_eq_map, h]

/-- A tree is renamed alike by renamings that agree on its variables. -/
theorem rename_congr {n : Node} (h : ∀ x ∈ n.variableNames, f x = g x) :
    n.rename f = n.rename g := by
  induction n using childInduction with
  | step n ih =>
      exact rename_congr_slots (fun x hx => h x (mem_variableNames_self hx)) fun y hy =>
        ih y hy fun x hx => h x (mem_variableNames_child hy hx)

end Agree

end Node

end Rename

/-! ## Renaming nothing -/

mutual

theorem Expr.rename_id : (e : Expr) -> e.rename id = e
  | .missing | .ident .. | .literal .. => rfl
  | .call _ receiver _ args _ => by
      simp only [Expr.rename, receiver.rename_id, renameExprs_id args]
  | .field _ target _ _ => by simp only [Expr.rename, target.rename_id]
  | .assign _ target _ value => by simp only [Expr.rename, target.rename_id, value.rename_id]
  | .binary _ left _ right => by simp only [Expr.rename, left.rename_id, right.rename_id]
  | .unary _ _ operand _ => by simp only [Expr.rename, operand.rename_id]
  | .conditional _ test onTrue onFalse _ => by
      simp only [Expr.rename, test.rename_id, onTrue.rename_id, onFalse.rename_id]
  | .index _ array position _ => by simp only [Expr.rename, array.rename_id, position.rename_id]
  | .newArray _ _ dims elements _ => by
      simp only [Expr.rename, renameExprs_id dims, renameExprs_id elements]
  | .newObject _ _ args => by simp only [Expr.rename, renameExprs_id args]
  | .lambda _ params body => by
      simp only [Expr.rename, List.map_id'' Param.rename_id params, body.rename_id]
  | .switch _ selector cases _ => by
      simp only [Expr.rename, selector.rename_id, renameCases_id cases]
  | .template _ _ _ values => by simp only [Expr.rename, renameExprs_id values]

theorem Body.rename_id : (b : Body) -> b.rename id = b
  | .value e => by simp only [Body.rename, e.rename_id]
  | .block b => by simp only [Body.rename, b.rename_id]

theorem Block.rename_id : (b : Block) -> b.rename id = b
  | .mk _ ss => by simp only [Block.rename, renameStmts_id ss]

theorem Stmt.rename_id : (s : Stmt) -> s.rename id = s
  | .missing | .breakTo .. | .continueTo .. => rfl
  | .block b => by simp only [Stmt.rename, b.rename_id]
  | .expr _ e | .var _ _ _ e | .ret _ e | .throw _ e | .yield _ e _ => by
      simp only [Stmt.rename, e.rename_id, id]
  | .branch _ test onTrue onFalse => by
      simp only [Stmt.rename, test.rename_id, onTrue.rename_id, onFalse.rename_id]
  | .forLoop _ init test update body => by
      simp only [Stmt.rename, renameStmts_id init, test.rename_id, renameExprs_id update,
        body.rename_id]
  | .forEach _ _ _ iterable body => by
      simp only [Stmt.rename, iterable.rename_id, body.rename_id, id]
  | .whileLoop _ test body | .doWhile _ body test => by
      simp only [Stmt.rename, test.rename_id, body.rename_id]
  | .switch _ selector cases => by
      simp only [Stmt.rename, selector.rename_id, renameCases_id cases]
  | .tryCatch _ resources body catches cleanup => by
      simp only [Stmt.rename, renameStmts_id resources, body.rename_id, renameCatches_id catches,
        renameCleanup_id cleanup]
  | .sync _ monitor body => by simp only [Stmt.rename, monitor.rename_id, body.rename_id]
  | .labeled _ _ body => by simp only [Stmt.rename, body.rename_id]
  | .assert _ test message => by simp only [Stmt.rename, test.rename_id, message.rename_id]

theorem Case.rename_id : (c : Case) -> c.rename id = c
  | .mk _ labels _ body => by simp only [Case.rename, renameExprs_id labels, renameStmts_id body]

theorem Catch.rename_id : (c : Catch) -> c.rename id = c
  | .mk _ param body => by
      have hparam : param.map (Param.rename id) = param := by cases param <;> rfl
      simp only [Catch.rename, hparam, body.rename_id]

theorem renameExprs_id : (l : List Expr) -> renameExprs id l = l
  | [] => rfl
  | e :: rest => by simp only [renameExprs, e.rename_id, renameExprs_id rest]

theorem renameStmts_id : (l : List Stmt) -> renameStmts id l = l
  | [] => rfl
  | s :: rest => by simp only [renameStmts, s.rename_id, renameStmts_id rest]

theorem renameCases_id : (l : List Case) -> renameCases id l = l
  | [] => rfl
  | c :: rest => by simp only [renameCases, c.rename_id, renameCases_id rest]

theorem renameCatches_id : (l : List Catch) -> renameCatches id l = l
  | [] => rfl
  | c :: rest => by simp only [renameCatches, c.rename_id, renameCatches_id rest]

theorem renameCleanup_id : (b : Option Block) -> renameCleanup id b = b
  | none => rfl
  | some b => by simp only [renameCleanup, b.rename_id]

end

theorem Method.rename_id (m : Method) : m.rename id = m := by
  have hbody : m.body.map (Block.rename id) = m.body := by
    cases m.body with
    | none => rfl
    | some b => rw [Option.map_some, b.rename_id]
  simp only [Method.rename, List.map_id'' Param.rename_id, hbody]

theorem CompilationUnit.rename_id (u : CompilationUnit) : u.rename id = u := by
  simp only [CompilationUnit.rename, List.map_id'' Method.rename_id]

theorem Node.rename_id (n : Node) : n.rename id = n := by
  cases n with
  | unit u => exact congrArg Node.unit u.rename_id
  | method m => exact congrArg Node.method m.rename_id
  | param p => rfl
  | stmt s => exact congrArg Node.stmt s.rename_id
  | arm c => exact congrArg Node.arm c.rename_id
  | clause c => exact congrArg Node.clause c.rename_id
  | expr e => exact congrArg Node.expr e.rename_id

end EarlyExit
