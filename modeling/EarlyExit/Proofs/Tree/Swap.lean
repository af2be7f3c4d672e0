import EarlyExit.Proofs.Tree.Spine

/-!
# One node in the place of another

A change of a tree puts a node into the place of another one, and every node above
differs in one child.  `Swap` is that relation without the path, so that what a change
does to a whole tree is shown by induction on the nodes above it.  What is collected
from all nodes of a tree changes in one stretch, and what holds everywhere in it has to
be shown again for the new node and the nodes above.
-/

namespace EarlyExit

namespace Node

/-! ## Nodes without their children -/

/-- The expression with nothing in its slots. -/
def bareExpr : Expr -> Expr
  | .call s _ n as t => .call s .missing n (as.map fun _ => .missing) t
  | .field s _ n t => .field s .missing n t
  | .assign s _ op _ => .assign s .missing op .missing
  | .binary s _ op _ => .binary s .missing op .missing
  | .unary s op _ p => .unary s op .missing p
  | .conditional s _ _ _ t => .conditional s .missing .missing .missing t
  | .index s _ _ t => .index s .missing .missing t
  | .newArray s t ds es l =>
      .newArray s t (ds.map fun _ => .missing) (es.map fun _ => .missing) l
  | .newObject s c as => .newObject s c (as.map fun _ => .missing)
  | .lambda s _ _ => .lambda s [] (.value .missing)
  | .switch s _ _ t => .switch s .missing [] t
  | .template s p fs vs => .template s p fs (vs.map fun _ => .missing)
  | e => e

def bareStmt : Stmt -> Stmt
  | .block b => .block (.mk b.span [])
  | .expr s _ => .expr s .missing
  | .var s n t _ => .var s n t .missing
  | .ret s _ => .ret s .missing
  | .throw s _ => .throw s .missing
  | .yield s _ i => .yield s .missing i
  | .branch s _ _ _ => .branch s .missing .missing .missing
  | .forLoop s _ _ _ _ => .forLoop s [] .missing [] .missing
  | .forEach s n t _ _ => .forEach s n t .missing .missing
  | .whileLoop s _ _ => .whileLoop s .missing .missing
  | .doWhile s _ _ => .doWhile s .missing .missing
  | .switch s _ _ => .switch s .missing []
  | .tryCatch s _ _ _ _ => .tryCatch s [] default [] none
  | .sync s _ _ => .sync s .missing default
  | .labeled s l _ => .labeled s l .missing
  | .assert s _ _ => .assert s .missing .missing
  | s => s

/-- The node with nothing in its slots: what a change of a child leaves as it is. -/
def bare : Node -> Node
  | .unit u => .unit { u with methods := [] }
  | .method m => .method { m with params := [], body := none }
  | .param p => .param p
  | .stmt s => .stmt (bareStmt s)
  | .arm c => .arm (.mk c.span [] c.arrow [])
  | .clause c => .clause (.mk c.span none default)
  | .expr e => .expr (bareExpr e)

theorem bareExpr_set {e e' : Expr} {slot : Slot} {new : Node}
    (h : setExprSlot e slot new = some e') : bareExpr e' = bareExpr e := by
  unfold setExprSlot at h
  split at h
  all_goals simp only [Option.map_eq_some_iff, setEntry_eq_some, Option.some.injEq,
    reduceCtorEq] at h
  all_goals first
    | subst h; rfl
    | obtain ⟨_, ⟨_, rfl⟩, rfl⟩ := h; simp [bareExpr, List.map_const', -List.map_set]

theorem bareStmt_set {s s' : Stmt} {slot : Slot} {new : Node}
    (h : setStmtSlot s slot new = some s') : bareStmt s' = bareStmt s := by
  unfold setStmtSlot at h
  split at h
  all_goals simp only [Option.map_eq_some_iff, Option.some.injEq, reduceCtorEq] at h
  all_goals first
    | subst h; rfl
    | obtain ⟨_, _, rfl⟩ := h; rfl

theorem bare_set {n n' new : Node} {slot : Slot} (h : n.set? slot new = some n') :
    n'.bare = n.bare := by
  unfold set? at h
  split at h
  all_goals simp only [Option.map_eq_some_iff, Option.some.injEq, reduceCtorEq] at h
  all_goals first
    | subst h; rfl
    | obtain ⟨_, hs, rfl⟩ := h
      first
        | rfl
        | exact congrArg Node.stmt (bareStmt_set hs)
        | exact congrArg Node.expr (bareExpr_set hs)

/-- Whatever can be read off a node without its children stays when a child is changed. -/
theorem eq_of_bare {f : Node -> α} (hf : ∀ n, f n.bare = f n) {n n' new : Node} {slot : Slot}
    (h : n.set? slot new = some n') : f n' = f n := by
  rw [← hf n', bare_set h, hf n]

/-! ## The relation -/

/--
The second tree is the first with `new` in the place of `old`.  Each node above the place
is one through which the change may go.
-/
inductive Swap (via : Node -> Prop) (old new : Node) : Node -> Node -> Prop
  | here : Swap via old new old new
  | under {n n' c c' : Node} {slot : Slot} (hvia : via n) (hget : n.get? slot = some c)
      (hset : n.set? slot c' = some n') (h : Swap via old new c c') : Swap via old new n n'

/-- Replacing a node at the end of a path is a swap. -/
theorem swap_of_put {root root' old new : Node} {p : Path} (hold : root.at? p = some old)
    (hput : root.put? new p = some root') : Swap (fun _ => True) old new root root' := by
  induction p generalizing root root' with
  | nil =>
      cases hold
      cases hput
      exact .here
  | cons slot rest ih =>
      obtain ⟨c, hc, hold⟩ := at?_cons_eq_some.1 hold
      obtain ⟨d, c', hd, hput, hset⟩ := put?_cons_eq_some.1 hput
      rw [hc] at hd
      cases hd
      exact .under trivial hc hset (ih hold hput)

namespace Swap

variable {via : Node -> Prop} {old new n n' : Node}

theorem isFilled (h : Swap via old new n n') (hnew : new.isFilled = true) :
    n'.isFilled = true := by
  cases h with
  | here => exact hnew
  | under _ _ hset _ => exact isFilled_set hset

/-- A relation between the changed nodes that carries over to the nodes above. -/
theorem carry {R : Node -> Node -> Prop} (h : Swap via old new n n') (hrel : R old new)
    (hstep : ∀ {a a' c c' : Node} {slot : Slot}, via a -> a.get? slot = some c ->
      a.set? slot c' = some a' -> c'.isFilled = true -> R c c' -> R a a')
    (hnew : new.isFilled = true) : R n n' := by
  induction h with
  | here => exact hrel
  | under hvia hget hset h ih => exact hstep hvia hget hset (h.isFilled hnew) ih

end Swap

/-! ## Collecting from all nodes -/

/-- What is found at the nodes of a tree, parents first. -/
def gather (g : Node -> List α) (n : Node) : List α :=
  n.nodes.flatMap g

theorem gather_eq (g : Node -> List α) (n : Node) :
    gather g n = g n ++ n.slots.flatMap fun x => gather g x.2 := by
  rw [gather, nodes_eq]
  simp [gather, List.flatMap_assoc]

theorem mem_gather {g : Node -> List α} {n : Node} {a : α} :
    a ∈ gather g n ↔ ∃ c ∈ n.nodes, a ∈ g c :=
  List.mem_flatMap

theorem mem_nodes {n d : Node} : d ∈ n.nodes ↔ ∃ p, n.at? p = some d := by
  simp [nodes, mem_walk]

/-- What a node gives when it is seen through a slot that may be empty. -/
theorem gather_single {g : Node -> List α} {slot : Slot} {child : Option Node} :
    ((single slot child).flatMap fun x => gather g x.2) = child.elim [] (gather g) := by
  cases child <;> simp [single]

theorem gather_listed {g : Node -> List α} {slot : Nat -> Slot} {view : β -> Option Node} {k : Nat}
    {l : List β} : ((listed slot view k l).flatMap fun x => gather g x.2) =
      l.flatMap fun b => (view b).elim [] (gather g) := by
  induction l generalizing k with
  | nil => rfl
  | cons b rest ih =>
      simp only [listed, List.flatMap_cons, ← ih (k := k + 1)]
      cases view b <;> simp

theorem gather_missing {g : Node -> List α} (hg : g (.expr .missing) = []) :
    gather g (.expr .missing) = [] := by
  rw [gather_eq, hg]
  rfl

theorem gather_ofExpr? {g : Node -> List α} (hg : g (.expr .missing) = []) (e : Expr) :
    (ofExpr? e).elim [] (gather g) = gather g (.expr e) := by
  cases e with
  | missing => exact (gather_missing hg).symm
  | _ => rfl

theorem gather_ofStmt? {g : Node -> List α} (hg : g (.stmt .missing) = []) (s : Stmt) :
    (ofStmt? s).elim [] (gather g) = gather g (.stmt s) := by
  cases s with
  | missing =>
      rw [gather_eq, hg]
      rfl
  | _ => rfl

/-- A changed child changes what is collected in one stretch. -/
theorem gather_set {g : Node -> List α} {n n' c c' : Node} {slot : Slot}
    (hget : n.get? slot = some c) (hset : n.set? slot c' = some n') (hfilled : c'.isFilled = true)
    (hg : g n' = g n) :
    ∃ l r, gather g n = l ++ gather g c ++ r ∧ gather g n' = l ++ gather g c' ++ r := by
  obtain ⟨before, after, hslots, hslots', _⟩ := slots_set_split hget hfilled hset
  refine ⟨g n ++ before.flatMap fun x => gather g x.2, after.flatMap fun x => gather g x.2, ?_, ?_⟩
  · rw [gather_eq, hslots]
    simp
  · rw [gather_eq, hslots', hg]
    simp

/-- A swap changes what is collected in one stretch, if the nodes above keep what they give. -/
theorem gather_swap {g : Node -> List α} {via : Node -> Prop} {R : Node -> Node -> Prop}
    {old new n n' : Node} (h : Swap via old new n n') (hrel : R old new)
    (hstep : ∀ {a a' c c' : Node} {slot : Slot}, via a -> a.get? slot = some c ->
      a.set? slot c' = some a' -> R c c' -> g a' = g a ∧ R a a')
    (hnew : new.isFilled = true) :
    ∃ l r, gather g n = l ++ gather g old ++ r ∧ gather g n' = l ++ gather g new ++ r := by
  refine (h.carry (R := fun c c' => R c c' ∧ ∃ l r, gather g c = l ++ gather g old ++ r ∧
    gather g c' = l ++ gather g new ++ r) ⟨hrel, [], [], by simp, by simp⟩ ?_ hnew).2
  rintro a a' c c' slot hvia hget hset hfilled ⟨hc, l, r, hl, hr⟩
  obtain ⟨hg, ha⟩ := hstep hvia hget hset hc
  obtain ⟨l', r', hl', hr'⟩ := gather_set hget hset hfilled hg
  refine ⟨ha, l' ++ l, r ++ r', ?_, ?_⟩
  · simp [hl', hl]
  · simp [hr', hr]

/-! ## What holds at all nodes -/

/-- Every node of the tree is of a kind. -/
def Everywhere (P : Node -> Prop) (n : Node) : Prop :=
  ∀ c ∈ n.nodes, P c

theorem everywhere_iff {P : Node -> Prop} {n : Node} :
    Everywhere P n ↔ P n ∧ ∀ x ∈ n.slots, Everywhere P x.2 := by
  simp only [Everywhere, nodes_eq n, List.mem_cons, List.mem_flatMap, forall_eq_or_imp]
  refine and_congr_right fun _ => ⟨fun h x hx c hc => h c ⟨x, hx, hc⟩, ?_⟩
  rintro h c ⟨x, hx, hc⟩
  exact h x hx c hc

theorem everywhere_children {P : Node -> Prop} {n : Node} :
    Everywhere P n ↔ P n ∧ ∀ c ∈ n.children, Everywhere P c := by
  rw [everywhere_iff, children, List.forall_mem_map]

namespace Everywhere

variable {P Q : Node -> Prop} {n c : Node}

theorem self (h : Everywhere P n) : P n :=
  (everywhere_iff.1 h).1

theorem child (h : Everywhere P n) {slot : Slot} (hc : n.get? slot = some c) : Everywhere P c :=
  (everywhere_iff.1 h).2 (slot, c) (get?_eq_some.1 hc)

theorem at? (h : Everywhere P n) {p : Path} (hc : n.at? p = some c) : Everywhere P c := by
  induction p generalizing n with
  | nil =>
      cases hc
      exact h
  | cons slot rest ih =>
      obtain ⟨d, hd, hc⟩ := at?_cons_eq_some.1 hc
      exact ih (h.child hd) hc

theorem imp (h : Everywhere P n) (hPQ : ∀ c, P c -> Q c) : Everywhere Q n :=
  fun c hc => hPQ c (h c hc)

/-- What follows for a node from its kind and from what holds below it. -/
theorem induct {n : Node} (h : Everywhere P n)
    (hstep : ∀ n, P n -> (∀ x ∈ n.slots, Everywhere Q x.2) -> Q n) : Everywhere Q n := by
  obtain ⟨hself, hbelow⟩ := everywhere_iff.1 h
  have hbelow' : ∀ x ∈ n.slots, Everywhere Q x.2 := fun x hx => induct (hbelow x hx) hstep
  exact everywhere_iff.2 ⟨hstep n hself hbelow', hbelow'⟩
termination_by sizeOf n
decreasing_by exact sizeOf_lt_of_mem_slots hx

end Everywhere

/-! ### By kind of node -/

/-- What holds everywhere in an expression, if there is one. -/
def InExpr (P : Node -> Prop) (e : Expr) : Prop :=
  ∀ n, ofExpr? e = some n -> Everywhere P n

def InStmt (P : Node -> Prop) (s : Stmt) : Prop :=
  ∀ n, ofStmt? s = some n -> Everywhere P n

theorem inExpr_missing (P : Node -> Prop) : InExpr P .missing := by
  intro n hn
  cases hn

theorem inStmt_missing (P : Node -> Prop) : InStmt P .missing := by
  intro n hn
  cases hn

theorem inExpr_iff {P : Node -> Prop} {e : Expr} (h : e.isMissing = false) :
    InExpr P e ↔ Everywhere P (.expr e) := by
  simp [InExpr, ofExpr?_of_filled h]

theorem inStmt_iff {P : Node -> Prop} {s : Stmt} (h : s.isMissing = false) :
    InStmt P s ↔ Everywhere P (.stmt s) := by
  simp [InStmt, ofStmt?_of_filled h]

theorem Everywhere.inExpr {P : Node -> Prop} {e : Expr} (h : Everywhere P (.expr e)) :
    InExpr P e := by
  intro n hn
  obtain ⟨rfl, _⟩ := ofExpr?_eq_some.1 hn
  exact h

theorem Everywhere.inStmt {P : Node -> Prop} {s : Stmt} (h : Everywhere P (.stmt s)) :
    InStmt P s := by
  intro n hn
  obtain ⟨rfl, _⟩ := ofStmt?_eq_some.1 hn
  exact h

theorem forall_single {P : Node -> Prop} {slot : Slot} {child : Option Node} :
    (∀ x ∈ single slot child, Everywhere P x.2) ↔ ∀ n, child = some n -> Everywhere P n := by
  cases child <;> simp [single]

theorem forall_listed {P : Node -> Prop} {slot : Nat -> Slot} {view : β -> Option Node} {k : Nat}
    {l : List β} : (∀ x ∈ listed slot view k l, Everywhere P x.2) ↔
      ∀ b ∈ l, ∀ n, view b = some n -> Everywhere P n := by
  induction l generalizing k with
  | nil => simp [listed]
  | cons b rest ih =>
      simp only [listed, List.forall_mem_cons, ← ih (k := k + 1)]
      cases view b <;> simp

section Kinds

variable {P : Node -> Prop} {s : Span}

theorem everywhere_ident {name type : String} :
    Everywhere P (.expr (.ident s name type)) ↔ P (.expr (.ident s name type)) := by
  simp [everywhere_iff (n := .expr (.ident s name type)), slots, exprSlots]

theorem everywhere_call {receiver : Expr} {name : String} {args : List Expr} {type : String} :
    Everywhere P (.expr (.call s receiver name args type)) ↔
      P (.expr (.call s receiver name args type)) ∧ InExpr P receiver ∧ ∀ a ∈ args, InExpr P a := by
  rw [everywhere_iff]
  simp only [slots, exprSlots, List.forall_mem_append, forall_single, forall_listed]
  rfl

theorem everywhere_assign {target : Expr} {op : Operator} {value : Expr} :
    Everywhere P (.expr (.assign s target op value)) ↔
      P (.expr (.assign s target op value)) ∧ InExpr P target ∧ InExpr P value := by
  rw [everywhere_iff]
  simp only [slots, exprSlots, List.forall_mem_append, forall_single]
  rfl

theorem everywhere_binary {left : Expr} {op : Operator} {right : Expr} :
    Everywhere P (.expr (.binary s left op right)) ↔
      P (.expr (.binary s left op right)) ∧ InExpr P left ∧ InExpr P right := by
  rw [everywhere_iff]
  simp only [slots, exprSlots, List.forall_mem_append, forall_single]
  rfl

theorem everywhere_unary {op : Operator} {operand : Expr} {trailing : Bool} :
    Everywhere P (.expr (.unary s op operand trailing)) ↔
      P (.expr (.unary s op operand trailing)) ∧ InExpr P operand := by
  rw [everywhere_iff]
  simp only [slots, exprSlots, forall_single]
  rfl

theorem everywhere_field {target : Expr} {name type : String} :
    Everywhere P (.expr (.field s target name type)) ↔
      P (.expr (.field s target name type)) ∧ InExpr P target := by
  rw [everywhere_iff]
  simp only [slots, exprSlots, forall_single]
  rfl

theorem everywhere_index {array position : Expr} {type : String} :
    Everywhere P (.expr (.index s array position type)) ↔
      P (.expr (.index s array position type)) ∧ InExpr P array ∧ InExpr P position := by
  rw [everywhere_iff]
  simp only [slots, exprSlots, List.forall_mem_append, forall_single]
  rfl

theorem everywhere_newArray {elemType : String} {dims elements : List Expr} {listed : Bool} :
    Everywhere P (.expr (.newArray s elemType dims elements listed)) ↔
      P (.expr (.newArray s elemType dims elements listed)) ∧ (∀ a ∈ dims, InExpr P a) ∧
        ∀ a ∈ elements, InExpr P a := by
  rw [everywhere_iff]
  simp only [slots, exprSlots, List.forall_mem_append, forall_listed]
  rfl

theorem everywhere_newObject {className : String} {args : List Expr} :
    Everywhere P (.expr (.newObject s className args)) ↔
      P (.expr (.newObject s className args)) ∧ ∀ a ∈ args, InExpr P a := by
  rw [everywhere_iff]
  simp only [slots, exprSlots, forall_listed]
  rfl

theorem everywhere_switch {selector : Expr} {cases : List Case} {type : String} :
    Everywhere P (.expr (.switch s selector cases type)) ↔
      P (.expr (.switch s selector cases type)) ∧ InExpr P selector ∧
        ∀ a ∈ cases, Everywhere P (.arm a) := by
  rw [everywhere_iff]
  simp only [slots, exprSlots, List.forall_mem_append, forall_single, forall_listed,
    Function.comp_apply, Option.some.injEq, forall_eq']
  rfl

theorem everywhere_conditional {test onTrue onFalse : Expr} {type : String} :
    Everywhere P (.expr (.conditional s test onTrue onFalse type)) ↔
      P (.expr (.conditional s test onTrue onFalse type)) ∧ InExpr P test ∧ InExpr P onTrue ∧
        InExpr P onFalse := by
  rw [everywhere_iff]
  simp only [slots, exprSlots, List.forall_mem_append, forall_single, and_assoc]
  rfl

theorem everywhere_block {ss : List Stmt} :
    Everywhere P (.stmt (.block (.mk s ss))) ↔
      P (.stmt (.block (.mk s ss))) ∧ ∀ t ∈ ss, InStmt P t := by
  rw [everywhere_iff]
  simp only [slots, stmtSlots, Block.stmts, forall_listed]
  rfl

theorem everywhere_var {name type : String} {value : Expr} :
    Everywhere P (.stmt (.var s name type value)) ↔
      P (.stmt (.var s name type value)) ∧ InExpr P value := by
  rw [everywhere_iff]
  simp only [slots, stmtSlots, forall_single]
  rfl

theorem everywhere_exprStmt {e : Expr} :
    Everywhere P (.stmt (.expr s e)) ↔ P (.stmt (.expr s e)) ∧ InExpr P e := by
  rw [everywhere_iff]
  simp only [slots, stmtSlots, forall_single]
  rfl

theorem everywhere_branch {test : Expr} {onTrue onFalse : Stmt} :
    Everywhere P (.stmt (.branch s test onTrue onFalse)) ↔
      P (.stmt (.branch s test onTrue onFalse)) ∧ InExpr P test ∧ InStmt P onTrue ∧
        InStmt P onFalse := by
  rw [everywhere_iff]
  simp only [slots, stmtSlots, List.forall_mem_append, forall_single, and_assoc]
  rfl

end Kinds

/-! ### Through a change -/

/-- Of a tree with one child changed, the node itself and the new child have to be looked at. -/
theorem everywhere_set {P : Node -> Prop} {n n' c' : Node} {slot : Slot} {c : Node}
    (h : Everywhere P n) (hget : n.get? slot = some c) (hset : n.set? slot c' = some n')
    (hfilled : c'.isFilled = true) (hself : P n') (hc' : Everywhere P c') : Everywhere P n' := by
  obtain ⟨before, after, hslots, hslots', _⟩ := slots_set_split hget hfilled hset
  have hchildren := (everywhere_iff.1 h).2
  rw [hslots] at hchildren
  refine everywhere_iff.2 ⟨hself, fun x hx => ?_⟩
  rw [hslots', List.mem_append, List.mem_cons] at hx
  rcases hx with hx | rfl | hx
  · exact hchildren x (by simp [hx])
  · exact hc'
  · exact hchildren x (by simp [hx])

/-- The part of a tree that a swap replaces. -/
theorem Everywhere.old {P : Node -> Prop} {via : Node -> Prop} {old new n n' : Node}
    (h : Everywhere P n) (hswap : Swap via old new n n') : Everywhere P old := by
  induction hswap with
  | here => exact h
  | under _ hget _ _ ih => exact ih (h.child hget)

/-- A swap keeps what holds everywhere, if the nodes above keep it. -/
theorem everywhere_swap {P : Node -> Prop} {via : Node -> Prop} {R : Node -> Node -> Prop}
    {old new n n' : Node} (h : Everywhere P n) (hswap : Swap via old new n n')
    (hnew : Everywhere P new) (hfilled : new.isFilled = true) (hrel : R old new)
    (hstep : ∀ {a a' c c' : Node} {slot : Slot}, via a -> P a -> a.get? slot = some c ->
      a.set? slot c' = some a' -> c'.isFilled = true -> R c c' -> P a' ∧ R a a') :
    Everywhere P n' ∧ R n n' := by
  induction hswap with
  | here => exact ⟨hnew, hrel⟩
  | under hvia hget hset hbelow ih =>
      obtain ⟨hc', hrel'⟩ := ih (h.child hget)
      have hfilled' := hbelow.isFilled hfilled
      obtain ⟨hself, hrel''⟩ := hstep hvia h.self hget hset hfilled' hrel'
      exact ⟨everywhere_set h hget hset hfilled' hself hc', hrel''⟩

end Node

end EarlyExit
