import EarlyExit.Proofs.Tree.Swap

/-!
# A tree changed in one place

A node gives way to any node of its sort, and then so does every node above it.  What a
changed tree holds at the place is the new node; off the way to the place it holds what
it held before, and on the way each node has one other child.
-/

namespace EarlyExit

namespace Node

/-! ## Sorts of nodes -/

/-- A node that fits wherever another one stands; what holds a block holds blocks only. -/
def Suits : Node -> Node -> Prop
  | .stmt (.block _), .stmt t => ∃ b, t = .block b
  | .unit _, .unit _ | .method _, .method _ | .param _, .param _ | .stmt _, .stmt _
  | .arm _, .arm _ | .clause _, .clause _ | .expr _, .expr _ => True
  | _, _ => False

section Sorts

variable {c : Node}

theorem suits_expr {e : Expr} (h : Suits (.expr e) c) : ∃ e', c = .expr e' := by
  cases c with
  | expr e' => exact ⟨e', rfl⟩
  | _ => exact False.elim h

theorem suits_stmt {s : Stmt} (h : Suits (.stmt s) c) : ∃ t, c = .stmt t := by
  cases c with
  | stmt t => exact ⟨t, rfl⟩
  | _ => cases s <;> exact False.elim h

theorem suits_block {b : Block} (h : Suits (ofBlock b) c) : ∃ b', c = ofBlock b' := by
  cases c with
  | stmt t =>
      obtain ⟨b', rfl⟩ := h
      exact ⟨b', rfl⟩
  | _ => exact False.elim h

theorem suits_arm {a : Case} (h : Suits (.arm a) c) : ∃ a', c = .arm a' := by
  cases c with
  | arm a' => exact ⟨a', rfl⟩
  | _ => exact False.elim h

theorem suits_param {p : Param} (h : Suits (.param p) c) : ∃ p', c = .param p' := by
  cases c with
  | param p' => exact ⟨p', rfl⟩
  | _ => exact False.elim h

theorem suits_clause {k : Catch} (h : Suits (.clause k) c) : ∃ k', c = .clause k' := by
  cases c with
  | clause k' => exact ⟨k', rfl⟩
  | _ => exact False.elim h

theorem suits_method {m : Method} (h : Suits (.method m) c) : ∃ m', c = .method m' := by
  cases c with
  | method m' => exact ⟨m', rfl⟩
  | _ => exact False.elim h

end Sorts

/-- Only of blocks is more asked than a statement. -/
theorem suits_of_bareStmt {s t : Stmt} (h : bareStmt t = bareStmt s) :
    Suits (.stmt s) (.stmt t) := by
  cases s with
  | block b =>
      cases t with
      | block b' => exact ⟨b', rfl⟩
      | _ => cases h
  | _ => exact trivial

theorem suits_of_bare {n n' : Node} (h : n'.bare = n.bare) : Suits n n' := by
  cases n <;> cases n' <;> first
    | exact trivial
    | exact suits_of_bareStmt (Node.stmt.inj h)
    | cases h

/-! ## Room for a node -/

theorem isSome_setEntry {l : List α} {i : Nat} {a : α} (h : l[i]? = some a) (b : α) :
    (setEntry l i b).isSome = true := by
  simp [setEntry, (List.getElem?_eq_some_iff.1 h).1]

theorem isSome_setBody {s : Span} {ps : List Param} {body : Body} {c c' : Node}
    (h : ofBody? body = some c) (hsuits : Suits c c') :
    (setExprSlot (.lambda s ps body) .body c').isSome = true := by
  cases body with
  | value e =>
      obtain ⟨rfl, -⟩ := ofExpr?_eq_some.1 h
      obtain ⟨e', rfl⟩ := suits_expr hsuits
      rfl
  | block b =>
      cases h
      obtain ⟨b', rfl⟩ := suits_block hsuits
      rfl

/-- An expression takes any node that suits the one it has in a slot. -/
theorem isSome_setExprSlot {e : Expr} {slot : Slot} {c c' : Node} (h : (slot, c) ∈ exprSlots e)
    (hsuits : Suits c c') : (setExprSlot e slot c').isSome = true := by
  cases e <;> simp only [exprSlots, List.mem_append, List.not_mem_nil, mem_single, mem_listed,
    bodySlot_eq, or_assoc, ofExpr?_eq_some, Function.comp_apply, Option.some.injEq] at h
  all_goals repeat' refine Or.elim h ?_ ?_ <;> clear h <;> intro h
  all_goals first
    | -- a single operand
      obtain ⟨rfl, rfl, -⟩ := h
      obtain ⟨e', rfl⟩ := suits_expr hsuits
      rfl
    | -- the body of a lambda
      obtain ⟨rfl, h⟩ := h
      exact isSome_setBody h hsuits
    | -- an operand, a parameter or an arm of a list
      obtain ⟨i, a, ha, rfl, h⟩ := h
      first
        | (obtain ⟨rfl, -⟩ := h; obtain ⟨e', rfl⟩ := suits_expr hsuits)
        | (subst h; obtain ⟨p', rfl⟩ := suits_param hsuits)
        | (subst h; obtain ⟨a', rfl⟩ := suits_arm hsuits)
      simp [setExprSlot, isSome_setEntry ha]

/-- A statement takes any node that suits the one it has in a slot. -/
theorem isSome_setStmtSlot {s : Stmt} {slot : Slot} {c c' : Node} (h : (slot, c) ∈ stmtSlots s)
    (hsuits : Suits c c') : (setStmtSlot s slot c').isSome = true := by
  cases s with
  | block b =>
      obtain ⟨span, ss⟩ := b
      obtain ⟨i, a, ha, rfl, h⟩ := mem_listed.1 h
      obtain ⟨rfl, -⟩ := ofStmt?_eq_some.1 h
      obtain ⟨t', rfl⟩ := suits_stmt hsuits
      rw [setStmtSlot, Option.isSome_map, Nat.zero_add]
      exact isSome_setEntry ha t'
  | _ =>
      simp only [stmtSlots, List.mem_append, List.not_mem_nil, mem_single, mem_listed,
        List.mem_singleton, Prod.mk.injEq, or_assoc, ofExpr?_eq_some, ofStmt?_eq_some,
        Function.comp_apply, Option.some.injEq, Option.map_eq_some_iff] at h
      repeat' refine Or.elim h ?_ ?_ <;> clear h <;> intro h
      all_goals first
        | -- a single operand or statement
          obtain ⟨rfl, rfl, -⟩ := h
          first
            | obtain ⟨e', rfl⟩ := suits_expr hsuits
            | obtain ⟨t', rfl⟩ := suits_stmt hsuits
          rfl
        | -- a block
          first
            | obtain ⟨rfl, rfl⟩ := h
            | obtain ⟨rfl, b, rfl, rfl⟩ := h
          obtain ⟨b', rfl⟩ := suits_block hsuits
          rfl
        | -- an entry of a list
          obtain ⟨i, a, ha, rfl, h⟩ := h
          first
            | (obtain ⟨rfl, -⟩ := h; obtain ⟨e', rfl⟩ := suits_expr hsuits)
            | (obtain ⟨rfl, -⟩ := h; obtain ⟨t', rfl⟩ := suits_stmt hsuits)
            | (subst h; obtain ⟨a', rfl⟩ := suits_arm hsuits)
            | (subst h; obtain ⟨k', rfl⟩ := suits_clause hsuits)
          simp [setStmtSlot, isSome_setEntry ha]

/-- A node takes any node that suits the one it has in a slot. -/
theorem exists_set {n c c' : Node} {slot : Slot} (h : n.get? slot = some c) (hsuits : Suits c c') :
    ∃ n', n.set? slot c' = some n' := by
  rw [← Option.isSome_iff_exists]
  rw [get?_eq_some] at h
  cases n with
  | unit u =>
      obtain ⟨i, a, ha, rfl, h⟩ := mem_listed.1 h
      cases h
      obtain ⟨m', rfl⟩ := suits_method hsuits
      simp [set?, isSome_setEntry ha]
  | method m =>
      rcases List.mem_append.1 h with h | h
      · obtain ⟨i, a, ha, rfl, h⟩ := mem_listed.1 h
        cases h
        obtain ⟨p', rfl⟩ := suits_param hsuits
        simp [set?, isSome_setEntry ha]
      · obtain ⟨rfl, h⟩ := mem_single.1 h
        obtain ⟨b, -, rfl⟩ := Option.map_eq_some_iff.1 h
        obtain ⟨b', rfl⟩ := suits_block hsuits
        rfl
  | param p => cases h
  | stmt s => simpa [set?] using isSome_setStmtSlot h hsuits
  | arm a =>
      obtain ⟨span, labels, arrow, body⟩ := a
      rcases List.mem_append.1 h with h | h
      · obtain ⟨i, e, he, rfl, h⟩ := mem_listed.1 h
        obtain ⟨rfl, -⟩ := ofExpr?_eq_some.1 h
        obtain ⟨e', rfl⟩ := suits_expr hsuits
        rw [set?, Option.isSome_map, Nat.zero_add]
        exact isSome_setEntry he e'
      · obtain ⟨i, t, ht, rfl, h⟩ := mem_listed.1 h
        obtain ⟨rfl, -⟩ := ofStmt?_eq_some.1 h
        obtain ⟨t', rfl⟩ := suits_stmt hsuits
        rw [set?, Option.isSome_map, Nat.zero_add]
        exact isSome_setEntry ht t'
  | clause k =>
      obtain ⟨span, param, body⟩ := k
      rcases List.mem_append.1 h with h | h
      · obtain ⟨rfl, h⟩ := mem_single.1 h
        obtain ⟨p, -, rfl⟩ := Option.map_eq_some_iff.1 h
        obtain ⟨p', rfl⟩ := suits_param hsuits
        rfl
      · obtain ⟨rfl, rfl⟩ : slot = .body ∧ c = ofBlock body := by
          simpa [Catch.body] using h
        obtain ⟨b', rfl⟩ := suits_block hsuits
        rfl
  | expr e => simpa [set?] using isSome_setExprSlot h hsuits

theorem exists_put {root old new : Node} {p : Path} (h : root.at? p = some old)
    (hsuits : Suits old new) : ∃ root', root.put? new p = some root' ∧ Suits root root' := by
  induction p generalizing root with
  | nil =>
      cases h
      exact ⟨new, rfl, hsuits⟩
  | cons slot rest ih =>
      obtain ⟨c, hc, hold⟩ := at?_cons_eq_some.1 h
      obtain ⟨c', hput, hc'⟩ := ih hold
      obtain ⟨root', hset⟩ := exists_set hc hc'
      exact ⟨root', put?_cons_eq_some.2 ⟨c, c', hc, hput, hset⟩, suits_of_bare (bare_set hset)⟩

/-! ## What a change leaves as it was -/

theorem get?_set_self {n n' c c' : Node} {slot : Slot} (h : n.get? slot = some c)
    (hfilled : c'.isFilled = true) (hset : n.set? slot c' = some n') : n'.get? slot = some c' := by
  obtain ⟨l, r, -, hslots, -⟩ := slots_set_split h hfilled hset
  exact get?_eq_some.2 (by simp [hslots])

theorem get?_set_of_ne {n n' c c' : Node} {slot s : Slot} (h : n.get? slot = some c)
    (hfilled : c'.isFilled = true) (hset : n.set? slot c' = some n') (hne : s ≠ slot) :
    n'.get? s = n.get? s := by
  obtain ⟨l, r, hold, hnew, -⟩ := slots_set_split h hfilled hset
  refine Option.ext fun d => ?_
  rw [get?_eq_some, get?_eq_some, hold, hnew]
  simp [hne]

/-- The trees differ in the node at a path alone, and in the nodes above for its sake. -/
structure ChangedAt (p : Path) (new root root' : Node) : Prop where
  here : root'.at? p = some new
  aside : ∀ q, ¬p <+: q -> ¬q <+: p -> root'.at? q = root.at? q
  above : ∀ q slot r, p = q ++ slot :: r -> ∃ n c n', root.at? q = some n ∧
    root'.at? q = some n' ∧ n.set? slot c = some n'

theorem changedAt_of_put {root root' old new : Node} {p : Path} (hold : root.at? p = some old)
    (hfilled : new.isFilled = true) (hput : root.put? new p = some root') :
    ChangedAt p new root root' := by
  induction p generalizing root root' with
  | nil =>
      cases hput
      exact ⟨rfl, fun q hq _ => absurd List.nil_prefix hq, fun q slot r h => by simp at h⟩
  | cons s rest ih =>
      obtain ⟨c, hc, hold⟩ := at?_cons_eq_some.1 hold
      obtain ⟨d, c', hd, hput, hset⟩ := put?_cons_eq_some.1 hput
      cases hc.symm.trans hd
      have hbelow := ih hold hput
      have hself := get?_set_self hc (isFilled_put hfilled hput) hset
      refine ⟨at?_cons_eq_some.2 ⟨c', hself, hbelow.here⟩, fun q hpq hqp => ?aside,
        fun q slot r h => ?above⟩
      case aside =>
        cases q with
        | nil => exact absurd List.nil_prefix hqp
        | cons t q =>
            by_cases hst : t = s
            · subst hst
              simp only [List.cons_prefix_cons, true_and] at hpq hqp
              simpa [at?, hself, hc] using hbelow.aside q hpq hqp
            · simp [at?, get?_set_of_ne hc (isFilled_put hfilled hput) hset hst]
      case above =>
        cases q with
        | nil =>
            cases h
            exact ⟨root, c', root', rfl, rfl, hset⟩
        | cons t q =>
            cases h
            obtain ⟨n, e, n', hn, hn', hset'⟩ := hbelow.above q slot r rfl
            exact ⟨n, e, n', at?_cons_eq_some.2 ⟨c, hc, hn⟩,
              at?_cons_eq_some.2 ⟨c', hself, hn'⟩, hset'⟩

end Node

end EarlyExit
