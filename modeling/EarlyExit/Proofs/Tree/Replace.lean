import Mathlib.Tactic.Simproc.ExistsAndEq
import EarlyExit.Syntax.Edit
import EarlyExit.Syntax.Index
import EarlyExit.Syntax.Spine

/-!
# Replacing one child

`Node.set?` changes the child in one slot and leaves every other slot as it was.
All facts about changed trees rest on this: what a place holds, which nodes stand
above it and what the tree looks like elsewhere are read off the list of slots.
-/

namespace EarlyExit

theorem Expr.eq_missing {e : Expr} (h : e.isMissing = true) : e = .missing := by
  cases e <;> first | rfl | cases h

theorem Stmt.eq_missing {s : Stmt} (h : s.isMissing = true) : s = .missing := by
  cases s <;> first | rfl | cases h

namespace Node

/-! ## Filled slots -/

/-- Nodes that fill the slot they are put into. -/
def isFilled : Node -> Bool
  | .expr e => !e.isMissing
  | .stmt s => !s.isMissing
  | _ => true

theorem ofExpr?_eq_some {e : Expr} {n : Node} :
    ofExpr? e = some n ↔ n = .expr e ∧ e.isMissing = false := by
  cases e <;> simp [ofExpr?, Expr.isMissing, eq_comm]

theorem ofStmt?_eq_some {s : Stmt} {n : Node} :
    ofStmt? s = some n ↔ n = .stmt s ∧ s.isMissing = false := by
  cases s <;> simp [ofStmt?, Stmt.isMissing, eq_comm]

theorem ofExpr?_of_filled {e : Expr} (h : e.isMissing = false) : ofExpr? e = some (.expr e) :=
  ofExpr?_eq_some.2 ⟨rfl, h⟩

theorem ofStmt?_of_filled {s : Stmt} (h : s.isMissing = false) : ofStmt? s = some (.stmt s) :=
  ofStmt?_eq_some.2 ⟨rfl, h⟩

theorem mem_single {slot : Slot} {child : Option Node} {x : Slot × Node} :
    x ∈ single slot child ↔ x.1 = slot ∧ child = some x.2 := by
  obtain ⟨s, c⟩ := x
  cases child <;> simp [single, eq_comm]

theorem mem_listed {slot : Nat -> Slot} {view : α -> Option Node} {k : Nat} {l : List α}
    {x : Slot × Node} :
    x ∈ listed slot view k l ↔ ∃ i a, l[i]? = some a ∧ x.1 = slot (k + i) ∧ view a = some x.2 := by
  obtain ⟨s, c⟩ := x
  induction l generalizing k with
  | nil => simp [listed]
  | cons a rest ih =>
      have hrest : (s, c) ∈ listed slot view (k + 1) rest ↔
          ∃ i b, (a :: rest)[i + 1]? = some b ∧ s = slot (k + (i + 1)) ∧ view b = some c := by
        simp [ih, Nat.add_assoc, Nat.add_comm 1]
      have hsplit : (∃ i b, (a :: rest)[i]? = some b ∧ s = slot (k + i) ∧ view b = some c) ↔
          (s = slot k ∧ view a = some c) ∨
            ∃ i b, (a :: rest)[i + 1]? = some b ∧ s = slot (k + (i + 1)) ∧ view b = some c := by
        constructor
        · rintro ⟨i, b, hb, hs, hv⟩
          cases i with
          | zero =>
              simp only [List.getElem?_cons_zero, Option.some.injEq] at hb
              subst hb
              exact .inl ⟨hs, hv⟩
          | succ i => exact .inr ⟨i, b, hb, hs, hv⟩
        · rintro (⟨hs, hv⟩ | ⟨i, b, hb, hs, hv⟩)
          · exact ⟨0, a, rfl, hs, hv⟩
          · exact ⟨i + 1, b, hb, hs, hv⟩
      rw [hsplit, ← hrest]
      cases hv : view a with
      | none => simp [listed, hv]
      | some n => simp [listed, hv, eq_comm]

/-! ## Every slot occurs once -/

theorem single_nodup (slot : Slot) (child : Option Node) :
    ((single slot child).map (·.1)).Nodup := by
  cases child <;> simp [single]

theorem listed_nodup {slot : Nat -> Slot} (hslot : ∀ i j, slot i = slot j -> i = j)
    (view : α -> Option Node) (k : Nat) (l : List α) :
    ((listed slot view k l).map (·.1)).Nodup := by
  induction l generalizing k with
  | nil => simp [listed]
  | cons a rest ih =>
      simp only [listed]
      split
      next n hn =>
        refine List.nodup_cons.2 ⟨?_, ih (k + 1)⟩
        intro hmem
        obtain ⟨x, hx, heq⟩ := List.mem_map.1 hmem
        obtain ⟨i, _, _, hs, _⟩ := mem_listed.1 hx
        have := hslot _ _ (heq.symm.trans hs)
        omega
      next => exact ih (k + 1)

/-- Two slot lists whose slots differ. -/
theorem nodup_append {l r : List (Slot × Node)} (hl : (l.map (·.1)).Nodup)
    (hr : (r.map (·.1)).Nodup) (h : ∀ x ∈ l, ∀ y ∈ r, x.1 ≠ y.1) :
    ((l ++ r).map (·.1)).Nodup := by
  rw [List.map_append]
  refine List.nodup_append.2 ⟨hl, hr, ?_⟩
  intro s hs t ht
  obtain ⟨x, hx, rfl⟩ := List.mem_map.1 hs
  obtain ⟨y, hy, rfl⟩ := List.mem_map.1 ht
  exact h x hx y hy

theorem exprSlots_nodup (e : Expr) : ((exprSlots e).map (·.1)).Nodup := by
  cases e with
  | lambda s ps body =>
      refine nodup_append (listed_nodup (by simp) _ _ _) ?_ ?_
      · cases body <;> simp [bodySlot, single_nodup]
      · intro x hx y hy
        obtain ⟨i, _, _, hs, _⟩ := mem_listed.1 hx
        cases body <;> simp_all [bodySlot, mem_single]
  | _ =>
      simp only [exprSlots]
      repeat' apply nodup_append
      all_goals first
        | exact single_nodup _ _
        | exact listed_nodup (by simp) _ _ _
        | exact List.nodup_nil
        | simp only [List.mem_append, mem_single, mem_listed]; grind

theorem stmtSlots_nodup (s : Stmt) : ((stmtSlots s).map (·.1)).Nodup := by
  cases s <;> simp only [stmtSlots] <;> repeat' apply nodup_append
  all_goals first
    | exact single_nodup _ _
    | exact listed_nodup (by simp) _ _ _
    | exact List.nodup_nil
    | exact single_nodup _ (some _)
    | simp only [List.mem_append, List.mem_singleton, mem_single, mem_listed]; grind

theorem slots_nodup (n : Node) : (n.slots.map (·.1)).Nodup := by
  cases n with
  | unit u => exact listed_nodup (by simp) _ _ _
  | method m =>
      refine nodup_append (listed_nodup (by simp) _ _ _) (single_nodup _ _) ?_
      simp only [mem_single, mem_listed]
      grind
  | param p => exact List.nodup_nil
  | stmt s => exact stmtSlots_nodup s
  | arm c =>
      refine nodup_append (listed_nodup (by simp) _ _ _) (listed_nodup (by simp) _ _ _) ?_
      simp only [mem_listed]
      grind
  | clause c =>
      refine nodup_append (single_nodup _ _) (single_nodup _ (some _)) ?_
      simp only [List.mem_singleton, mem_single]
      grind
  | expr e => exact exprSlots_nodup e

theorem lookup_eq_some [BEq α] [LawfulBEq α] {l : List (α × β)} (hl : (l.map (·.1)).Nodup) {a : α}
    {b : β} : l.lookup a = some b ↔ (a, b) ∈ l := by
  induction l with
  | nil => simp
  | cons x rest ih =>
      obtain ⟨k, d⟩ := x
      simp only [List.map_cons, List.nodup_cons] at hl
      by_cases hk : a = k
      · subst hk
        have hnot : (a, b) ∉ rest := fun h => hl.1 (List.mem_map.2 ⟨_, h, rfl⟩)
        simp [hnot, eq_comm]
      · have hne : (a == k) = false := by simpa using hk
        simp [List.lookup_cons, hne, ih hl.2, hk]

/-- The child in a slot is the one that the list of slots gives there. -/
theorem get?_eq_some {n c : Node} {slot : Slot} :
    n.get? slot = some c ↔ (slot, c) ∈ n.slots :=
  lookup_eq_some (slots_nodup n)

/-! ## The slots of a changed node -/

/-- An entry of a slot list, with another child if it is the entry of a given slot. -/
def exchange (slot : Slot) (new : Node) (x : Slot × Node) : Slot × Node :=
  if x.1 = slot then (slot, new) else x

theorem map_exchange_of_ne {slot : Slot} {new : Node} {l : List (Slot × Node)}
    (h : ∀ x ∈ l, x.1 ≠ slot) : l.map (exchange slot new) = l := by
  refine (List.map_congr_left fun x hx => ?_).trans (List.map_id l)
  simp [exchange, h x hx]

theorem single_exchange {slot : Slot} {old new : Node} :
    (single slot (some old)).map (exchange slot new) = single slot (some new) := by
  simp [single, exchange]

theorem single_exchange_of_ne {slot s : Slot} {new : Node} {child : Option Node} (h : s ≠ slot) :
    (single s child).map (exchange slot new) = single s child :=
  map_exchange_of_ne fun x hx => by simp [(mem_single.1 hx).1, h]

theorem listed_exchange_of_ne {slot : Slot} {s : Nat -> Slot} {new : Node}
    {view : α -> Option Node} {k : Nat} {l : List α} (h : ∀ i, s i ≠ slot) :
    (listed s view k l).map (exchange slot new) = listed s view k l := by
  refine map_exchange_of_ne fun x hx => ?_
  obtain ⟨i, _, _, hs, _⟩ := mem_listed.1 hx
  rw [hs]
  exact h _

theorem listed_set {s : Nat -> Slot} (hs : ∀ i j, s i = s j -> i = j) {view : α -> Option Node}
    {new : Node} {k i : Nat} {l : List α} {a b : α} {old : Node} (ha : l[i]? = some a)
    (hold : view a = some old) (hnew : view b = some new) :
    listed s view k (l.set i b) = (listed s view k l).map (exchange (s (k + i)) new) := by
  induction l generalizing k i with
  | nil => simp at ha
  | cons c rest ih =>
      cases i with
      | zero =>
          simp only [List.getElem?_cons_zero, Option.some.injEq] at ha
          subst ha
          have hrest : (listed s view (k + 1) rest).map (exchange (s k) new) =
              listed s view (k + 1) rest := by
            refine map_exchange_of_ne fun x hx heq => ?_
            obtain ⟨j, _, _, hj, _⟩ := mem_listed.1 hx
            have := hs _ _ (heq.symm.trans hj)
            omega
          simp [listed, hold, hnew, hrest, exchange]
      | succ i =>
          have hi := ih (k := k + 1) (by simpa using ha)
          rw [show k + 1 + i = k + (i + 1) by omega] at hi
          have hne : s k ≠ s (k + (i + 1)) := fun h => by
            have := hs _ _ h
            omega
          simp only [List.set_cons_succ, listed]
          split <;> simp [hi, exchange, hne]

theorem setEntry_eq_some {l l' : List α} {i : Nat} {a : α} :
    setEntry l i a = some l' ↔ i < l.length ∧ l' = l.set i a := by
  unfold setEntry
  split
  next h => simp [h, eq_comm]
  next h => simp [h]

theorem filled_expr {e : Expr} (h : (Node.expr e).isFilled = true) :
    ofExpr? e = some (.expr e) :=
  ofExpr?_of_filled (by simpa [isFilled] using h)

theorem filled_stmt {s : Stmt} (h : (Node.stmt s).isFilled = true) :
    ofStmt? s = some (.stmt s) :=
  ofStmt?_of_filled (by simpa [isFilled] using h)

theorem listed_set_zero {s : Nat -> Slot} {view : α -> Option Node} {new old : Node} {i : Nat}
    {l : List α} {a b : α} (ha : l[i]? = some a) (hold : view a = some old)
    (hnew : view b = some new) (hs : ∀ i j, s i = s j -> i = j) :
    listed s view 0 (l.set i b) = (listed s view 0 l).map (exchange (s i) new) := by
  simpa using listed_set hs (k := 0) ha hold hnew

def ofBody? : Body -> Option Node
  | .value e => ofExpr? e
  | .block b => some (ofBlock b)

theorem ofBody?_value (e : Expr) : ofBody? (.value e) = ofExpr? e := rfl

theorem ofBody?_block (b : Block) : ofBody? (.block b) = some (ofBlock b) := rfl

theorem bodySlot_eq (slot : Slot) (body : Body) :
    bodySlot slot body = single slot (ofBody? body) := by
  cases body <;> rfl

theorem exprSlots_set {e e' : Expr} {slot : Slot} {old new : Node}
    (hold : (slot, old) ∈ exprSlots e) (hnew : new.isFilled = true)
    (hset : setExprSlot e slot new = some e') :
    exprSlots e' = (exprSlots e).map (exchange slot new) := by
  unfold setExprSlot at hset
  split at hset
  all_goals simp only [Option.map_eq_some_iff, setEntry_eq_some, Option.some.injEq,
    reduceCtorEq] at hset
  all_goals first
    | subst hset
      simp [exprSlots, bodySlot_eq, mem_single, mem_listed] at hold
      simp [exprSlots, bodySlot_eq, ofBody?_value, ofBody?_block, ofBlock, hold, filled_expr, hnew,
        single_exchange, single_exchange_of_ne, listed_exchange_of_ne]
    | obtain ⟨_, ⟨hi, rfl⟩, rfl⟩ := hset
      simp [exprSlots, bodySlot_eq, mem_single, mem_listed] at hold
      obtain ⟨a, ha, hv⟩ := hold
      simp only [exprSlots, bodySlot_eq, List.map_append]
      rewrite [listed_set_zero ha (by first | exact hv | exact congrArg some hv)
        (by first | exact filled_expr hnew | rfl) (by simp)]
      simp [single_exchange_of_ne, listed_exchange_of_ne]

theorem stmtSlots_set {s s' : Stmt} {slot : Slot} {old new : Node}
    (hold : (slot, old) ∈ stmtSlots s) (hnew : new.isFilled = true)
    (hset : setStmtSlot s slot new = some s') :
    stmtSlots s' = (stmtSlots s).map (exchange slot new) := by
  unfold setStmtSlot at hset
  split at hset
  all_goals simp only [Option.map_eq_some_iff, setEntry_eq_some, Option.some.injEq,
    reduceCtorEq] at hset
  all_goals first
    | subst hset
      simp [stmtSlots, Option.map_eq_some_iff, mem_single, mem_listed] at hold
      simp [stmtSlots, ofBlock, hold, filled_expr, filled_stmt, hnew, single_exchange,
        single_exchange_of_ne, listed_exchange_of_ne, exchange]
      done
    | obtain ⟨_, ⟨hi, rfl⟩, rfl⟩ := hset
      simp [stmtSlots, Option.map_eq_some_iff, Block.stmts, mem_single, mem_listed] at hold
      obtain ⟨a, ha, hv⟩ := hold
      simp only [stmtSlots, Block.stmts, List.map_append]
      rewrite [listed_set_zero ha (by first | exact hv | exact congrArg some hv)
        (by first | exact filled_expr hnew | exact filled_stmt hnew | rfl) (by simp)]
      simp [single_exchange_of_ne, listed_exchange_of_ne, exchange]
    | -- the cleanup block is the only optional one
      subst hset
      obtain ⟨_, rfl, _⟩ : ∃ b, _ = some b ∧ ofBlock b = old := by
        simpa [stmtSlots, mem_single, mem_listed] using hold
      simp [stmtSlots, ofBlock, single_exchange, listed_exchange_of_ne, exchange]

/-- A changed node has the same slots with the same children, but for the one that was changed. -/
theorem slots_set {n n' : Node} {slot : Slot} {old new : Node} (hold : n.get? slot = some old)
    (hnew : new.isFilled = true) (hset : n.set? slot new = some n') :
    n'.slots = n.slots.map (exchange slot new) := by
  rw [get?_eq_some] at hold
  unfold set? at hset
  split at hset
  all_goals simp only [Option.map_eq_some_iff, setEntry_eq_some, Option.some.injEq,
    reduceCtorEq] at hset
  all_goals first
    | obtain ⟨s', hs', rfl⟩ := hset
      first | exact stmtSlots_set hold hnew hs' | exact exprSlots_set hold hnew hs'
    | obtain ⟨_, ⟨hi, rfl⟩, rfl⟩ := hset
      simp [slots, Case.labels, Case.body, mem_single, mem_listed] at hold
      obtain ⟨a, ha, hv⟩ := hold
      simp only [slots, Case.labels, Case.body, List.map_append]
      rewrite [listed_set_zero ha (by first | exact hv | exact congrArg some hv)
        (by first | exact filled_expr hnew | exact filled_stmt hnew | rfl) (by simp)]
      simp [single_exchange_of_ne, listed_exchange_of_ne]
    | -- the body of a clause is always there
      subst hset
      simp [slots, Catch.param, Catch.body, ofBlock, single_exchange_of_ne, exchange]
      done
    | -- the body of a method and the parameter of a clause are optional
      subst hset
      obtain ⟨_, hfilled, _⟩ := by simpa [slots, Catch.param, mem_single, mem_listed] using hold
      simp [slots, Catch.param, Catch.body, hfilled, ofBlock, single_exchange,
        listed_exchange_of_ne, exchange]

theorem slots_ne {n c : Node} {slot : Slot} {l r : List (Slot × Node)}
    (h : n.slots = l ++ (slot, c) :: r) : ∀ x ∈ l ++ r, x.1 ≠ slot := by
  intro x hx heq
  have hnodup := slots_nodup n
  rw [h] at hnodup
  simp only [List.map_append, List.map_cons, List.nodup_append, List.nodup_cons] at hnodup
  obtain ⟨_, ⟨hr, _⟩, hl⟩ := hnodup
  rcases List.mem_append.1 hx with hx | hx
  · exact hl x.1 (List.mem_map.2 ⟨x, hx, rfl⟩) slot (by simp) heq
  · exact hr (List.mem_map.2 ⟨x, hx, heq⟩)

/-- The slots on both sides of a child. -/
theorem slots_split {n old : Node} {slot : Slot} (h : n.get? slot = some old) :
    ∃ l r, n.slots = l ++ (slot, old) :: r ∧ ∀ x ∈ l ++ r, x.1 ≠ slot := by
  obtain ⟨l, r, hlr⟩ := List.append_of_mem (get?_eq_some.1 h)
  exact ⟨l, r, hlr, slots_ne hlr⟩

/-- Changing a child keeps the slots on both sides of it. -/
theorem slots_set_split {n n' old new : Node} {slot : Slot} (hold : n.get? slot = some old)
    (hnew : new.isFilled = true) (hset : n.set? slot new = some n') :
    ∃ l r, n.slots = l ++ (slot, old) :: r ∧ n'.slots = l ++ (slot, new) :: r ∧
      ∀ x ∈ l ++ r, x.1 ≠ slot := by
  obtain ⟨l, r, hlr, hne⟩ := slots_split hold
  refine ⟨l, r, hlr, ?_, hne⟩
  rw [slots_set hold hnew hset, hlr]
  simp only [List.map_append, List.map_cons]
  rw [map_exchange_of_ne fun x hx => hne x (List.mem_append_left r hx),
    map_exchange_of_ne fun x hx => hne x (List.mem_append_right l hx)]
  simp [exchange]

/-! ## Paths -/

theorem at?_append (n : Node) (p q : Path) :
    n.at? (p ++ q) = (n.at? p).bind fun c => c.at? q := by
  induction p generalizing n with
  | nil => rfl
  | cons slot rest ih =>
      simp only [List.cons_append, at?, Option.bind_assoc]
      exact congrArg _ (funext fun c => ih c)

theorem at?_cons_eq_some {n d : Node} {slot : Slot} {rest : Path} :
    n.at? (slot :: rest) = some d ↔ ∃ c, n.get? slot = some c ∧ c.at? rest = some d :=
  Option.bind_eq_some_iff

theorem at?_concat_eq_some {n d : Node} {p : Path} {slot : Slot} :
    n.at? (p ++ [slot]) = some d ↔ ∃ c, n.at? p = some c ∧ c.get? slot = some d := by
  rw [at?_append, Option.bind_eq_some_iff]
  simp [at?]

theorem put?_cons_eq_some {n n' new : Node} {slot : Slot} {rest : Path} :
    n.put? new (slot :: rest) = some n' ↔
      ∃ c c', n.get? slot = some c ∧ c.put? new rest = some c' ∧ n.set? slot c' = some n' := by
  simp [put?, Option.bind_eq_some_iff]

theorem isMissing_setExprSlot {e e' : Expr} {slot : Slot} {new : Node}
    (h : setExprSlot e slot new = some e') : e'.isMissing = false := by
  unfold setExprSlot at h
  split at h
  all_goals simp only [Option.map_eq_some_iff, Option.some.injEq, reduceCtorEq] at h
  all_goals first
    | subst h; rfl
    | obtain ⟨_, _, rfl⟩ := h; rfl

theorem isMissing_setStmtSlot {s s' : Stmt} {slot : Slot} {new : Node}
    (h : setStmtSlot s slot new = some s') : s'.isMissing = false := by
  unfold setStmtSlot at h
  split at h
  all_goals simp only [Option.map_eq_some_iff, Option.some.injEq, reduceCtorEq] at h
  all_goals first
    | subst h; rfl
    | obtain ⟨_, _, rfl⟩ := h; rfl

theorem isFilled_set {n n' new : Node} {slot : Slot} (h : n.set? slot new = some n') :
    n'.isFilled = true := by
  unfold set? at h
  split at h
  all_goals simp only [Option.map_eq_some_iff, Option.some.injEq, reduceCtorEq] at h
  all_goals first
    | subst h; rfl
    | obtain ⟨s', hs', rfl⟩ := h
      first
        | rfl
        | simp [isFilled, isMissing_setStmtSlot hs']
        | simp [isFilled, isMissing_setExprSlot hs']

theorem isFilled_put {n n' new : Node} {p : Path} (hnew : new.isFilled = true)
    (h : n.put? new p = some n') : n'.isFilled = true := by
  cases p with
  | nil =>
      cases h
      exact hnew
  | cons slot rest =>
      obtain ⟨_, _, _, _, hset⟩ := put?_cons_eq_some.1 h
      exact isFilled_set hset

/-- The nodes of a tree are those at the ends of its paths. -/
theorem mem_walk {n d : Node} {p : Path} : (p, d) ∈ n.walk ↔ n.at? p = some d := by
  induction p generalizing n with
  | nil =>
      rw [walk_eq]
      simp [at?, eq_comm]
  | cons slot rest ih =>
      rw [walk_eq, at?_cons_eq_some]
      simp only [List.mem_cons, List.mem_flatMap, List.mem_map, Prod.mk.injEq, reduceCtorEq,
        false_and, false_or, Prod.exists, List.cons.injEq, get?_eq_some]
      constructor
      · rintro ⟨s, c, hc, q, d', hq, ⟨rfl, rfl⟩, rfl⟩
        exact ⟨c, hc, ih.1 hq⟩
      · rintro ⟨c, hc, hd⟩
        exact ⟨slot, c, hc, rest, d, ih.2 hd, ⟨rfl, rfl⟩, rfl⟩

theorem nodes_eq (n : Node) : n.nodes = n :: n.slots.flatMap fun x => x.2.nodes := by
  rw [nodes, walk_eq]
  simp [nodes, List.map_flatMap, Function.comp_def]

end Node

end EarlyExit
