import EarlyExit.Proofs.Tree.Change

/-!
# Which nodes a slot takes

Replacing a child asks for a statement or an expression in the slot, and for a node that the
slot admits in its place.  Then the new node stands where the old one stood, and nothing else
in the tree is different.
-/

namespace EarlyExit

namespace Node

/-! ## What a slot admits -/

/-- Whether only blocks may stand in the slot: the bodies that the language wants in braces. -/
def wantsBlock : Node -> Slot -> Bool
  | .method _, .body | .clause _, .body | .stmt (.sync ..), .body | .stmt (.tryCatch ..), .body
  | .stmt (.tryCatch ..), .cleanup => true
  | _, _ => false

def isLambdaBody : Node -> Slot -> Bool
  | .expr (.lambda ..), .body => true
  | _, _ => false

def isBlock : Node -> Bool
  | .stmt (.block _) => true
  | _ => false

def isExpr : Node -> Bool
  | .expr _ => true
  | _ => false

/--
Whether a node may take the place of the statement or expression in a slot: an expression that
of an expression, a statement that of a statement, but a block where a block is wanted; the
body of a lambda may be either an expression or a block.
-/
def admits (parent : Node) (slot : Slot) (old new : Node) : Bool :=
  if isLambdaBody parent slot then isExpr new || isBlock new
  else
    match old, new with
    | .expr _, .expr _ => true
    | .stmt _, .stmt t => !wantsBlock parent slot || isBlock (.stmt t)
    | _, _ => false

section Slots

variable {old new : Node} {slot : Slot}

theorem setExprSlot_admits {e : Expr} (h : (slot, old) ∈ exprSlots e)
    (hold : old.isOperand = true) :
    (setExprSlot e slot new).isSome = admits (.expr e) slot old new := by
  cases e <;> simp only [exprSlots, List.mem_append, List.not_mem_nil, mem_single, mem_listed,
    bodySlot_eq, or_assoc, ofExpr?_eq_some, Function.comp_apply, Option.some.injEq] at h
  all_goals repeat' refine Or.elim h ?_ ?_ <;> clear h <;> intro h
  all_goals first
    | -- a single operand
      obtain ⟨rfl, rfl, -⟩ := h
      cases new <;> rfl
    | -- the body of a lambda
      obtain ⟨rfl, -⟩ := h
      cases new with
      | stmt t => cases t <;> rfl
      | _ => rfl
    | -- a parameter or an arm is not replaced
      obtain ⟨i, a, -, -, rfl⟩ := h
      cases hold
    | -- an operand of a list
      obtain ⟨i, a, ha, rfl, rfl, -⟩ := h
      cases new <;> simp [setExprSlot, isSome_setEntry ha, admits, isLambdaBody]

theorem setStmtSlot_admits {s : Stmt} (h : (slot, old) ∈ stmtSlots s)
    (hold : old.isOperand = true) :
    (setStmtSlot s slot new).isSome = admits (.stmt s) slot old new := by
  cases s with
  | block b =>
      obtain ⟨span, ss⟩ := b
      obtain ⟨i, a, ha, rfl, h⟩ := mem_listed.1 h
      obtain ⟨rfl, -⟩ := ofStmt?_eq_some.1 h
      cases new <;>
        simp [setStmtSlot, isSome_setEntry (show ss[i]? = some a from ha), admits, isLambdaBody,
          wantsBlock]
  | _ =>
      simp only [stmtSlots, List.mem_append, List.not_mem_nil, mem_single, mem_listed,
        List.mem_singleton, Prod.mk.injEq, or_assoc, ofExpr?_eq_some, ofStmt?_eq_some,
        Function.comp_apply, Option.some.injEq, Option.map_eq_some_iff] at h
      repeat' refine Or.elim h ?_ ?_ <;> clear h <;> intro h
      all_goals first
        | -- a single operand or statement
          obtain ⟨rfl, rfl, -⟩ := h
          cases new <;> rfl
        | -- a block
          first
            | obtain ⟨rfl, rfl⟩ := h
            | obtain ⟨rfl, b, rfl, rfl⟩ := h
          cases new with
          | stmt t => cases t <;> rfl
          | _ => rfl
        | -- an arm or a catch clause is not replaced
          obtain ⟨i, a, -, -, rfl⟩ := h
          cases hold
        | -- an operand or a statement of a list
          obtain ⟨i, a, ha, rfl, rfl, -⟩ := h
          cases new <;> simp [setStmtSlot, isSome_setEntry ha, admits, isLambdaBody, wantsBlock]

end Slots

/-- A slot takes what it admits in the place of a statement or an expression. -/
theorem set?_admits {n old new : Node} {slot : Slot} (h : n.get? slot = some old)
    (hold : old.isOperand = true) : (n.set? slot new).isSome = admits n slot old new := by
  rw [get?_eq_some] at h
  cases n with
  | unit u =>
      obtain ⟨i, a, ha, rfl, h⟩ := mem_listed.1 h
      cases h
      cases hold
  | method m =>
      rcases List.mem_append.1 h with h | h
      · obtain ⟨i, a, ha, rfl, h⟩ := mem_listed.1 h
        cases h
        cases hold
      · obtain ⟨rfl, h⟩ := mem_single.1 h
        obtain ⟨b, -, rfl⟩ := Option.map_eq_some_iff.1 h
        cases new with
        | stmt t => cases t <;> rfl
        | _ => rfl
  | param p => cases h
  | stmt s => simpa [set?] using setStmtSlot_admits h hold
  | arm a =>
      obtain ⟨span, labels, arrow, body⟩ := a
      rcases List.mem_append.1 h with h | h
      · obtain ⟨i, e, he, rfl, h⟩ := mem_listed.1 h
        obtain ⟨rfl, -⟩ := ofExpr?_eq_some.1 h
        cases new <;>
          simp [set?, isSome_setEntry (show labels[i]? = some e from he), admits, isLambdaBody]
      · obtain ⟨i, t, ht, rfl, h⟩ := mem_listed.1 h
        obtain ⟨rfl, -⟩ := ofStmt?_eq_some.1 h
        cases new <;>
          simp [set?, isSome_setEntry (show body[i]? = some t from ht), admits, isLambdaBody,
            wantsBlock]
  | clause k =>
      obtain ⟨span, param, body⟩ := k
      rcases List.mem_append.1 h with h | h
      · obtain ⟨rfl, h⟩ := mem_single.1 h
        obtain ⟨p, -, rfl⟩ := Option.map_eq_some_iff.1 h
        cases hold
      · obtain ⟨rfl, rfl⟩ : slot = .body ∧ old = ofBlock body := by
          simpa [Catch.body] using h
        cases new with
        | stmt t => cases t <;> rfl
        | _ => rfl
  | expr e => simpa [set?] using setExprSlot_admits h hold

/-! ## Replacing a child -/

theorem exists_replaceChild {parent new : Node} {slot : Slot} :
    (∃ changed, parent.replaceChild slot new = some changed) ↔
      ∃ old, (slot, old) ∈ parent.slots ∧ old.isOperand = true ∧
        admits parent slot old new = true := by
  constructor
  · rintro ⟨changed, h⟩
    unfold replaceChild at h
    split at h
    next old hget =>
      obtain ⟨hold, hset⟩ := Option.ite_none_right_eq_some.1 h
      exact ⟨old, get?_eq_some.1 hget, hold, by simp [← set?_admits hget hold, hset]⟩
    next => cases h
  · rintro ⟨old, hmem, hold, hadmits⟩
    have hget := get?_eq_some.2 hmem
    obtain ⟨changed, hset⟩ := Option.isSome_iff_exists.1 ((set?_admits hget hold).trans hadmits)
    exact ⟨changed, by simp [replaceChild, hget, hold, hset]⟩

theorem set?_of_replaceChild {parent new changed : Node} {slot : Slot}
    (h : parent.replaceChild slot new = some changed) :
    ∃ old, parent.get? slot = some old ∧ parent.set? slot new = some changed := by
  unfold replaceChild at h
  split at h
  next old hget => exact ⟨old, hget, (Option.ite_none_right_eq_some.1 h).2⟩
  next => cases h

/-- Changing a child of the node at a path is changing the tree at the path of the child. -/
theorem put?_concat {root parent old new changed : Node} {p : Path} {slot : Slot}
    (hplace : root.at? p = some parent) (hget : parent.get? slot = some old)
    (hset : parent.set? slot new = some changed) :
    root.put? new (p ++ [slot]) = root.put? changed p := by
  induction p generalizing root with
  | nil =>
      cases hplace
      simp [put?, hget, hset]
  | cons s rest ih =>
      obtain ⟨c, hc, hbelow⟩ := at?_cons_eq_some.1 hplace
      simp only [List.cons_append, put?, hc, Option.bind_some, ih hbelow]

/-- The new child has the index of the old one, and the other children keep theirs. -/
theorem slots_replaceChild {parent new changed : Node} {slot : Slot} (hfilled : new.isFilled = true)
    (h : parent.replaceChild slot new = some changed) :
    ∃ i old, parent.slots[i]? = some (slot, old) ∧ parent.children[i]? = some old ∧
      changed.slots = parent.slots.set i (slot, new) ∧
      changed.children = parent.children.set i new := by
  obtain ⟨old, hget, hset⟩ := set?_of_replaceChild h
  obtain ⟨l, r, hparent, hchanged, -⟩ := slots_set_split hget hfilled hset
  refine ⟨l.length, old, ?_, ?_, ?_, ?_⟩ <;> simp [children, hparent, hchanged]

/--
Replacing a child succeeds just when the slot holds a statement or an expression and admits the
new node.  Then the children are the old ones with the new node at the index of the one it
replaces, the parent is otherwise as it was, and the tree is changed at that place alone.
-/
theorem replaceChild_exact {root parent new : Node} {p : Path} {slot : Slot}
    (hplace : root.at? p = some parent) (hfilled : new.isFilled = true) :
    ((∃ changed, parent.replaceChild slot new = some changed) ↔
        ∃ old, (slot, old) ∈ parent.slots ∧ old.isOperand = true ∧
          admits parent slot old new = true) ∧
      ∀ changed, parent.replaceChild slot new = some changed ->
        (∃ i old, parent.slots[i]? = some (slot, old) ∧ parent.children[i]? = some old ∧
          changed.slots = parent.slots.set i (slot, new) ∧
          changed.children = parent.children.set i new) ∧
        changed.bare = parent.bare ∧
        ∃ root', root.put? changed p = some root' ∧ ChangedAt (p ++ [slot]) new root root' := by
  refine ⟨exists_replaceChild, fun changed h => ⟨slots_replaceChild hfilled h, ?_, ?_⟩⟩
  · obtain ⟨old, -, hset⟩ := set?_of_replaceChild h
    exact bare_set hset
  · obtain ⟨old, hget, hset⟩ := set?_of_replaceChild h
    obtain ⟨root', hput, -⟩ := exists_put hplace (suits_of_bare (bare_set hset))
    exact ⟨root', hput, changedAt_of_put (at?_concat_eq_some.2 ⟨parent, hplace, hget⟩) hfilled
      ((put?_concat hplace hget hset).trans hput)⟩

/-- A method whose first statement is a loop without a block. -/
def loopMethod : Node :=
  .method
    { name := "m"
      body := some (.mk .nowhere [.whileLoop .nowhere (.ident .nowhere "b" "")
        (.breakTo .nowhere "")]) }

theorem replaceChild_exact_loopMethod :
    loopMethod.at? [.body, .stmt 0] =
        some (.stmt (.whileLoop .nowhere (.ident .nowhere "b" "") (.breakTo .nowhere ""))) ∧
      (Node.stmt (.continueTo .nowhere "")).isFilled = true ∧
      ∃ root', loopMethod.put? (.stmt (.whileLoop .nowhere (.ident .nowhere "b" "")
          (.continueTo .nowhere ""))) [.body, .stmt 0] = some root' ∧
        ChangedAt [.body, .stmt 0, .body] (.stmt (.continueTo .nowhere "")) loopMethod root' :=
  ⟨rfl, rfl, ((replaceChild_exact rfl rfl).2 _ rfl).2.2⟩

end Node

end EarlyExit
