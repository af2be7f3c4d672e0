import EarlyExit.Proofs.Expansion.Mentions

/-!
# Scopes of variables

A name is open in a tree if it is used somewhere without being declared by a statement
further up in a list: as an earlier neighbour of the use or of a node above it.  No step
opens a name that was not open before, apart from the classes of kinds; so a temporary,
which nothing used before, is only used where its declaration reaches.
-/

namespace EarlyExit.Expansion

open Node

/-- The name is used in the tree outside the reach of every declaration of it. -/
inductive Opens (x : String) : Node -> Prop
  | use {n : Node} (hused : usedName? n = some x) (hvar : declaredName? n = none) : Opens x n
  | under {n c : Node} {l r : List Node} (hchildren : n.children = l ++ c :: r)
      (hfree : ∀ d ∈ l, declaredName? d ≠ some x) (h : Opens x c) : Opens x n

/-- The name is open in a list of neighbours: the earlier ones declare for the later ones. -/
def OpensIn (x : String) : List Node -> Prop
  | [] => False
  | n :: rest => Opens x n ∨ (declaredName? n ≠ some x ∧ OpensIn x rest)

section Scope

variable {x : String}

theorem opensIn_append {l r : List Node} : OpensIn x (l ++ r) ↔
    OpensIn x l ∨ ((∀ d ∈ l, declaredName? d ≠ some x) ∧ OpensIn x r) := by
  induction l with
  | nil => simp [OpensIn]
  | cons n l ih =>
      simp only [List.cons_append, OpensIn, ih, List.forall_mem_cons]
      tauto

theorem opens_iff {n : Node} : Opens x n ↔
    (usedName? n = some x ∧ declaredName? n = none) ∨ OpensIn x n.children := by
  constructor
  · intro h
    cases h with
    | use hused hvar => exact .inl ⟨hused, hvar⟩
    | under hchildren hfree h =>
        rw [hchildren]
        exact .inr (opensIn_append.2 (.inr ⟨hfree, .inl h⟩))
  · have hlist : ∀ l r, n.children = l ++ r -> (∀ d ∈ l, declaredName? d ≠ some x) ->
        OpensIn x r -> Opens x n := by
      intro l r
      induction r generalizing l with
      | nil => exact fun _ _ h => h.elim
      | cons c r ih =>
          rintro hchildren hfree (hc | ⟨hne, hr⟩)
          · exact .under hchildren hfree hc
          · refine ih (l ++ [c]) (by simpa using hchildren) ?_ hr
            simp only [List.forall_mem_append, List.forall_mem_singleton]
            exact ⟨hfree, hne⟩
    rintro (⟨hused, hvar⟩ | h)
    · exact .use hused hvar
    · exact hlist [] n.children rfl (by simp) h

theorem Opens.used {n : Node} (h : Opens x n) : x ∈ usedNames n := by
  induction h with
  | @use n hused _ =>
      rw [usedNames, nodes_eq]
      exact List.mem_filterMap.2 ⟨n, by simp, hused⟩
  | @under n c l r hchildren _ _ ih =>
      obtain ⟨d, hd, hx⟩ := List.mem_filterMap.1 ih
      have hc : c ∈ n.children := by simp [hchildren]
      obtain ⟨y, hy, rfl⟩ := List.mem_map.1 hc
      rw [usedNames, nodes_eq]
      exact List.mem_filterMap.2 ⟨d, List.mem_cons_of_mem _ (List.mem_flatMap.2 ⟨y, hy, hd⟩), hx⟩

/-- Neighbours of which none declares the name. -/
theorem opensIn_free {l : List Node} (h : ∀ d ∈ l, declaredName? d ≠ some x) :
    OpensIn x l ↔ ∃ d ∈ l, Opens x d := by
  induction l with
  | nil => simp [OpensIn]
  | cons n l ih =>
      rw [List.forall_mem_cons] at h
      simp [OpensIn, ih h.2, h.1]

/-- The operands of an expression declare nothing. -/
theorem operand_declares {e : Expr} {d : Node} (h : d ∈ (Node.expr e).children) :
    declaredName? d = none := by
  obtain ⟨⟨slot, d⟩, hd, rfl⟩ := List.mem_map.1 h
  have hexpr {slot slot' : Slot} {e : Expr} {d : Node}
      (h : (slot, d) ∈ single slot' (ofExpr? e)) : declaredName? d = none := by
    obtain ⟨_, hd⟩ := mem_single.1 h
    obtain ⟨rfl, _⟩ := ofExpr?_eq_some.1 hd
    rfl
  have hexprs {slot : Slot} {slots : Nat -> Slot} {k : Nat} {l : List Expr} {d : Node}
      (h : (slot, d) ∈ listed slots ofExpr? k l) : declaredName? d = none := by
    obtain ⟨_, _, _, _, hd⟩ := mem_listed.1 h
    obtain ⟨rfl, _⟩ := ofExpr?_eq_some.1 hd
    rfl
  have hsome {α : Type} {f : α -> Node} {slot : Slot} {slots : Nat -> Slot} {k : Nat} {l : List α}
      {d : Node} (hf : ∀ a, declaredName? (f a) = none)
      (h : (slot, d) ∈ listed slots (some ∘ f) k l) : declaredName? d = none := by
    obtain ⟨_, a, _, _, hd⟩ := mem_listed.1 h
    cases hd
    exact hf a
  cases e with
  | missing | ident | literal => cases hd
  | lambda s ps body =>
      simp only [slots, exprSlots, List.mem_append] at hd
      rcases hd with hd | hd
      · exact hsome (fun _ => rfl) hd
      · cases body with
        | value e => exact hexpr hd
        | block b =>
            cases List.mem_singleton.1 hd
            rfl
  | switch s selector cases type =>
      simp only [slots, exprSlots, List.mem_append] at hd
      rcases hd with hd | hd
      · exact hexpr hd
      · exact hsome (fun _ => rfl) hd
  | _ =>
      simp only [slots, exprSlots, List.mem_append] at hd
      first
        | exact hexpr hd
        | exact hexprs hd
        | exact hd.elim hexpr hexpr
        | exact hd.elim hexpr hexprs
        | exact hd.elim hexprs hexprs
        | exact hd.elim (fun hd => hd.elim hexpr hexpr) hexpr

theorem opens_expr {e : Expr} : Opens x (.expr e) ↔
    usedName? (.expr e) = some x ∨ ∃ d ∈ (Node.expr e).children, Opens x d := by
  rw [opens_iff, opensIn_free fun d hd => by simp [operand_declares hd]]
  have hvar : declaredName? (.expr e) = none := rfl
  simp [hvar]

theorem Opens.operand {e : Expr} {slot : Slot} {d : Node} (h : Opens x d)
    (hget : (Node.expr e).get? slot = some d) : Opens x (.expr e) :=
  opens_expr.2 (.inr ⟨d, List.mem_map.2 ⟨_, get?_eq_some.1 hget, rfl⟩, h⟩)

theorem children_set {n n' c c' : Node} {slot : Slot} (hget : n.get? slot = some c)
    (hset : n.set? slot c' = some n') (hfilled : c'.isFilled = true) :
    ∃ l r, n.children = l ++ c :: r ∧ n'.children = l ++ c' :: r := by
  obtain ⟨before, after, hslots, hslots', _⟩ := slots_set_split hget hfilled hset
  exact ⟨before.map (·.2), after.map (·.2), by simp [children, hslots], by simp [children, hslots']⟩

/-- A swap opens a name only if the new node does. -/
theorem opens_swap {via : Node -> Prop} {old new n n' : Node} (h : Swap via old new n n')
    (hfilled : new.isFilled = true) (hdeclared : declaredName? old = declaredName? new)
    (hnew : Opens x new -> Opens x old) : Opens x n' -> Opens x n := by
  have hboth : (Opens x n' -> Opens x n) ∧ declaredName? n = declaredName? n' := by
    refine h.carry (R := fun c c' => (Opens x c' -> Opens x c) ∧ declaredName? c = declaredName? c')
      ⟨hnew, hdeclared⟩ ?_ hfilled
    rintro a a' c c' slot _ hget hset hfilled ⟨hopens, hsame⟩
    refine ⟨?_, (declaredName?_set hset).symm⟩
    obtain ⟨l, r, hl, hr⟩ := children_set hget hset hfilled
    rw [opens_iff, opens_iff (n := a), usedName?_set hset, declaredName?_set hset, hl, hr,
      opensIn_append, opensIn_append]
    simp only [OpensIn, hsame]
    tauto
  exact hboth.1

/-- What is open in an operand is open in the expression. -/
theorem opens_inner {old new n n' : Node} (h : Swap Inner old new n n') (hold : Opens x old) :
    Opens x n := by
  induction h with
  | here => exact hold
  | @under n n' c c' slot hvia hget _ _ ih =>
      cases n with
      | expr e => exact ih.operand hget
      | _ => exact hvia.elim

/-! ## Statements -/

theorem opensIn_single {slot : Slot} {e : Expr} :
    OpensIn x ((single slot (ofExpr? e)).map (·.2)) ↔ e.isMissing = false ∧ Opens x (.expr e) := by
  cases hmissing : e.isMissing with
  | false =>
      rw [ofExpr?_of_filled hmissing]
      simp [single, OpensIn]
  | true =>
      obtain rfl := Expr.eq_missing hmissing
      simp [single, ofExpr?, OpensIn]

/-- The name is open in an expression, if there is one. -/
def OpensAt (x : String) (e : Expr) : Prop :=
  e.isMissing = false ∧ Opens x (.expr e)

theorem not_opensAt_missing : ¬OpensAt x .missing := by
  rintro ⟨h, _⟩
  cases h

theorem single_declares {slot : Slot} {e : Expr} :
    ∀ d ∈ (single slot (ofExpr? e)).map (·.2), declaredName? d ≠ some x := by
  intro d hd
  obtain ⟨y, hy, rfl⟩ := List.mem_map.1 hd
  obtain ⟨_, hd⟩ := mem_single.1 hy
  obtain ⟨heq, _⟩ := ofExpr?_eq_some.1 hd
  rw [heq]
  simp [declaredName?]

theorem opens_var {s : Span} {y type : String} {e : Expr} :
    Opens x (.stmt (.var s y type e)) ↔ OpensAt x e := by
  rw [opens_iff]
  simp only [children, slots, stmtSlots, opensIn_single, declaredName?, reduceCtorEq, and_false,
    false_or, OpensAt]

theorem opens_exprStmt {s : Span} {e : Expr} : Opens x (.stmt (.expr s e)) ↔ OpensAt x e := by
  rw [opens_iff]
  simp only [children, slots, stmtSlots, opensIn_single, usedName?, reduceCtorEq, false_and,
    false_or, OpensAt]

theorem opens_exit {exit : Exit} {e : Expr} :
    Opens x (.stmt (exit.statement e)) ↔ OpensAt x e := by
  rw [opens_iff]
  cases exit
  all_goals
    simp only [Exit.statement, children, slots, stmtSlots, opensIn_single, usedName?, reduceCtorEq,
      false_and, false_or, OpensAt]

theorem opens_block {s : Span} {ss : List Stmt} (h : ∀ t ∈ ss, t.isMissing = false) :
    Opens x (.stmt (.block (.mk s ss))) ↔ OpensIn x (ss.map .stmt) := by
  rw [opens_iff]
  simp only [children, slots, stmtSlots, Block.stmts, listed_nodes, filterMap_ofStmt? h, usedName?,
    reduceCtorEq, false_and, false_or]

theorem opens_branch {s : Span} {test : Expr} {onTrue onFalse : Stmt}
    (h : Opens x (.stmt (.branch s test onTrue onFalse))) :
    OpensAt x test ∨ Opens x (.stmt onTrue) ∨ Opens x (.stmt onFalse) := by
  have hone {slot : Slot} {t : Stmt} (h : OpensIn x ((single slot (ofStmt? t)).map (·.2))) :
      Opens x (.stmt t) := by
    cases hmissing : t.isMissing with
    | false =>
        rw [ofStmt?_of_filled hmissing] at h
        simpa [single, OpensIn] using h
    | true =>
        obtain rfl := Stmt.eq_missing hmissing
        simp [single, ofStmt?, OpensIn] at h
  rw [opens_iff] at h
  simp only [children, slots, stmtSlots, List.map_append, opensIn_append, opensIn_single, usedName?,
    reduceCtorEq, false_and, false_or] at h
  rcases h with (h | ⟨_, h⟩) | ⟨_, h⟩
  · exact .inl h
  · exact .inr (.inl (hone h))
  · exact .inr (.inr (hone h))

theorem opens_explicit {s : Stmt} : Opens x (.stmt s.explicit) ↔ Opens x (.stmt s) := by
  cases s with
  | yield s value implicit =>
      rw [opens_iff, opens_iff (n := .stmt (.yield s value implicit))]
      rfl
  | _ => rfl

theorem declaredName?_explicit (s : Stmt) :
    declaredName? (.stmt s.explicit) = declaredName? (.stmt s) := by
  cases s <;> rfl

theorem opensIn_explicit {ss : List Stmt} :
    OpensIn x (ss.map fun s => .stmt s.explicit) ↔ OpensIn x (ss.map .stmt) := by
  induction ss with
  | nil => rfl
  | cons s ss ih =>
      simp only [List.map_cons, OpensIn, opens_explicit, declaredName?_explicit, ih]

/-- In an anchor a name is open in its expression or in the rest. -/
theorem opens_anchor {s : Stmt} {slot : Slot} (hslot : s.anchorSlot? = some slot) :
    ∃ Rest : Prop, ∀ v, Opens x (.stmt (s.withAnchorExpr v)) ↔ OpensAt x v ∨ Rest := by
  obtain ⟨others, _, hslots⟩ := slots_anchor hslot
  refine ⟨(usedName? (.stmt s) = some x ∧ declaredName? (.stmt s) = none) ∨
    OpensIn x (others.map (·.2)), fun v => ?_⟩
  have hused : usedName? (.stmt (s.withAnchorExpr v)) = usedName? (.stmt s) := by
    cases s <;> rfl
  have hvar : declaredName? (.stmt (s.withAnchorExpr v)) = declaredName? (.stmt s) := by
    cases s <;> rfl
  have hfree : ∀ d ∈ (single slot (ofExpr? v)).map (·.2), declaredName? d ≠ some x :=
    single_declares
  rw [opens_iff, hused, hvar, children, hslots, List.map_append, opensIn_append, opensIn_single,
    OpensAt]
  tauto

theorem opens_leaves {s : Stmt} (h : leaves s = true) {v : Expr} :
    Opens x (.stmt (s.withAnchorExpr v)) ↔ OpensAt x v := by
  rw [opens_iff]
  cases s <;> simp [leaves] at h
  all_goals
    simp only [Stmt.withAnchorExpr, children, slots, stmtSlots, opensIn_single, usedName?,
      reduceCtorEq, false_and, false_or, OpensAt]

/-! ## Moves -/

theorem opens_ident {s : Span} {y type : String} :
    Opens x (.expr (.ident s y type)) ↔ y = x := by
  rw [opens_expr]
  simp [usedName?, children, slots, exprSlots]

theorem opens_member {s s' : Span} {y type member result : String} :
    Opens x (.expr (.call s (.ident s' y type) member [] result)) ↔ y = x := by
  rw [opens_expr]
  simp [usedName?, children, slots, exprSlots, single, listed, ofExpr?, opens_ident]

variable {o : Options} {c : Setting} {kinds : List String}

theorem opens_reconstruct {kind : Kind} {s : Span} {y type : String} (hkind : kind.name ∈ kinds)
    (hx : x ∉ kinds) (h : Opens x (.expr (kind.reconstruct (.ident s y type) s))) : y = x := by
  have hclass : kind.name ≠ x := by
    rintro rfl
    exact hx hkind
  unfold Kind.reconstruct at h
  split at h
  · exact absurd (opens_member.1 h) hclass
  · rw [opens_expr] at h
    simpa [usedName?, children, slots, exprSlots, single, listed, ofExpr?, opens_ident,
      opens_member, hclass] using h

theorem opensIn_guard (hkinds : Knows o kinds) (hx : x ∉ kinds) {g : Guard} {e : Expr}
    (hkind : o.registry.resolve e = some g.kind) (h : OpensIn x (g.statements.map .stmt)) :
    OpensAt x g.receiver := by
  rcases h with h | ⟨hname, h | ⟨_, h⟩⟩
  · exact opens_var.1 h
  · have hname : g.name ≠ x := by simpa [declaredName?] using hname
    rcases opens_branch h with ⟨_, h⟩ | h | h
    · exact absurd (opens_member.1 h) hname
    · rw [opens_block (by cases g.exit <;> simp [Exit.statement, Stmt.isMissing])] at h
      rcases h with h | ⟨_, h⟩
      · exact absurd (opens_reconstruct (hkinds.resolve hkind) hx (opens_exit.1 h).2) hname
      · exact h.elim
    · rw [opens_iff] at h
      simp [usedName?, children, slots, stmtSlots, OpensIn] at h
  · exact h.elim

/-- What a move leaves open was open before. -/
theorem Move.opens (hkinds : Knows o kinds) (hx : x ∉ kinds) {y : String} {a b : Expr} {t : Temp}
    (h : Move o c y a t b) : (OpensIn x (t.statements.map .stmt) -> Opens x (.expr a)) ∧
      (y ≠ x -> Opens x (.expr b) -> Opens x (.expr a)) := by
  have hone {s : Span} {z type : String} {e : Expr}
      (h : OpensIn x ([Stmt.var s z type e].map .stmt)) : OpensAt x e := by
    rcases h with h | ⟨_, h⟩
    · exact opens_var.1 h
    · exact h.elim
  cases h with
  | @spilled _ p p' e slot hget hset _ _ _ _ _ hswap =>
      refine ⟨fun h => opens_inner hswap ((hone h).2.operand hget), fun hy h => ?_⟩
      refine opens_swap hswap (isFilled_set hset) (declaredName?_set hset).symm (fun hp => ?_) h
      obtain ⟨l, r, hl, hr⟩ := children_set hget hset rfl
      rw [opens_expr, hr, usedName?_set hset] at hp
      rw [opens_expr, hl]
      simp only [List.mem_append, List.mem_cons] at hp ⊢
      rcases hp with hused | ⟨d, hd | rfl | hd, hopens⟩
      · exact .inl hused
      · exact .inr ⟨d, .inl hd, hopens⟩
      · exact absurd (opens_ident.1 hopens) hy
      · exact .inr ⟨d, .inr (.inr hd), hopens⟩
  | @hoisted _ receiver s type kind hkind _ hswap =>
      refine ⟨fun h => ?_, fun hy h => ?_⟩
      · have hreceiver : OpensAt x receiver := opensIn_guard hkinds hx hkind h
        have hget : (Node.expr (.call s receiver o.sentinel [] type)).get? .receiver =
            some (.expr receiver) := by
          rw [get?_receiver, ofExpr?_of_filled hreceiver.1]
        exact opens_inner hswap (hreceiver.2.operand hget)
      · exact opens_swap hswap rfl rfl (fun hnew => absurd (opens_member.1 hnew) hy) h
  | @kept _ t value s op applied _ _ _ _ _ hswap =>
      refine ⟨fun h => ?_, fun hy h => ?_⟩
      · have hget : (Node.expr (.assign s t op value)).get? .target = some (.expr t) := by
          rw [get?_assignTarget, ofExpr?_of_filled (hone h).1]
        exact opens_inner hswap ((hone h).2.operand hget)
      · refine opens_swap hswap rfl rfl (fun hnew => ?_) h
        rw [opens_expr] at hnew ⊢
        simp only [usedName?, children, slots, exprSlots, List.map_append, List.mem_append,
          reduceCtorEq, false_or] at hnew ⊢
        obtain ⟨d, hd | hd, hopens⟩ := hnew
        · exact ⟨d, .inl hd, hopens⟩
        · simp only [single, ofExpr?, List.map_cons, List.map_nil, List.mem_singleton] at hd
          subst hd
          rw [opens_expr] at hopens
          simp only [usedName?, children, slots, exprSlots, List.map_append, List.mem_append,
            reduceCtorEq, false_or] at hopens
          obtain ⟨d, hd | hd, hopens⟩ := hopens
          · simp only [single, ofExpr?, List.map_cons, List.map_nil, List.mem_singleton] at hd
            subst hd
            exact absurd (opens_ident.1 hopens) hy
          · refine ⟨d, .inr ?_, hopens⟩
            obtain ⟨z, hz, rfl⟩ := List.mem_map.1 hd
            exact List.mem_map.2 ⟨(.value, z.2), mem_single.2 ⟨rfl, (mem_single.1 hz).2⟩, rfl⟩

theorem Temp.declares (t : Temp) : ∃ s ∈ t.statements, declaredName? (.stmt s) = some t.name := by
  cases t with
  | guard g => exact ⟨_, List.mem_cons_self, rfl⟩
  | plain => exact ⟨_, List.mem_cons_self, rfl⟩

/-- The row of an anchor and its temporaries, where `n` stands for the anchor. -/
theorem Moves.opens (hkinds : Knows o kinds) (hx : x ∉ kinds) {ns ns' : Names} {a v : Expr}
    {ts : List Temp} (h : Moves o c ns a ts v ns') {n : Node} {Rest : Prop}
    (hn : Opens x n -> OpensAt x v ∨ Rest)
    (hrow : OpensIn x ((ts.flatMap Temp.statements).map .stmt ++ [n])) : OpensAt x a ∨ Rest := by
  induction h with
  | none =>
      rcases hrow with hrow | ⟨_, hrow⟩
      · exact hn hrow
      · exact hrow.elim
  | @more ns ns' a b v t ts hmove _ ih =>
      obtain ⟨hstatements, hb⟩ := hmove.opens hkinds hx
      rw [List.flatMap_cons, List.map_append, List.append_assoc, opensIn_append] at hrow
      rcases hrow with hrow | ⟨hfree, hrow⟩
      · exact .inl ⟨hmove.filled, hstatements hrow⟩
      · refine (ih hn hrow).imp_left fun hopens => ⟨hmove.filled, hb ?_ hopens.2⟩
        obtain ⟨s, hs, hname⟩ := t.declares
        rw [hmove.name] at hname
        intro heq
        exact hfree (.stmt s) (List.mem_map_of_mem hs) (heq ▸ hname)

/-! ## Lifts -/

theorem opens_conditional {cond : Conditional} {e : Expr} (h : OpensAt x e)
    (he : e = cond.test ∨ e = cond.onTrue ∨ e = cond.onFalse) : OpensAt x cond.expr := by
  refine ⟨rfl, opens_expr.2 (.inr ⟨.expr e, ?_, h.2⟩)⟩
  have hfilled := ofExpr?_of_filled h.1
  rcases he with rfl | rfl | rfl <;>
    simp [Conditional.expr, children, slots, exprSlots, hfilled, single]

theorem opens_assigning {cond : Conditional} {s : Span} {y type : String} {op : Operator}
    (h : Opens x (.stmt (cond.assigning (.ident s y type) op))) : OpensAt x cond.expr ∨ y = x := by
  have hone {e : Expr} (he : e = cond.test ∨ e = cond.onTrue ∨ e = cond.onFalse)
      (h : Opens x (.stmt (.expr e.span (.assign e.span (.ident s y type) op e)))) :
      OpensAt x cond.expr ∨ y = x := by
    obtain ⟨_, h⟩ := opens_exprStmt.1 h
    rw [opens_expr] at h
    simp only [usedName?, children, slots, exprSlots, List.map_append, List.mem_append,
      reduceCtorEq, false_or] at h
    obtain ⟨d, hd | hd, hopens⟩ := h
    · simp only [single, ofExpr?, List.map_cons, List.map_nil, List.mem_singleton] at hd
      subst hd
      exact .inr (opens_ident.1 hopens)
    · obtain ⟨z, hz, rfl⟩ := List.mem_map.1 hd
      obtain ⟨heq, hfilled⟩ := ofExpr?_eq_some.1 (mem_single.1 hz).2
      rw [heq] at hopens
      exact .inl (opens_conditional ⟨hfilled, hopens⟩ he)
  rcases opens_branch h with h | h | h
  · exact .inl (opens_conditional h (.inl rfl))
  · exact hone (.inr (.inl rfl)) h
  · exact hone (.inr (.inr rfl)) h

/-- What a lift leaves open was open before. -/
theorem Lifted.opens {cond : Conditional} {ns ns' : Names} {s : Stmt} {new : List Stmt}
    (h : Lifted cond ns s new ns') (hrow : OpensIn x (new.map .stmt)) : Opens x (.stmt s) := by
  have hlast {n : Node} (h : OpensIn x [n]) : Opens x n := h.resolve_right fun h => h.2.elim
  have hmissing {s : Span} {y type : String} : ¬Opens x (.stmt (.var s y type .missing)) :=
    fun h => not_opensAt_missing (opens_var.1 h)
  cases h with
  | exit hleaves hexpr =>
      rw [← withAnchorExpr_self (anchorSlot?_of_leaves hleaves), hexpr, opens_leaves hleaves]
      rcases opens_branch (hlast hrow) with h | h | h
      · exact opens_conditional h (.inl rfl)
      · rw [opens_explicit, opens_leaves hleaves] at h
        exact opens_conditional h (.inr (.inl rfl))
      · rw [opens_explicit, opens_leaves hleaves] at h
        exact opens_conditional h (.inr (.inr rfl))
  | declared s name type type' =>
      rcases hrow with h | ⟨hname, h⟩
      · exact absurd h hmissing
      · refine opens_var.2 ((opens_assigning (hlast h)).resolve_right ?_)
        simpa [declaredName?] using hname
  | assigned s s' s'' y t op =>
      rw [opens_exprStmt]
      refine ⟨rfl, opens_expr.2 (.inr ?_)⟩
      rcases opens_assigning (hlast hrow) with h | rfl
      · exact ⟨.expr cond.expr, by simp [children, slots, exprSlots, single, ofExpr?,
          Conditional.expr], h.2⟩
      · exact ⟨.expr (.ident s'' y t), by simp [children, slots, exprSlots, single, ofExpr?],
          opens_ident.2 rfl⟩
  | evaluated s =>
      rw [opens_exprStmt]
      rcases opens_branch (hlast hrow) with h | h | h
      · exact opens_conditional h (.inl rfl)
      · exact opens_conditional (opens_exprStmt.1 h) (.inr (.inl rfl))
      · exact opens_conditional (opens_exprStmt.1 h) (.inr (.inr rfl))
  | stored hheaded hexpr =>
      obtain ⟨slot, hslot⟩ := Option.isSome_iff_exists.1 (anchorSlot?_of_isHeaded hheaded)
      obtain ⟨Rest, hanchor⟩ := opens_anchor (x := x) hslot
      rw [← withAnchorExpr_self (s := s) (by simp [hslot]), hexpr, hanchor]
      rcases hrow with h | ⟨hname, hrow⟩
      · exact absurd h hmissing
      · have hname : ns.fresh.1 ≠ x := by simpa [declaredName?] using hname
        rcases hrow with h | ⟨_, h⟩
        · exact .inl ((opens_assigning h).resolve_right hname)
        · refine ((hanchor _).1 (hlast h)).imp_left fun htemp => ?_
          exact absurd (opens_ident.1 htemp.2) hname

theorem Turn.opens (hkinds : Knows o kinds) (hx : x ∉ kinds) {ns ns' : Names} {s : Stmt}
    {ts : List Temp} {new : List Stmt} (h : Turn o ns s ts new ns')
    (hrow : OpensIn x (new.map .stmt)) : Opens x (.stmt s) := by
  cases h with
  | lifted h => exact h.opens hrow
  | @hoisted c slot ts v ns' hslot _ hmoves =>
      obtain ⟨Rest, hanchor⟩ := opens_anchor (x := x) hslot
      rw [← withAnchorExpr_self (s := s) (by simp [hslot]), hanchor]
      rw [List.map_append, List.map_singleton] at hrow
      exact hmoves.opens hkinds hx (hanchor v).1 hrow

/-! ## Steps -/

theorem opens_wrapped {s : Span} {ps : List Param} {e : Expr} (hfilled : e.isMissing = false)
    (h : Opens x (.expr (.lambda s ps (.block (.mk e.span [.ret e.span e]))))) :
    Opens x (.expr (.lambda s ps (.value e))) := by
  rw [opens_expr] at h ⊢
  simp only [usedName?, children, slots, exprSlots, bodySlot, List.map_append, List.mem_append,
    List.map_cons, List.map_nil, List.mem_singleton, reduceCtorEq, false_or] at h ⊢
  obtain ⟨d, hd | rfl, hopens⟩ := h
  · exact ⟨d, .inl hd, hopens⟩
  · rw [ofBlock, opens_block (by simp [Stmt.isMissing])] at hopens
    rcases hopens with hopens | ⟨_, hopens⟩
    · have hret : Opens x (.stmt (Exit.ret.statement e)) := hopens
      have hvalue := opens_exit.1 hret
      exact ⟨.expr e, .inr (by simp [ofExpr?_of_filled hfilled, single]), hvalue.2⟩
    · exact hopens.elim

theorem Row.opens {new : List Stmt} {mid : List Node} (h : Row new mid)
    (hfilled : ∀ t ∈ new, t.isMissing = false) (hmid : OpensIn x mid) :
    OpensIn x (new.map .stmt) := by
  cases h with
  | listed => exact hmid
  | explicit => exact opensIn_explicit.1 hmid
  | block span =>
      have hblock := hmid.resolve_right fun h => h.2.elim
      rw [opens_block (by simpa [isMissing_explicit] using hfilled), List.map_map] at hblock
      exact opensIn_explicit.1 hblock

theorem spliceInto_names {parent changed : Node} {slot : Slot} {s : Stmt} {new : List Stmt}
    (hget : parent.get? slot = some (.stmt s)) (h : spliceInto parent slot s new = .ok changed) :
    usedName? changed = usedName? parent ∧ declaredName? changed = declaredName? parent := by
  unfold spliceInto at h
  split at h
  · cases h
    exact ⟨rfl, rfl⟩
  · split at h <;> cases h
    exact ⟨rfl, rfl⟩
  · cases h
    exact ⟨rfl, rfl⟩
  · simp only [replaceChild, hget, isOperand, if_true] at h
    split at h
    next hset =>
      cases h
      exact ⟨usedName?_set hset, declaredName?_set hset⟩
    next => cases h

/-- A step opens no name, if it does not take a declaration of the name apart. -/
theorem Turns.opens (hkinds : Knows o kinds) (hx : x ∉ kinds) {w w' : Work} {ts : List Temp}
    (h : Turns o w ts w')
    (hlive : ∀ p s, w.root.at? p = some (.stmt s) -> declaredName? (.stmt s) = some x ->
      isLive o (.stmt s) = false) (hopens : Opens x w'.root) : Opens x w.root := by
  cases h with
  | wrapped hat hfilled _ hput =>
      exact opens_swap (swap_of_put hat hput) rfl rfl (opens_wrapped hfilled) hopens
  | @turned p slot parent s ts new names root' hp hparent hget hlive' hfilled hturn hsplice =>
      have hat : w.root.at? (p ++ [slot]) = some (.stmt s) := at?_concat_eq_some.2 ⟨_, hp, hget⟩
      have hs : declaredName? (.stmt s) ≠ some x := by
        intro hname
        rw [hlive _ s hat hname] at hlive'
        cases hlive'
      obtain ⟨p', slot', parent', changed, _, hp', hget', hinto, hput⟩ := splice_ok hat hsplice
      obtain ⟨l, mid, r, hslots, hchildren, hrow⟩ := spliceInto_children hget' hfilled hinto
      obtain ⟨hused, hvar⟩ := spliceInto_names hget' hinto
      refine opens_swap (swap_of_put hp' hput) (spliceInto_face hinto).2 hvar.symm ?_ hopens
      have hmid (h : OpensIn x mid) : Opens x (.stmt s) :=
        hturn.opens hkinds hx (hrow.opens hfilled h)
      have hbefore : parent'.children = l.map (·.2) ++ .stmt s :: r.map (·.2) := by
        simp [children, hslots]
      rw [opens_iff, opens_iff (n := parent'), hused, hvar, hchildren, hbefore, List.append_assoc,
        opensIn_append, opensIn_append, opensIn_append]
      simp only [OpensIn]
      tauto

end Scope

end EarlyExit.Expansion
