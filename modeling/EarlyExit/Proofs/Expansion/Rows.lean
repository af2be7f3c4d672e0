import EarlyExit.Proofs.Expansion.Turns

/-!
# Rows of statements

Blocks and arms list statements.  Statements without a site that stand one behind the
other in such a list stay together for the rest of a run: a step replaces only a
statement with a site, and moves what is inside an operand as a whole.
-/

namespace EarlyExit

namespace Node

def row : Node -> List Stmt
  | .stmt (.block b) => b.stmts
  | .arm c => c.body
  | _ => []

/-- Some node of the tree lists the statements, one behind the other. -/
def Shows (ss : List Stmt) (n : Node) : Prop :=
  ∃ c ∈ n.nodes, ss <:+: c.row

theorem shows_iff {ss : List Stmt} {n : Node} :
    Shows ss n ↔ ss <:+: n.row ∨ ∃ x ∈ n.slots, Shows ss x.2 := by
  simp only [Shows, nodes_eq n, List.mem_cons, List.mem_flatMap, exists_eq_or_imp]
  refine or_congr_right ⟨?_, ?_⟩
  · rintro ⟨c, ⟨x, hx, hc⟩, hrow⟩
    exact ⟨x, hx, c, hc, hrow⟩
  · rintro ⟨x, hx, c, hc, hrow⟩
    exact ⟨c, ⟨x, hx, hc⟩, hrow⟩

theorem shows_children {ss : List Stmt} {n : Node} :
    Shows ss n ↔ ss <:+: n.row ∨ ∃ c ∈ n.children, Shows ss c := by
  rw [shows_iff]
  simp only [children, List.mem_map, exists_exists_and_eq_and]

theorem Shows.child {ss : List Stmt} {n c : Node} {slot : Slot} (h : Shows ss c)
    (hget : n.get? slot = some c) : Shows ss n :=
  shows_iff.2 (.inr ⟨(slot, c), get?_eq_some.1 hget, h⟩)

/-- A list without an entry is on one side of it. -/
theorem infix_of_not_mem {ss pre post : List α} {a : α} (h : ss <:+: pre ++ a :: post)
    (ha : a ∉ ss) : ss <:+: pre ∨ ss <:+: post := by
  obtain ⟨l, r, heq⟩ := h
  rw [List.append_assoc, List.append_eq_append_iff] at heq
  rcases heq with ⟨m, rfl, hrest⟩ | ⟨m, rfl, hrest⟩
  · -- the list starts before the entry
    rw [List.append_eq_append_iff] at hrest
    rcases hrest with ⟨k, rfl, _⟩ | ⟨k, rfl, hcons⟩
    · exact .inl ⟨l, k, by simp⟩
    · cases k with
      | nil => exact .inl ⟨l, [], by simp⟩
      | cons b k =>
          rw [List.cons_append, List.cons.injEq] at hcons
          exact absurd (by simp [hcons.1]) ha
  · cases m with
    | nil =>
        cases ss with
        | nil => exact .inl (List.nil_infix)
        | cons b ss =>
            simp only [List.nil_append, List.cons_append, List.cons.injEq] at hrest
            exact absurd (by simp [hrest.1]) ha
    | cons b m =>
        rw [List.cons_append, List.cons.injEq] at hrest
        exact .inr ⟨m, r, by simp [hrest.2]⟩

end Node

namespace Expansion

open Node

/-! ## A changed list -/

theorem infix_spliceEntry {ss l new : List α} {i : Nat} {a : α} (h : ss <:+: l)
    (hi : l[i]? = some a) (ha : a ∉ ss) : ss <:+: spliceEntry l i new := by
  obtain ⟨hlt, hget⟩ := List.getElem?_eq_some_iff.1 hi
  have hsplit : l = l.take i ++ a :: l.drop (i + 1) := by
    rw [← hget, List.getElem_cons_drop, List.take_append_drop]
  rw [hsplit] at h
  rw [spliceEntry, List.append_assoc]
  rcases infix_of_not_mem h ha with h | h
  · exact h.trans (List.prefix_append _ _).isInfix
  · exact h.trans ((List.suffix_append _ _).trans (List.suffix_append _ _)).isInfix

theorem infix_set {ss l : List α} {i : Nat} {a b : α} (h : ss <:+: l) (hi : l[i]? = some a)
    (ha : a ∉ ss) : ss <:+: l.set i b := by
  have hlt := (List.getElem?_eq_some_iff.1 hi).1
  have hset : l.set i b = spliceEntry l i [b] := by
    rw [spliceEntry, List.set_eq_take_append_cons_drop, if_pos hlt]
    simp
  rw [hset]
  exact infix_spliceEntry h hi ha

/-- The statement in a slot is an entry of the list. -/
theorem get?_row {n : Node} {slot : Slot} {c : Node} (hget : n.get? slot = some c)
    (hrow : n.row ≠ []) : (∃ i e, slot = .label i ∧ c = .expr e) ∨
      ∃ i s, slot = .stmt i ∧ c = .stmt s ∧ n.row[i]? = some s := by
  rw [get?_eq_some] at hget
  cases n with
  | stmt t =>
      cases t with
      | block b =>
          obtain ⟨i, s, hs, hslot, hview⟩ := mem_listed.1 hget
          obtain ⟨rfl, _⟩ := ofStmt?_eq_some.1 hview
          exact .inr ⟨i, s, by simpa using hslot, rfl, hs⟩
      | _ => exact absurd rfl hrow
  | arm c =>
      rcases List.mem_append.1 hget with hlabel | hstmt
      · obtain ⟨i, _, _, hslot, hview⟩ := mem_listed.1 hlabel
        obtain ⟨rfl, _⟩ := ofExpr?_eq_some.1 hview
        exact .inl ⟨i, _, by simpa using hslot, rfl⟩
      · obtain ⟨i, s, hs, hslot, hview⟩ := mem_listed.1 hstmt
        obtain ⟨rfl, _⟩ := ofStmt?_eq_some.1 hview
        exact .inr ⟨i, s, by simpa using hslot, rfl, hs⟩
  | _ => exact absurd rfl hrow

theorem row_setStmt {s s' : Stmt} {slot : Slot} {c : Node}
    (hset : setStmtSlot s slot c = some s') : (Node.stmt s').row = (Node.stmt s).row ∨
      ∃ i t, slot = .stmt i ∧ (Node.stmt s').row = (Node.stmt s).row.set i t := by
  unfold setStmtSlot at hset
  split at hset
  all_goals simp only [Option.map_eq_some_iff, setEntry_eq_some, Option.some.injEq,
    reduceCtorEq] at hset
  all_goals first
    | subst hset; exact .inl rfl
    | obtain ⟨_, ⟨_, rfl⟩, rfl⟩ := hset
      first
        | exact .inl rfl
        | exact .inr ⟨_, _, rfl, rfl⟩

theorem row_set {n n' c : Node} {slot : Slot} (hset : n.set? slot c = some n') :
    n'.row = n.row ∨ ∃ i t, slot = .stmt i ∧ n'.row = n.row.set i t := by
  unfold set? at hset
  split at hset
  all_goals simp only [Option.map_eq_some_iff, Option.some.injEq, reduceCtorEq] at hset
  all_goals first
    | subst hset; exact .inl rfl
    | obtain ⟨_, hs, rfl⟩ := hset
      first
        | exact .inl rfl
        | exact row_setStmt hs
        | obtain ⟨_, rfl⟩ := setEntry_eq_some.1 hs
          exact .inr ⟨_, _, rfl, rfl⟩

section Rows

variable {o : Options} {ss : List Stmt}

/-- A swap keeps a row that is not in the part replaced, if the nodes above keep their lists. -/
theorem shows_swap {via : Node -> Prop} {Q : Prop} {old new n n' : Node}
    (h : Swap via old new n n') (hfilled : new.isFilled = true)
    (hrow : ∀ {a a' c c' : Node} {slot : Slot}, via a -> (c = old ∨ via c) ->
      a.get? slot = some c -> a.set? slot c' = some a' -> ss <:+: a.row -> ss <:+: a'.row)
    (hstep : Shows ss old -> Shows ss new ∨ Q) : Shows ss n -> Shows ss n' ∨ Q := by
  induction h with
  | here => exact hstep
  | @under n n' c c' slot hvia hget hset hbelow ih =>
      intro hshows
      have hc : c = old ∨ via c := by
        cases hbelow with
        | here => exact .inl rfl
        | under hvia' _ _ _ => exact .inr hvia'
      obtain ⟨before, after, hslots, hslots', _⟩ :=
        slots_set_split hget (hbelow.isFilled hfilled) hset
      rcases shows_iff.1 hshows with hown | ⟨x, hx, hshows⟩
      · exact .inl (shows_iff.2 (.inl (hrow hvia hc hget hset hown)))
      · rw [hslots, List.mem_append, List.mem_cons] at hx
        rcases hx with hx | rfl | hx
        · exact .inl (shows_iff.2 (.inr ⟨x, by simp [hslots', hx], hshows⟩))
        · refine (ih hshows).imp_left fun hshows' => ?_
          exact shows_iff.2 (.inr ⟨(slot, c'), by simp [hslots'], hshows'⟩)
        · exact .inl (shows_iff.2 (.inr ⟨x, by simp [hslots', hx], hshows⟩))

variable (hne : ss ≠ [])

include hne

theorem shows_expr {e : Expr} : Shows ss (.expr e) ↔ ∃ x ∈ (Node.expr e).slots, Shows ss x.2 := by
  rw [shows_iff]
  refine or_iff_right fun hrow => hne ?_
  exact List.infix_nil.1 hrow

/-- Operands list nothing themselves. -/
theorem shows_inner {Q : Prop} {old new n n' : Node} (h : Swap Inner old new n n')
    (hfilled : new.isFilled = true) (hstep : Shows ss old -> Shows ss new ∨ Q) :
    Shows ss n -> Shows ss n' ∨ Q := by
  refine shows_swap h hfilled ?_ hstep
  intro a a' c c' slot hvia _ _ _ hrow
  cases a with
  | expr e => exact absurd (List.infix_nil.1 hrow) hne
  | _ => exact hvia.elim

/-! ## Moves -/

/-- What an operand shows is shown afterwards by the expression or by the new statements. -/
theorem Move.shows {c : Setting} {x : String} {a b : Expr} {t : Temp} (h : Move o c x a t b)
    (ha : Shows ss (.expr a)) : Shows ss (.expr b) ∨ ∃ s ∈ t.statements, Shows ss (.stmt s) := by
  have hvar {s : Span} {name type : String} {e : Expr} (hfilled : e.isMissing = false)
      (he : Shows ss (.expr e)) : Shows ss (.stmt (.var s name type e)) :=
    he.child (show (Node.stmt (.var s name type e)).get? .value = some (.expr e) by
      simp [get?, slots, stmtSlots, single, ofExpr?_of_filled hfilled])
  cases h with
  | @spilled _ p p' e slot hget hset _ _ hunstable _ _ hswap =>
      refine shows_inner hne hswap (isFilled_set hset) (fun hp => ?_) ha
      obtain ⟨before, after, hslots, hslots', _⟩ := slots_set_split hget rfl hset
      obtain ⟨y, hy, hshows⟩ := (shows_expr hne).1 hp
      have hfilled : e.isMissing = false := by
        cases e <;> simp_all [isStable, Expr.isMissing]
      rw [hslots, List.mem_append, List.mem_cons] at hy
      rcases hy with hy | rfl | hy
      · exact .inl ((shows_expr hne).2 ⟨y, by simp [hslots', hy], hshows⟩)
      · exact .inr ⟨_, List.mem_singleton.2 rfl, hvar hfilled hshows⟩
      · exact .inl ((shows_expr hne).2 ⟨y, by simp [hslots', hy], hshows⟩)
  | @hoisted _ receiver s type kind hkind _ hswap =>
      refine shows_inner hne hswap rfl (fun hcall => ?_) ha
      obtain ⟨y, hy, hshows⟩ := (shows_expr hne).1 hcall
      simp only [slots, exprSlots, listed, List.append_nil, mem_single, ofExpr?_eq_some] at hy
      obtain ⟨_, hy, hfilled⟩ := hy
      rw [hy] at hshows
      exact .inr ⟨_, List.mem_cons_self, hvar hfilled hshows⟩
  | @kept _ t value s op applied _ _ _ _ _ hswap =>
      refine shows_inner hne hswap rfl (fun hassign => .inl ?_) ha
      obtain ⟨y, hy, hshows⟩ := (shows_expr hne).1 hassign
      simp only [slots, exprSlots, List.mem_append, mem_single] at hy
      rcases hy with ⟨_, hy⟩ | ⟨_, hy⟩
      · exact (shows_expr hne).2 ⟨(.target, y.2), by simp [slots, exprSlots, mem_single, hy], hshows⟩
      · have hbinary : Shows ss (.expr (.binary s (.ident t.span x t.staticType) applied value)) :=
          (shows_expr hne).2 ⟨(.right, y.2), by simp [slots, exprSlots, mem_single, hy], hshows⟩
        exact (shows_expr hne).2 ⟨(.value, _),
          by simp [slots, exprSlots, mem_single, ofExpr?], hbinary⟩

theorem Moves.shows {c : Setting} {ns ns' : Names} {a v : Expr} {ts : List Temp}
    (h : Moves o c ns a ts v ns') (ha : Shows ss (.expr a)) :
    Shows ss (.expr v) ∨ ∃ s ∈ ts.flatMap Temp.statements, Shows ss (.stmt s) := by
  induction h with
  | none => exact .inl ha
  | more hmove _ ih =>
      rcases hmove.shows hne ha with hb | ⟨s, hs, hshows⟩
      · refine (ih hb).imp_right ?_
        rintro ⟨s, hs, hshows⟩
        exact ⟨s, by simp [hs], hshows⟩
      · exact .inr ⟨s, by simp [hs], hshows⟩

/-! ## Turns -/

theorem shows_explicit {s : Stmt} (h : Shows ss (.stmt s)) : Shows ss (.stmt s.explicit) := by
  cases s with
  | yield s value implicit =>
      rcases shows_iff.1 h with hrow | hslots
      · exact absurd (List.infix_nil.1 hrow) hne
      · exact shows_iff.2 (.inr hslots)
  | _ => exact h

/-- An anchor shows what its expression shows, and the rest. -/
theorem shows_anchor {s : Stmt} {slot : Slot} (hslot : s.anchorSlot? = some slot) :
    ∃ Rest : Prop, ∀ v, Shows ss (.stmt (s.withAnchorExpr v)) ↔
      (v.isMissing = false ∧ Shows ss (.expr v)) ∨ Rest := by
  obtain ⟨others, _, hslots⟩ := slots_anchor hslot
  refine ⟨∃ x ∈ others, Shows ss x.2, fun v => ?_⟩
  have hrow : (Node.stmt (s.withAnchorExpr v)).row = [] := by
    cases s <;> first | rfl | cases hslot
  rw [shows_iff, hrow, hslots]
  simp only [List.infix_nil, hne, false_or, List.mem_append, mem_single, or_and_right, exists_or,
    ofExpr?_eq_some]
  refine or_congr_left ⟨?_, ?_⟩
  · rintro ⟨x, ⟨_, hx, hfilled⟩, hshows⟩
    exact ⟨hfilled, hx ▸ hshows⟩
  · rintro ⟨hfilled, hshows⟩
    exact ⟨(slot, .expr v), ⟨rfl, rfl, hfilled⟩, hshows⟩

/-- A node that does not list the statements. -/
def Lacks (ss : List Stmt) (c : Node) : Prop :=
  ¬ss <:+: c.row

omit hne in
theorem not_shows {n : Node} : ¬Shows ss n ↔ Everywhere (Lacks ss) n := by
  simp [Shows, Everywhere, Lacks]

theorem lacks_of_row {c : Node} (h : c.row = []) : Lacks ss c := by
  intro hrow
  rw [h] at hrow
  exact hne (List.infix_nil.1 hrow)

theorem Lifted.shows {cond : Conditional} {ns ns' : Names} {s : Stmt} {new : List Stmt}
    (h : Lifted cond ns s new ns') (hs : Shows ss (.stmt s)) :
    ∃ t ∈ new, Shows ss (.stmt t) := by
  by_contra hnone
  simp only [not_exists, not_and, not_shows] at hnone
  refine not_shows.2 ?_ hs
  have hcond (h : InExpr (Lacks ss) cond.test ∧ InExpr (Lacks ss) cond.onTrue ∧
      InExpr (Lacks ss) cond.onFalse) : Everywhere (Lacks ss) (.expr cond.expr) :=
    everywhere_conditional.2 ⟨lacks_of_row hne rfl, h⟩
  have hvalue {s : Span} {target : Expr} {op : Operator} {e : Expr}
      (h : InStmt (Lacks ss) (.expr s (.assign s target op e))) : InExpr (Lacks ss) e := by
    have hassign := (everywhere_exprStmt.1 ((inStmt_iff rfl).1 h)).2
    exact (everywhere_assign.1 ((inExpr_iff rfl).1 hassign)).2.2
  have hassigning {target : Expr} {op : Operator}
      (h : Everywhere (Lacks ss) (.stmt (cond.assigning target op))) :
      Everywhere (Lacks ss) (.expr cond.expr) := by
    obtain ⟨_, htest, honTrue, honFalse⟩ := everywhere_branch.1 h
    exact hcond ⟨htest, hvalue honTrue, hvalue honFalse⟩
  cases h with
  | exit hleaves hexpr =>
      rw [List.forall_mem_singleton] at hnone
      obtain ⟨_, htest, honTrue, honFalse⟩ := everywhere_branch.1 hnone
      have hside {v : Expr} (h : InStmt (Lacks ss) (s.withAnchorExpr v).explicit) :
          InExpr (Lacks ss) v := by
        have hfilled : (s.withAnchorExpr v).explicit.isMissing = false := by
          cases s <;> first | rfl | cases hleaves
        exact ((everywhere_leavesExplicit hleaves).1 ((inStmt_iff hfilled).1 h)).2
      rw [← withAnchorExpr_self (anchorSlot?_of_leaves hleaves), hexpr]
      refine (everywhere_leaves hleaves).2 ⟨lacks_of_row hne ?_, (hcond
        ⟨htest, hside honTrue, hside honFalse⟩).inExpr⟩
      cases s <;> first | rfl | cases hleaves
  | declared s name type type' =>
      rw [List.forall_mem_cons, List.forall_mem_singleton] at hnone
      exact everywhere_var.2 ⟨lacks_of_row hne rfl, (hassigning hnone.2).inExpr⟩
  | assigned s s' s'' x t op =>
      rw [List.forall_mem_singleton] at hnone
      refine everywhere_exprStmt.2 ⟨lacks_of_row hne rfl, (everywhere_assign.2
        ⟨lacks_of_row hne rfl, ?_, (hassigning hnone).inExpr⟩).inExpr⟩
      exact (everywhere_ident.2 (lacks_of_row hne rfl)).inExpr
  | evaluated s =>
      rw [List.forall_mem_singleton] at hnone
      obtain ⟨_, htest, honTrue, honFalse⟩ := everywhere_branch.1 hnone
      exact everywhere_exprStmt.2 ⟨lacks_of_row hne rfl, (hcond ⟨htest,
        (everywhere_exprStmt.1 ((inStmt_iff rfl).1 honTrue)).2,
        (everywhere_exprStmt.1 ((inStmt_iff rfl).1 honFalse)).2⟩).inExpr⟩
  | stored hheaded hexpr =>
      obtain ⟨slot, hslot⟩ := Option.isSome_iff_exists.1 (anchorSlot?_of_isHeaded hheaded)
      obtain ⟨Rest, hanchor⟩ := everywhere_anchor (P := Lacks ss) hslot
      rw [List.forall_mem_cons, List.forall_mem_cons, List.forall_mem_singleton] at hnone
      obtain ⟨_, _, hrest⟩ := (hanchor _).1 hnone.2.2
      rw [← withAnchorExpr_self (s := s) (by simp [hslot]), hexpr]
      refine (hanchor _).2 ⟨lacks_of_row hne ?_, (hassigning hnone.2.1).inExpr, hrest⟩
      cases s <;> first | rfl | cases hheaded

theorem Turn.shows {ns ns' : Names} {s : Stmt} {ts : List Temp} {new : List Stmt}
    (h : Turn o ns s ts new ns') (hs : Shows ss (.stmt s)) : ∃ t ∈ new, Shows ss (.stmt t) := by
  cases h with
  | lifted h => exact h.shows hne hs
  | @hoisted c slot ts v ns' hslot hclear hmoves =>
      obtain ⟨Rest, hshows⟩ := shows_anchor hne hslot
      have hself := hshows s.anchorExpr
      rw [withAnchorExpr_self (by simp [hslot])] at hself
      rcases hself.1 hs with ⟨hfilled, hexpr⟩ | hrest
      · rcases hmoves.shows hne hexpr with hv | ⟨t, ht, hshown⟩
        · refine ⟨s.withAnchorExpr v, by simp, (hshows v).2 (.inl ⟨?_, hv⟩)⟩
          rw [hclear.filled, hfilled]
        · exact ⟨t, by simp [ht], hshown⟩
      · exact ⟨s.withAnchorExpr v, by simp, (hshows v).2 (.inr hrest)⟩

theorem Row.shows {new : List Stmt} {mid : List Node} (h : Row new mid)
    (hnew : ∃ t ∈ new, t.isMissing = false ∧ Shows ss (.stmt t)) : ∃ n ∈ mid, Shows ss n := by
  obtain ⟨t, ht, hfilled, hshows⟩ := hnew
  cases h with
  | listed => exact ⟨.stmt t, List.mem_map_of_mem ht, hshows⟩
  | explicit =>
      exact ⟨.stmt t.explicit, List.mem_map.2 ⟨t, ht, rfl⟩, shows_explicit hne hshows⟩
  | block span =>
      refine ⟨_, List.mem_singleton.2 rfl, shows_children.2 (.inr ⟨.stmt t.explicit, ?_,
        shows_explicit hne hshows⟩)⟩
      have hfilled' : t.explicit.isMissing = false := by rw [isMissing_explicit, hfilled]
      simp only [children, slots, stmtSlots, Block.stmts, listed_nodes, List.mem_filterMap,
        List.mem_map]
      exact ⟨t.explicit, ⟨t, ht, rfl⟩, ofStmt?_of_filled hfilled'⟩

/-! ## Steps -/

/-- A list keeps statements that stand together when another of its statements gives way. -/
theorem spliceInto_row {parent changed : Node} {slot : Slot} {s : Stmt} {new : List Stmt}
    (hget : parent.get? slot = some (.stmt s)) (h : spliceInto parent slot s new = .ok changed)
    (hs : s ∉ ss) (hrow : ss <:+: parent.row) : ss <:+: changed.row := by
  have hparent : parent.row ≠ [] := by
    intro hnil
    rw [hnil] at hrow
    exact hne (List.infix_nil.1 hrow)
  obtain ⟨_, e, _, he⟩ | ⟨i, t, rfl, ht, hi⟩ := get?_row hget hparent
  · cases he
  · cases ht
    unfold spliceInto at h
    split at h
    next heq =>
      cases heq
      cases h
      exact infix_spliceEntry hrow hi hs
    next heq =>
      cases heq
      split at h
      next hone =>
        obtain ⟨t, rfl⟩ := List.length_eq_one_iff.1 hone
        have hi : [t][i]? = some s := hi
        have hrow : ss <:+: [t] := hrow
        obtain rfl : t = s := by
          have hlt := (List.getElem?_eq_some_iff.1 hi).1
          simp only [List.length_cons, List.length_nil, Nat.zero_add, Nat.lt_one_iff] at hlt
          subst hlt
          simpa using hi
        rcases infix_of_not_mem (show ss <:+: [] ++ t :: [] from hrow) hs with h | h
        · exact absurd (List.infix_nil.1 h) hne
        · exact absurd (List.infix_nil.1 h) hne
      next => cases h
    next heq =>
      cases heq
      cases h
      exact infix_spliceEntry hrow hi hs
    next =>
      simp only [replaceChild, hget, isOperand, if_true] at h
      split at h
      next hset =>
        cases h
        rcases row_set hset with heq | ⟨j, t, hj, heq⟩
        · rwa [heq]
        · cases hj
          rw [heq]
          exact infix_set hrow hi hs
      next => cases h

/-- A list with an entry that has a site keeps statements without one when the entry changes. -/
theorem row_live (hdead : ∀ t ∈ ss, isLive o (.stmt t) = false) {a a' c c' : Node} {slot : Slot}
    (hlive : isLive o c = true) (hget : a.get? slot = some c) (hset : a.set? slot c' = some a')
    (hrow : ss <:+: a.row) : ss <:+: a'.row := by
  have hlists : a.row ≠ [] := by
    intro hnil
    rw [hnil] at hrow
    exact hne (List.infix_nil.1 hrow)
  rcases row_set hset with heq | ⟨i, t, rfl, heq⟩
  · rwa [heq]
  · obtain ⟨j, e, hj, _⟩ | ⟨j, s, hj, rfl, hi⟩ := get?_row hget hlists
    · cases hj
    · cases hj
      rw [heq]
      refine infix_set hrow hi fun hmem => ?_
      rw [hdead s hmem] at hlive
      cases hlive

theorem shows_live (hdead : ∀ t ∈ ss, isLive o (.stmt t) = false) {old new n n' : Node}
    (hlive : isLive o old = true) (h : Swap (fun n => isLive o n = true) old new n n')
    (hfilled : new.isFilled = true) (hstep : Shows ss old -> Shows ss new) (hn : Shows ss n) :
    Shows ss n' := by
  refine (shows_swap (Q := False) h hfilled ?_ (fun hold => .inl (hstep hold)) hn).resolve_right id
  intro a a' c c' slot _ hc hget hset hrow
  refine row_live hne hdead ?_ hget hset hrow
  rcases hc with rfl | hc
  · exact hlive
  · exact hc

theorem shows_wrapped {s : Span} {ps : List Param} {e : Expr}
    (h : Shows ss (.expr (.lambda s ps (.value e)))) :
    Shows ss (.expr (.lambda s ps (.block (.mk e.span [.ret e.span e])))) := by
  by_contra hnone
  refine not_shows.2 ?_ h
  rw [not_shows, everywhere_iff] at hnone
  rw [everywhere_iff]
  simp only [slots, exprSlots, bodySlot, List.forall_mem_append, List.forall_mem_singleton,
    forall_single] at hnone ⊢
  refine ⟨lacks_of_row hne rfl, hnone.2.1, ?_⟩
  have hret := (everywhere_block.1 hnone.2.2).2 _ (List.mem_singleton.2 rfl)
  have hvalue := (everywhere_iff.1 ((inStmt_iff rfl).1 hret)).2
  simpa only [slots, stmtSlots, forall_single] using hvalue

/-- A step keeps statements without a site together. -/
theorem Turns.shows (hdead : ∀ t ∈ ss, isLive o (.stmt t) = false) {w w' : Work} {ts : List Temp}
    (h : Turns o w ts w') (hs : Shows ss w.root) : Shows ss w'.root := by
  cases h with
  | @wrapped p s ps e root' hat hfilled hlive hput =>
      have hlambda : isLive o (.expr (.lambda s ps (.value e))) = true :=
        isLive_of_at (p := [.body]) (by simp [at?, get?_lambdaValue s ps hfilled]) hlive
      exact shows_live hne hdead hlambda (swap_live hat hput hlambda) rfl (shows_wrapped hne) hs
  | @turned p slot parent s ts new names root' hp hparent hget hlive hfilled hturn hsplice =>
      have hat : w.root.at? (p ++ [slot]) = some (.stmt s) := at?_concat_eq_some.2 ⟨_, hp, hget⟩
      obtain ⟨p', slot', parent', changed, heq, hp', hget', hinto, hput⟩ := splice_ok hat hsplice
      have habove : isLive o parent' = true :=
        isLive_of_at (p := [slot']) (by simp [at?, hget']) hlive
      have hmem : s ∉ ss := by
        intro hmem
        rw [hdead s hmem] at hlive
        cases hlive
      refine shows_live hne hdead habove (swap_live hp' hput habove) (spliceInto_face hinto).2
        (fun hold => ?_) hs
      obtain ⟨l, mid, r, hslots, hchildren, hrow⟩ := spliceInto_children hget' hfilled hinto
      rw [shows_children, hchildren]
      rcases shows_iff.1 hold with hown | ⟨x, hx, hshows⟩
      · exact .inl (spliceInto_row hne hget' hinto hmem hown)
      · right
        rw [hslots, List.mem_append, List.mem_cons] at hx
        rcases hx with hx | rfl | hx
        · exact ⟨x.2, by simp [List.mem_map_of_mem hx], hshows⟩
        · obtain ⟨t, ht, hshown⟩ := hturn.shows hne hshows
          obtain ⟨n, hn, hshown⟩ := hrow.shows hne ⟨t, ht, hfilled t ht, hshown⟩
          exact ⟨n, by simp [hn], hshown⟩
        · exact ⟨x.2, by simp [List.mem_map_of_mem hx], hshows⟩

end Rows

/-! ## Tests -/

theorem Move.dead {o : Options} (ho : o.Apart) {c : Setting} {x : String} {a b : Expr} {t : Temp}
    (h : Move o c x a t b) : ∀ s ∈ t.statements, isLive o (.stmt s) = false := by
  have hall {k : Nat} {ss : List Stmt} (h : Tidy o c.exit k ss) :
      ∀ s ∈ ss, isLive o (.stmt s) = false := by
    simpa [anyLiveStmt] using h.dead
  cases h with
  | spilled _ _ _ _ _ hdead => exact hall (tidy_var hdead)
  | hoisted hkind hdead => exact hall (tidy_guard ho hkind hdead)
  | kept _ _ _ hdead => exact hall (tidy_var hdead)

theorem Moves.dead {o : Options} (ho : o.Apart) {c : Setting} {ns ns' : Names} {a v : Expr}
    {ts : List Temp} (h : Moves o c ns a ts v ns') :
    ∀ t ∈ ts, ∀ s ∈ t.statements, isLive o (.stmt s) = false := by
  induction h with
  | none => simp
  | more h _ ih =>
      rw [List.forall_mem_cons]
      exact ⟨h.dead ho, ih⟩

theorem shows_of_swap {via : Node -> Prop} {ss : List Stmt} {old new n n' : Node}
    (h : Swap via old new n n') (hfilled : new.isFilled = true) (hnew : Shows ss new) :
    Shows ss n' := by
  induction h with
  | here => exact hnew
  | @under n n' c c' slot _ hget hset hbelow ih =>
      obtain ⟨before, after, _, hslots', _⟩ := slots_set_split hget (hbelow.isFilled hfilled) hset
      exact shows_iff.2 (.inr ⟨(slot, c'), by simp [hslots'], ih⟩)

/-- Several statements that are spliced in are listed one behind the other. -/
theorem spliceInto_shows {parent changed : Node} {slot : Slot} {s : Stmt} {new : List Stmt}
    (hget : parent.get? slot = some (.stmt s)) (h : spliceInto parent slot s new = .ok changed)
    (hseveral : new.length ≠ 1) : Shows (new.map Stmt.explicit) changed := by
  have hblock (span : Span) (ss : List Stmt) : Shows ss (.stmt (.block (.mk span ss))) :=
    shows_iff.2 (.inl (List.infix_refl ss))
  unfold spliceInto at h
  split at h
  · cases h
    exact shows_iff.2 (.inl ⟨_, _, rfl⟩)
  · split at h <;> cases h
    refine shows_children.2 (.inr ⟨_, ?_, hblock s.span _⟩)
    simp [children, slots, Case.labels, Case.body, listed, ofStmt?]
  · cases h
    rw [if_neg hseveral]
    exact shows_iff.2 (.inl ⟨_, _, rfl⟩)
  · simp only [replaceChild, hget, isOperand, if_true, if_neg hseveral] at h
    have hone : asOne s.span (new.map Stmt.explicit) =
        .block (.mk s.span (new.map Stmt.explicit)) := by
      cases new with
      | nil => rfl
      | cons t rest =>
          cases rest with
          | nil => exact absurd rfl hseveral
          | cons u rest => rfl
    rw [hone] at h
    split at h
    next hset =>
      cases h
      obtain ⟨before, after, _, hslots', _⟩ := slots_set_split hget rfl hset
      exact shows_iff.2 (.inr ⟨(slot, _), by rw [hslots']; simp, hblock s.span _⟩)
    next => cases h

theorem infix_flatMap {f : α -> List β} {l : List α} {a : α} (h : a ∈ l) : f a <:+: l.flatMap f := by
  obtain ⟨pre, post, rfl⟩ := List.append_of_mem h
  exact ⟨pre.flatMap f, post.flatMap f, by simp⟩

theorem Temp.explicit_statements (t : Temp) : t.statements.map Stmt.explicit = t.statements := by
  cases t <;> rfl

/-- The statements of a temporary are among others, and the statement they are for comes last. -/
theorem Turn.temp {o : Options} (ho : o.Apart) {ns ns' : Names} {s : Stmt} {ts : List Temp}
    {new : List Stmt} (h : Turn o ns s ts new ns') {t : Temp} (ht : t ∈ ts) :
    t.statements <:+: new ∧ new.length ≠ 1 ∧ ∀ u ∈ t.statements, isLive o (.stmt u) = false := by
  have hsome (t : Temp) : 0 < t.statements.length := by
    cases t <;> simp [Temp.statements, Guard.statements, guardStatements]
  cases h with
  | lifted h =>
      unfold liftTemps at ht
      split at ht
      next hheaded =>
        obtain rfl := List.mem_singleton.1 ht
        cases h with
        | stored =>
            refine ⟨⟨[], _, rfl⟩, by simp, ?_⟩
            simp [Temp.statements]
        | exit hleaves =>
            rw [isHeaded_of_leaves hleaves] at hheaded
            cases hheaded
        | _ => cases hheaded
      next => cases ht
  | @hoisted c slot ts v ns' hslot hclear hmoves =>
      have hamong : t.statements <:+: ts.flatMap Temp.statements := infix_flatMap ht
      refine ⟨hamong.trans (List.prefix_append _ _).isInfix, ?_, hmoves.dead ho t ht⟩
      have hlength := hamong.length_le
      have := hsome t
      simp only [List.length_append, List.length_cons, List.length_nil]
      omega

/-- The statements of a temporary are listed after the step that puts them in. -/
theorem Turns.shows_temp {o : Options} (ho : o.Apart) {w w' : Work} {ts : List Temp}
    (h : Turns o w ts w') {t : Temp} (ht : t ∈ ts) :
    Shows t.statements w'.root ∧ ∀ u ∈ t.statements, isLive o (.stmt u) = false := by
  cases h with
  | wrapped => cases ht
  | @turned p slot parent s ts new names root' hp hparent hget hlive hfilled hturn hsplice =>
      obtain ⟨hamong, hseveral, hdead⟩ := hturn.temp ho ht
      refine ⟨?_, hdead⟩
      have hat : w.root.at? (p ++ [slot]) = some (.stmt s) := at?_concat_eq_some.2 ⟨_, hp, hget⟩
      obtain ⟨p', _, parent', changed, _, hp', hget', hinto, hput⟩ := splice_ok hat hsplice
      obtain ⟨n, hn, hrow⟩ := spliceInto_shows hget' hinto hseveral
      have hmap := hamong.map Stmt.explicit
      rw [t.explicit_statements] at hmap
      exact shows_of_swap (swap_of_put hp' hput) (spliceInto_face hinto).2
        ⟨n, hn, hmap.trans hrow⟩

end Expansion

end EarlyExit
