import EarlyExit.Proofs.Document.Accepted
import EarlyExit.Proofs.Document.Returns
import EarlyExit.Proofs.Expansion.Temporaries

/-!
# Documents of expanded units

Every step of an expansion turns a tree that can be stored into one that can be stored:
the nodes it makes stand where the nodes were that they replace, and no place that needs
a node is left empty.  So the unit of a document and the unit that it is expanded to are
both read back from what is written of them.
-/

namespace EarlyExit.Document

open Node Expansion

variable {file : String}

/-! ## Changed children -/

theorem filled_set {l : List Expr} {i : Nat} {e : Expr} (h : ∀ x ∈ l, x.isMissing = false)
    (he : e.isMissing = false) : ∀ x ∈ l.set i e, x.isMissing = false := by
  intro x hx
  rcases List.mem_or_eq_of_mem_set hx with hx | rfl
  · exact h x hx
  · exact he

theorem filled_setStmt {l : List Stmt} {i : Nat} {s : Stmt} (h : ∀ x ∈ l, x.isMissing = false)
    (hs : s.isMissing = false) : ∀ x ∈ l.set i s, x.isMissing = false := by
  intro x hx
  rcases List.mem_or_eq_of_mem_set hx with hx | rfl
  · exact h x hx
  · exact hs

theorem keepsExpr_set {e e' : Expr} {slot : Slot} {c : Node} (h : keepsExpr e)
    (hfilled : c.isFilled = true) (hset : setExprSlot e slot c = some e') : keepsExpr e' := by
  unfold setExprSlot at hset
  split at hset
  all_goals simp only [Option.map_eq_some_iff, setEntry_eq_some, Option.some.injEq,
    reduceCtorEq] at hset
  all_goals first
    | subst hset
    | obtain ⟨_, ⟨_, rfl⟩, rfl⟩ := hset
  case h_17 => cases ‹Body› <;> exact h
  all_goals
    simp only [isFilled, Bool.not_eq_true'] at hfilled
    simp only [keepsExpr] at h ⊢
    try grind [filled_set]

theorem keepsStmt_set {s s' : Stmt} {slot : Slot} {old c : Node} (h : keepsStmt s)
    (hfilled : c.isFilled = true) (hget : (Node.stmt s).get? slot = some old)
    (hspan : ∀ b, old = ofBlock b -> c.span = old.span)
    (hset : setStmtSlot s slot c = some s') : keepsStmt s' := by
  rw [get?_eq_some] at hget
  unfold setStmtSlot at hset
  split at hset
  all_goals simp only [Option.map_eq_some_iff, setEntry_eq_some, Option.some.injEq,
    reduceCtorEq] at hset
  all_goals first
    | subst hset
    | obtain ⟨_, ⟨_, rfl⟩, rfl⟩ := hset
  case h_23 body _ _ _ | h_27 body _ =>
    have hbody : old = ofBlock body := by
      simpa [slots, stmtSlots, mem_listed, mem_single] using hget
    subst hbody
    exact ⟨h.1, (hspan body rfl).trans h.2⟩
  all_goals
    simp only [isFilled, Bool.not_eq_true'] at hfilled
    simp only [keepsStmt, Block.stmts] at h ⊢
    try grind [filled_set, filled_setStmt]

/-- A node with another child; a block has to stand in the same place as before. -/
theorem storable_set {a a' c c' : Node} {slot : Slot} (h : Storable file a)
    (hget : a.get? slot = some c) (hset : a.set? slot c' = some a') (hfilled : c'.isFilled = true)
    (hspan : ∀ b, c = ofBlock b -> c'.span = c.span) : Storable file a' ∧ a'.span = a.span := by
  have hsame : a'.span = a.span := by
    refine eq_of_bare (f := Node.span) (fun n => ?_) hset
    cases n <;> try rfl
    · cases ‹Stmt› <;> rfl
    · cases ‹Expr› <;> rfl
  refine ⟨?_, hsame⟩
  have hmem := get?_eq_some.1 hget
  unfold set? at hset
  split at hset
  all_goals simp only [Option.map_eq_some_iff, setEntry_eq_some, Option.some.injEq,
    reduceCtorEq] at hset
  all_goals first
    | subst hset
    | obtain ⟨_, ⟨_, rfl⟩, rfl⟩ := hset
    | obtain ⟨_, hset, rfl⟩ := hset
  case h_1 | h_2 | h_6 => exact h
  case h_3 m b =>
    obtain ⟨hs, hname, stmts, hbody⟩ := h
    have hold : c = ofBlock (.mk m.span stmts) := by
      simpa [slots, hbody, mem_listed, mem_single, eq_comm] using hmem
    subst hold
    obtain ⟨span, stmts'⟩ := b
    cases (hspan _ rfl : span = m.span)
    exact ⟨hs, hname, stmts', rfl⟩
  case h_4 => exact ⟨h.1, filled_set h.2.1 (by simpa [isFilled] using hfilled), h.2.2⟩
  case h_5 => exact ⟨h.1, h.2.1, filled_setStmt h.2.2 (by simpa [isFilled] using hfilled)⟩
  case h_7 body _ =>
    have hold : c = ofBlock body := by
      simpa [slots, mem_single, Catch.body] using hmem
    subst hold
    exact ⟨h.1, (hspan body rfl).trans h.2⟩
  case h_8 =>
    refine ⟨?_, keepsStmt_set h.2 hfilled hget hspan hset⟩
    rw [show Stmt.span _ = _ from hsame]
    exact h.1
  case h_9 =>
    refine ⟨?_, keepsExpr_set h.2 hfilled hset⟩
    rw [show Expr.span _ = _ from hsame]
    exact h.1

/-! ## Hoisting -/

theorem storable_member {s : Span} (hs : Placed file s) (x type member result : String) :
    Everywhere (Storable file) (.expr (.call s (.ident s x type) member [] result)) :=
  everywhere_call.2 ⟨⟨hs, by simp [keepsExpr]⟩,
    (everywhere_ident.2 ⟨hs, trivial⟩).inExpr, by simp⟩

theorem storable_reconstruct {s : Span} (hs : Placed file s) (kind : Kind) (x type : String) :
    Everywhere (Storable file) (.expr (kind.reconstruct (.ident s x type) s)) := by
  refine everywhere_call.2 ⟨⟨hs, ?_⟩, (everywhere_ident.2 ⟨hs, trivial⟩).inExpr, ?_⟩
  · intro a ha
    split at ha
    · cases ha
    · rw [List.mem_singleton.1 ha]
      rfl
  · intro a ha
    split at ha
    · cases ha
    · rw [List.mem_singleton.1 ha]
      exact (storable_member hs x type _ _).inExpr

theorem storable_exit {s : Span} (hs : Placed file s) (exit : Exit) (kind : Kind)
    (x type : String) : Everywhere (Storable file)
      (.stmt (exit.statement (kind.reconstruct (.ident s x type) s))) := by
  have hvalue := storable_reconstruct hs kind x type
  cases exit
  all_goals
    refine everywhere_iff.2 ⟨⟨hs, by trivial⟩, ?_⟩
    simp only [Exit.statement, slots, stmtSlots, forall_single]
    exact hvalue.inExpr

theorem storable_guard {g : Guard} (hs : Placed file g.span)
    (h : Everywhere (Storable file) (.expr g.receiver)) :
    ∀ s ∈ g.statements, Everywhere (Storable file) (.stmt s) := by
  have hblock : Everywhere (Storable file) (.stmt (.block (.mk g.span
      [g.exit.statement (g.kind.reconstruct (.ident g.span g.name g.type) g.span)]))) := by
    refine everywhere_block.2 ⟨⟨hs, ?_⟩, ?_⟩
    · cases hexit : g.exit <;> simp [keepsStmt, Block.stmts, Exit.statement, Stmt.isMissing]
    · rw [List.forall_mem_singleton]
      exact (storable_exit hs g.exit g.kind g.name g.type).inStmt
  simp only [Guard.statements, guardStatements, List.forall_mem_cons]
  refine ⟨everywhere_var.2 ⟨⟨hs, trivial⟩, h.inExpr⟩, ?_, by simp⟩
  exact everywhere_branch.2 ⟨⟨hs, rfl, rfl⟩, (storable_member hs _ _ _ _).inExpr, hblock.inStmt,
    inStmt_missing _⟩

/-- What a changed operand leaves storable around it. -/
theorem storable_swap {via : Node -> Prop} {a b n n' : Node} (h : Everywhere (Storable file) n)
    (hswap : Swap via a b n n') (hb : Everywhere (Storable file) b) (hfilled : b.isFilled = true)
    (hspan : b.span = a.span) : Everywhere (Storable file) n' :=
  (everywhere_swap (R := fun c c' => c'.span = c.span) h hswap hb hfilled hspan
    fun _ hP hget hset hfilled hR => storable_set hP hget hset hfilled fun _ _ => hR).1

theorem storable_applied {op applied : Operator} (h : op.applied? = some applied) :
    Operator.ofText applied.text = applied := by
  cases op <;> cases h <;> decide

theorem Move.storable {o : Options} {c : Setting} {x : String} {a b : Expr} {t : Temp}
    (h : Move o c x a t b) (ha : Everywhere (Storable file) (.expr a)) :
    Everywhere (Storable file) (.expr b) ∧
      ∀ s ∈ t.statements, Everywhere (Storable file) (.stmt s) := by
  cases h with
  | @spilled _ p p' e slot hget hset _ _ _ _ _ hswap =>
      have hp := ha.old hswap
      have he := hp.child hget
      have hident : Everywhere (Storable file) (.expr (.ident e.span x e.staticType)) :=
        everywhere_ident.2 ⟨he.self.1, trivial⟩
      obtain ⟨hself, hspan⟩ := storable_set hp.self hget hset rfl fun _ _ => rfl
      have hp' := everywhere_set hp hget hset rfl hself hident
      refine ⟨storable_swap ha hswap hp' (isFilled_set hset) hspan, ?_⟩
      simp only [Temp.statements, List.forall_mem_singleton]
      exact everywhere_var.2 ⟨⟨he.self.1, trivial⟩, he.inExpr⟩
  | @hoisted _ receiver s type kind hkind _ hswap =>
      have hcall := ha.old hswap
      have hfilled : receiver.isMissing = false := by
        cases receiver <;> simp_all [Registry.resolve, Expr.staticType, Expr.isMissing]
      have hreceiver := (inExpr_iff hfilled).1 (everywhere_call.1 hcall).2.1
      have hs : Placed file s := hcall.self.1
      exact ⟨storable_swap ha hswap (storable_member hs x _ _ _) rfl rfl,
        storable_guard hs hreceiver⟩
  | @kept _ t value s op applied happlied _ _ _ _ hswap =>
      have hassign := ha.old hswap
      obtain ⟨⟨hs, htfilled, hvfilled, _⟩, htarget, hvalue⟩ := everywhere_assign.1 hassign
      have ht := (inExpr_iff htfilled).1 htarget
      have hbinary : Everywhere (Storable file)
          (.expr (.binary s (.ident t.span x t.staticType) applied value)) :=
        everywhere_binary.2 ⟨⟨hs, rfl, hvfilled, storable_applied happlied⟩,
          (everywhere_ident.2 ⟨ht.self.1, trivial⟩).inExpr, hvalue⟩
      have hnew : Everywhere (Storable file) (.expr (.assign s t .assign
          (.binary s (.ident t.span x t.staticType) applied value))) :=
        everywhere_assign.2 ⟨⟨hs, htfilled, rfl, by decide⟩, htarget, hbinary.inExpr⟩
      refine ⟨storable_swap ha hswap hnew rfl rfl, ?_⟩
      simp only [Temp.statements, List.forall_mem_singleton]
      exact everywhere_var.2 ⟨⟨ht.self.1, trivial⟩, htarget⟩

theorem Moves.storable {o : Options} {c : Setting} {ns ns' : Names} {a v : Expr} {ts : List Temp}
    (h : Moves o c ns a ts v ns') (ha : Everywhere (Storable file) (.expr a)) :
    Everywhere (Storable file) (.expr v) ∧
      ∀ s ∈ ts.flatMap Temp.statements, Everywhere (Storable file) (.stmt s) := by
  induction h with
  | none => exact ⟨ha, by simp⟩
  | more hmove _ ih =>
      obtain ⟨hb, ht⟩ := Move.storable hmove ha
      obtain ⟨hv, hts⟩ := ih hb
      simp only [List.flatMap_cons, List.forall_mem_append]
      exact ⟨hv, ht, hts⟩

/-! ## Lifting -/

theorem storable_assigning {cond : Conditional} {s : Span} {x type : String} {op : Operator}
    (hop : assignOperator op.text = op) (hs : Placed file s)
    (h : Everywhere (Storable file) (.expr cond.expr)) :
    Everywhere (Storable file) (.stmt (cond.assigning (.ident s x type) op)) := by
  obtain ⟨⟨hspan, htest, honTrue, honFalse⟩, hparts⟩ := everywhere_conditional.1 h
  have hone {value : Expr} (hfilled : value.isMissing = false)
      (hvalue : InExpr (Storable file) value) : Everywhere (Storable file)
        (.stmt (.expr value.span (.assign value.span (.ident s x type) op value))) := by
    have hself := ((inExpr_iff hfilled).1 hvalue).self
    exact everywhere_exprStmt.2 ⟨⟨hself.1, rfl⟩, (everywhere_assign.2
      ⟨⟨hself.1, rfl, hfilled, hop⟩, (everywhere_ident.2 ⟨hs, trivial⟩).inExpr, hvalue⟩).inExpr⟩
  exact everywhere_branch.2 ⟨⟨hspan, htest, rfl⟩, hparts.1, (hone honTrue hparts.2.1).inStmt,
    (hone honFalse hparts.2.2).inStmt⟩

/-- An anchor with another expression in its slot. -/
theorem storable_anchor {s : Stmt} (hslot : s.anchorSlot?.isSome = true)
    (h : Storable file (.stmt s)) {v : Expr} (hfilled : v.isMissing = false) :
    Storable file (.stmt (s.withAnchorExpr v)) := by
  obtain ⟨hs, hkeeps⟩ := h
  cases s with
  | ret | var => exact ⟨hs, trivial⟩
  | throw | yield | expr | switch => exact ⟨hs, hfilled⟩
  | branch | sync | forEach => exact ⟨hs, hfilled, hkeeps.2⟩
  | _ => cases hslot

theorem storable_explicit {s : Stmt} (h : Everywhere (Storable file) (.stmt s)) :
    Everywhere (Storable file) (.stmt s.explicit) := by
  refine everywhere_explicit (fun s hs => ?_) h
  cases s <;> exact hs

theorem Lifted.storable {cond : Conditional} {ns ns' : Names} {s : Stmt} {new : List Stmt}
    (h : Lifted cond ns s new ns') (hstmt : Everywhere (Storable file) (.stmt s)) :
    ∀ t ∈ new, Everywhere (Storable file) (.stmt t) := by
  have hs : Placed file s.span := hstmt.self.1
  have hvar {span : Span} (hspan : Placed file span) (x type : String) :
      Everywhere (Storable file) (.stmt (.var span x type .missing)) :=
    everywhere_var.2 ⟨⟨hspan, trivial⟩, inExpr_missing _⟩
  have hbranch (h : Everywhere (Storable file) (.expr cond.expr)) {onTrue onFalse : Stmt}
      (honTrue : Everywhere (Storable file) (.stmt onTrue))
      (honFalse : Everywhere (Storable file) (.stmt onFalse))
      (hfilled : onTrue.isMissing = false) :
      Everywhere (Storable file) (.stmt (cond.branches onTrue onFalse)) := by
    obtain ⟨⟨hspan, htest, _⟩, hparts⟩ := everywhere_conditional.1 h
    exact everywhere_branch.2 ⟨⟨hspan, htest, hfilled⟩, hparts.1, honTrue.inStmt, honFalse.inStmt⟩
  cases h with
  | exit hleaves hexpr =>
      have hslot := anchorSlot?_of_leaves hleaves
      have hone {v : Expr} (hfilled : v.isMissing = false) (hv : InExpr (Storable file) v) :
          Everywhere (Storable file) (.stmt (s.withAnchorExpr v).explicit) :=
        storable_explicit ((everywhere_leaves hleaves).2
          ⟨storable_anchor hslot hstmt.self hfilled, hv⟩)
      rw [← withAnchorExpr_self hslot, hexpr] at hstmt
      have hcond := (inExpr_iff rfl).1 ((everywhere_leaves hleaves).1 hstmt).2
      obtain ⟨⟨_, _, honTrue, honFalse⟩, hparts⟩ := everywhere_conditional.1 hcond
      rw [List.forall_mem_singleton]
      refine hbranch hcond (hone honTrue hparts.2.1) (hone honFalse hparts.2.2) ?_
      rw [isMissing_explicit, isMissing_withAnchorExpr]
      cases s <;> first | rfl | cases hleaves
  | declared s name type type' =>
      have hcond := (inExpr_iff rfl).1 (everywhere_var.1 hstmt).2
      simp only [List.forall_mem_cons]
      exact ⟨hvar hs name type', storable_assigning (by decide) hs hcond, by simp⟩
  | assigned s s' s'' x t op =>
      obtain ⟨⟨_, _, _, hop⟩, htarget, hvalue⟩ := everywhere_assign.1
        ((inExpr_iff rfl).1 (everywhere_exprStmt.1 hstmt).2)
      rw [List.forall_mem_singleton]
      exact storable_assigning hop ((inExpr_iff rfl).1 htarget).self.1 ((inExpr_iff rfl).1 hvalue)
  | evaluated s =>
      have hcond := (inExpr_iff rfl).1 (everywhere_exprStmt.1 hstmt).2
      obtain ⟨⟨_, _, honTrue, honFalse⟩, hparts⟩ := everywhere_conditional.1 hcond
      have hone {value : Expr} (hfilled : value.isMissing = false)
          (hvalue : InExpr (Storable file) value) :
          Everywhere (Storable file) (.stmt (.expr value.span value)) :=
        everywhere_exprStmt.2 ⟨⟨((inExpr_iff hfilled).1 hvalue).self.1, hfilled⟩, hvalue⟩
      rw [List.forall_mem_singleton]
      exact hbranch hcond (hone honTrue hparts.2.1) (hone honFalse hparts.2.2) rfl
  | stored hheaded hexpr =>
      obtain ⟨slot, hslot⟩ := Option.isSome_iff_exists.1 (anchorSlot?_of_isHeaded hheaded)
      obtain ⟨Rest, hanchor⟩ := everywhere_anchor (P := Storable file) hslot
      have hself := hstmt.self
      rw [← withAnchorExpr_self (s := s) (by simp [hslot]), hexpr] at hstmt
      obtain ⟨_, hvalue, hrest⟩ := (hanchor _).1 hstmt
      have hcond := (inExpr_iff rfl).1 hvalue
      have hspan : Placed file cond.span := hcond.self.1
      simp only [List.forall_mem_cons]
      exact ⟨hvar hspan _ _, storable_assigning (by decide) hspan hcond,
        (hanchor _).2 ⟨storable_anchor (by simp [hslot]) hself rfl,
          (everywhere_ident.2 ⟨hspan, trivial⟩).inExpr, hrest⟩, by simp⟩

/-! ## Steps -/

theorem Turn.storable {o : Options} {ns ns' : Names} {s : Stmt} {ts : List Temp} {new : List Stmt}
    (h : Turn o ns s ts new ns') (hs : Everywhere (Storable file) (.stmt s)) :
    ∀ t ∈ new, Everywhere (Storable file) (.stmt t) := by
  cases h with
  | lifted h => exact Lifted.storable h hs
  | @hoisted c slot ts v ns' hslot hclear hmoves =>
      cases hmoves with
      | none =>
          rw [withAnchorExpr_self (by simp [hslot])]
          simpa using hs
      | more hmove hmoves =>
          obtain ⟨Rest, hanchor⟩ := everywhere_anchor (P := Storable file) hslot
          have hself := hs
          rw [← withAnchorExpr_self (s := s) (by simp [hslot])] at hself
          obtain ⟨_, hexpr, hrest⟩ := (hanchor _).1 hself
          obtain ⟨hv, hnew⟩ :=
            Moves.storable (.more hmove hmoves) ((inExpr_iff hmove.filled).1 hexpr)
          have hfilled : v.isMissing = false := by
            cases v <;> first | rfl | exact hv.self.2.elim
          rw [List.forall_mem_append, List.forall_mem_singleton]
          exact ⟨hnew, (hanchor v).2
            ⟨storable_anchor (by simp [hslot]) hs.self hfilled, hv.inExpr, hrest⟩⟩

theorem everywhere_arm {P : Node -> Prop} {s : Span} {labels : List Expr} {arrow : Bool}
    {body : List Stmt} : Everywhere P (.arm (.mk s labels arrow body)) ↔
      P (.arm (.mk s labels arrow body)) ∧ (∀ e ∈ labels, InExpr P e) ∧ ∀ t ∈ body, InStmt P t := by
  rw [everywhere_iff]
  simp only [slots, Case.labels, Case.body, List.forall_mem_append, forall_listed]
  rfl

/-- A list of statements with new ones for one of its own. -/
theorem spliceEntry_forall {P : Stmt -> Prop} {l new : List Stmt} {i : Nat} (hl : ∀ t ∈ l, P t)
    (hnew : ∀ t ∈ new, P t) : ∀ t ∈ spliceEntry l i new, P t := by
  intro t ht
  simp only [spliceEntry, List.mem_append] at ht
  rcases ht with (ht | ht) | ht
  · exact hl t (List.mem_of_mem_take ht)
  · exact hnew t ht
  · exact hl t (List.mem_of_mem_drop ht)

/-- Statements spliced into a node in the place of one that is no block. -/
theorem storable_splice {parent changed : Node} {slot : Slot} {s : Stmt} {new : List Stmt}
    (h : Everywhere (Storable file) parent) (hget : parent.get? slot = some (.stmt s))
    (hslot : s.anchorSlot?.isSome = true) (hfilled : ∀ t ∈ new, t.isMissing = false)
    (hnew : ∀ t ∈ new, Everywhere (Storable file) (.stmt t))
    (hinto : spliceInto parent slot s new = .ok changed) :
    Everywhere (Storable file) changed ∧ changed.span = parent.span := by
  have hexplicit : ∀ t ∈ new.map Stmt.explicit,
      t.isMissing = false ∧ Everywhere (Storable file) (.stmt t) := by
    simp only [List.forall_mem_map, isMissing_explicit]
    exact fun t ht => ⟨hfilled t ht, storable_explicit (hnew t ht)⟩
  have hblock {ss : List Stmt}
      (hss : ∀ t ∈ ss, t.isMissing = false ∧ Everywhere (Storable file) (.stmt t)) :
      Everywhere (Storable file) (.stmt (.block (.mk s.span ss))) :=
    everywhere_block.2 ⟨⟨(h.child hget).self.1, fun t ht => (hss t ht).1⟩,
      fun t ht => (hss t ht).2.inStmt⟩
  have heither : ∀ t ∈ (if new.length = 1 then new else new.map Stmt.explicit),
      t.isMissing = false ∧ Everywhere (Storable file) (.stmt t) := by
    split
    · exact fun t ht => ⟨hfilled t ht, hnew t ht⟩
    · exact hexplicit
  unfold spliceInto at hinto
  split at hinto
  next =>
    cases hinto
    obtain ⟨⟨hs, hkeeps⟩, hstmts⟩ := everywhere_block.1 h
    exact ⟨everywhere_block.2 ⟨⟨hs, spliceEntry_forall hkeeps fun t ht => (hexplicit t ht).1⟩,
      spliceEntry_forall hstmts fun t ht => (hexplicit t ht).2.inStmt⟩, rfl⟩
  next =>
    split at hinto
    · cases hinto
      obtain ⟨⟨hs, hlabels, _⟩, hin, _⟩ := everywhere_arm.1 h
      refine ⟨everywhere_arm.2 ⟨⟨hs, hlabels, ?_⟩, hin, ?_⟩, rfl⟩
      · simp [Case.body, Stmt.isMissing]
      · rw [List.forall_mem_singleton]
        exact (hblock hexplicit).inStmt
    · cases hinto
  next =>
    cases hinto
    obtain ⟨⟨hs, hlabels, hbody⟩, hin, hstmts⟩ := everywhere_arm.1 h
    exact ⟨everywhere_arm.2 ⟨⟨hs, hlabels, spliceEntry_forall hbody fun t ht => (heither t ht).1⟩,
      hin, spliceEntry_forall hstmts fun t ht => (heither t ht).2.inStmt⟩, rfl⟩
  next =>
    generalize hrow : (if new.length = 1 then new else new.map Stmt.explicit) = row at *
    have hone : (asOne s.span row).isMissing = false ∧
        Everywhere (Storable file) (.stmt (asOne s.span row)) := by
      unfold asOne
      split
      next t => exact heither t (by simp)
      next => exact ⟨rfl, hblock heither⟩
    simp only [replaceChild, hget, isOperand, if_true] at hinto
    split at hinto
    next hset =>
      cases hinto
      have hfilled' : (Node.stmt (asOne s.span row)).isFilled = true := by simp [isFilled, hone.1]
      obtain ⟨hself, hspan⟩ := storable_set h.self hget hset hfilled' (by
        rintro b hb
        cases hb
        cases hslot)
      exact ⟨everywhere_set h hget hset hfilled' hself hone.2, hspan⟩
    next => cases hinto

theorem Turn.anchored {o : Options} {ns ns' : Names} {s : Stmt} {ts : List Temp} {new : List Stmt}
    (h : Turn o ns s ts new ns') : s.anchorSlot?.isSome = true := by
  cases h with
  | lifted h => exact h.anchored
  | hoisted hslot => simp [hslot]

/-- A step keeps a tree that can be stored. -/
theorem Turns.storable {o : Options} {w w' : Work} {ts : List Temp} (h : Turns o w ts w')
    (hroot : Everywhere (Storable file) w.root) : Everywhere (Storable file) w'.root := by
  cases h with
  | @wrapped p s ps e root' hat hfilled _ hput =>
      have hlambda := hroot.at? hat
      have he : Placed file e.span :=
        (hlambda.child (get?_lambdaValue s ps hfilled)).self.1
      have hbody : Everywhere (Storable file)
          (.expr (.lambda s ps (.block (.mk e.span [.ret e.span e])))) :=
        everywhere_wrapped hlambda ⟨hlambda.self.1, trivial⟩
          ⟨he, by simp [keepsStmt, Block.stmts, Stmt.isMissing]⟩ ⟨he, trivial⟩
      exact storable_swap hroot (swap_of_put hat hput) hbody rfl rfl
  | @turned p slot parent s ts new names root' hp _ hget _ hfilled hturn hsplice =>
      have hat : w.root.at? (p ++ [slot]) = some (.stmt s) := at?_concat_eq_some.2 ⟨_, hp, hget⟩
      have hnew := Turn.storable hturn (hroot.at? hat)
      obtain ⟨p', slot', parent', changed, _, hp', hget', hinto, hput⟩ := splice_ok hat hsplice
      have hparent := hroot.at? hp'
      obtain ⟨hchanged, hspan⟩ :=
        storable_splice hparent hget' (Turn.anchored hturn) hfilled hnew hinto
      exact storable_swap hroot (swap_of_put hp' hput) hchanged (spliceInto_face hinto).2 hspan

theorem TurnsAll.storable {o : Options} {w w' : Work} {ts : List Temp} (h : TurnsAll o w ts w')
    (hroot : Everywhere (Storable file) w.root) : Everywhere (Storable file) w'.root := by
  induction h with
  | none => exact hroot
  | more h _ ih => exact ih (Turns.storable h hroot)

/-- An expansion of a unit that can be stored gives a unit that can be stored. -/
theorem storable_expanded {o : Options} (ho : o.Plain) {u v : CompilationUnit} {report : Report}
    (hu : Everywhere (Storable file) (.unit u)) (h : expand o u = .ok report)
    (hunit : report.unit? = some v) : Everywhere (Storable file) (.unit v) := by
  obtain ⟨k, w, htakes, _, hroot, _, _⟩ := expand_takes h hunit
  obtain ⟨ts, hturns⟩ := htakes.turns (apart_plain ho)
  rw [← hroot]
  exact TurnsAll.storable hturns hu

/--
The unit of a document without floats and with places that are not negative is read back from
what is written of it, and so is what it is expanded to, up to the places of lambda bodies.
-/
theorem read_write_expanded {name : String} {d : Data} {u : CompilationUnit} (hname : name ≠ "")
    (hd : d.everyPart isModest = true) (hread : read name d = .ok u) :
    (∃ d', write u = .ok d' ∧ ∀ name', read name' d' = .ok u) ∧
      ∀ report v, expand {} u = .ok report -> report.unit? = some v ->
        ∃ d', write v = .ok d' ∧ (∀ name', read name' d' = .ok v.seated) ∧
          (Node.unit v.seated).print = (Node.unit v).print := by
  obtain ⟨hu, hseated⟩ := read_sound hname hd hread
  constructor
  · have hback := unit_read hu
    rw [hseated] at hback
    exact hback
  · intro report v hexpand hunit
    have hv := storable_expanded ⟨rfl, rfl⟩ hu hexpand hunit
    obtain ⟨d', hwrite, hback⟩ := unit_read hv
    exact ⟨d', hwrite, hback, Node.print_seated v⟩

/-- A document of `m() { return x -> f(x).unwrap(); }`; the value of the lambda stands on line 3. -/
def lambdaDocument : Data :=
  .map [("format", .str "1.0.0"), ("unit", .map [("file", .str "Lambda.java"), ("methods", .list [
    .map [("name", .str "m"), ("body", .list [.map [("kind", .str "return"), ("expr", .map [
      ("kind", .str "lambda"), ("line", .number "2"), ("col", .number "10"),
      ("params", .list [.map [("name", .str "x")]]),
      ("expr", .map [("kind", .str "call"), ("name", .str "unwrap"), ("line", .number "3"),
        ("recv", .map [("kind", .str "call"), ("name", .str "f"),
          ("type", .str "Either<String, Integer>"),
          ("args", .list [.map [("kind", .str "ident"), ("name", .str "x")]])])])])]])]])])]

def lambdaUnit : CompilationUnit where
  span := .point "Lambda.java" 1 1
  file := "Lambda.java"
  methods := [{
    name := "m"
    body := some (.mk .nowhere [.ret .nowhere (.lambda (.point "Lambda.java" 2 10)
      [⟨.nowhere, "x", ""⟩] (.value (.call (.point "Lambda.java" 3 1) (.call .nowhere .missing "f"
        [.ident .nowhere "x" ""] "Either<String, Integer>") "unwrap" [] "")))]) }]

theorem read_lambdaDocument : read "Other.java" lambdaDocument = .ok lambdaUnit := by
  refine read_single (d := lambdaDocument) ?_ checkFormat_current rfl ?_ rfl rfl ?_
  · decide +kernel
  · decide +kernel
  · cbv

theorem read_write_expanded_lambdaDocument :
    read "Other.java" lambdaDocument = .ok lambdaUnit ∧
      (∃ d', write lambdaUnit = .ok d' ∧ ∀ name', read name' d' = .ok lambdaUnit) ∧
      ∃ v, expanded? {} lambdaUnit = some v ∧
        ∃ d', write v = .ok d' ∧ ∀ name', read name' d' = .ok v.seated := by
  have hmodest : lambdaDocument.everyPart isModest = true := by decide +kernel
  have hsome : (expanded? {} lambdaUnit).isSome = true := by decide +kernel
  obtain ⟨v, hv⟩ := Option.isSome_iff_exists.1 hsome
  obtain ⟨report, hreport, hunit⟩ := expanded?_eq_some hv
  obtain ⟨hback, hexpanded⟩ := read_write_expanded (by decide) hmodest read_lambdaDocument
  obtain ⟨d', hwrite, hback', _⟩ := hexpanded report v hreport hunit
  exact ⟨read_lambdaDocument, hback, v, hv, d', hwrite, hback'⟩

end EarlyExit.Document
