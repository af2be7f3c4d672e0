import EarlyExit.Proofs.Document.Expanded

/-!
# Every else stays with its if

Printed without braces, an `else` belongs to the last `if` before it that can still take one.
A tree whose `if` statements never have such an `if` at the end of their first branch is
printed with every `else` where it belongs, and an expansion makes no other tree of it: the
rows it splices in end in an `if` that takes an `else` only where the statement they replace
does, and an `if` made of a conditional has a branch on both sides.
-/

namespace EarlyExit

/-- Whether an `else` after the statement would become a part of it. -/
def Stmt.takesElse : Stmt -> Bool
  | .branch _ _ _ onFalse => onFalse.isMissing || onFalse.takesElse
  | .forLoop _ _ _ _ body | .forEach _ _ _ _ body | .whileLoop _ _ body | .labeled _ _ body =>
      body.takesElse
  | _ => false

namespace Node

def takesElse : Node -> Bool
  | .stmt s => s.takesElse
  | _ => false

/-- Nothing between the `if` of the node and its `else` takes the `else` away. -/
def Attached : Node -> Prop
  | .stmt (.branch _ _ onTrue onFalse) => onFalse.isMissing = false -> onTrue.takesElse = false
  | _ => True

end Node

instance : DecidablePred Node.Attached := fun n =>
  match n with
  | .stmt (.branch _ _ onTrue onFalse) =>
      inferInstanceAs (Decidable (onFalse.isMissing = false -> onTrue.takesElse = false))
  | .stmt .missing | .stmt (.block _) | .stmt (.expr ..) | .stmt (.var ..) | .stmt (.ret ..)
  | .stmt (.throw ..) | .stmt (.yield ..) | .stmt (.forLoop ..) | .stmt (.forEach ..)
  | .stmt (.whileLoop ..) | .stmt (.doWhile ..) | .stmt (.switch ..) | .stmt (.tryCatch ..)
  | .stmt (.sync ..) | .stmt (.labeled ..) | .stmt (.breakTo ..) | .stmt (.continueTo ..)
  | .stmt (.assert ..) | .unit _ | .method _ | .param _ | .arm _ | .clause _ | .expr _ =>
      isTrue trivial

namespace Expansion

open Node Document

/-! ## Changed children -/

/-- A node keeps its `else` if the new child takes none that the old one leaves. -/
theorem attached_set {a a' c c' : Node} {slot : Slot} (h : Attached a) (hget : a.get? slot = some c)
    (hset : a.set? slot c' = some a') (hfilled : c'.isFilled = true)
    (hkeeps : c.takesElse = false -> c'.takesElse = false) :
    Attached a' ∧ (a.takesElse = false -> a'.takesElse = false) := by
  have hmem := get?_eq_some.1 hget
  unfold set? at hset
  split at hset
  all_goals simp only [Option.map_eq_some_iff, setEntry_eq_some, Option.some.injEq,
    reduceCtorEq] at hset
  case h_8 =>
    obtain ⟨s', hset, rfl⟩ := hset
    unfold setStmtSlot at hset
    split at hset
    all_goals simp only [Option.map_eq_some_iff, setEntry_eq_some, Option.some.injEq,
      reduceCtorEq] at hset
    all_goals first
      | subst hset
      | obtain ⟨_, ⟨_, rfl⟩, rfl⟩ := hset
    -- only an `if`, a label and the loops end with a statement that may take an `else`
    all_goals first
      | exact ⟨trivial, id⟩
      | simp [slots, stmtSlots, mem_single, mem_listed, ofStmt?_eq_some] at hmem
        simp_all [Attached, Node.takesElse, Stmt.takesElse, isFilled]
  all_goals
    first
      | subst hset
      | obtain ⟨_, ⟨_, rfl⟩, rfl⟩ := hset
      | obtain ⟨_, _, rfl⟩ := hset
    exact ⟨trivial, id⟩

/-! ## Hoisting -/

/-- A statement with every `else` in its place. -/
def Sound (s : Stmt) : Prop :=
  s.isMissing = false ∧ Everywhere Attached (.stmt s)

/-- From sound statements on, a hoisting emits sound statements and ends with such a value. -/
def Upholds (x : Hoisting α) (P : α -> Prop) : Prop :=
  ∀ d a d', x d = .ok a d' -> (∀ t ∈ d.prologue, Sound t) -> P a ∧ ∀ t ∈ d'.prologue, Sound t

namespace Upholds

theorem pure {a : α} {P : α -> Prop} (h : P a) : Upholds (Pure.pure a) P := by
  intro d a' d' hrun hd
  cases hrun
  exact ⟨h, hd⟩

theorem bind {x : Hoisting α} {f : α -> Hoisting β} {P : α -> Prop} {Q : β -> Prop}
    (hx : Upholds x P) (hf : ∀ a, P a -> Upholds (f a) Q) : Upholds (x >>= f) Q := by
  intro d b d'' hrun hd
  simp only [Bind.bind, EStateM.bind] at hrun
  split at hrun
  next a d' hfirst =>
    obtain ⟨ha, hd'⟩ := hx d a d' hfirst hd
    exact hf a ha d' b d'' hrun hd'
  next => cases hrun

theorem throw {defect : Defect} {P : α -> Prop} : Upholds (throw defect) P := by
  intro d a d' hrun
  cases hrun

theorem fresh : Upholds fresh fun _ => True := by
  intro d a d' hrun hd
  cases hrun
  exact ⟨trivial, hd⟩

theorem emit {ss : List Stmt} (h : ∀ t ∈ ss, Sound t) : Upholds (emit ss) fun _ => True := by
  intro d a d' hrun hd
  cases hrun
  exact ⟨trivial, List.forall_mem_append.2 ⟨hd, h⟩⟩

end Upholds

theorem attached_missing : Everywhere Attached (.expr .missing) := by
  rw [everywhere_iff]
  simp [Attached, slots, exprSlots]

theorem inExpr_attached {e : Expr} : InExpr Attached e ↔ Everywhere Attached (.expr e) := by
  cases hmissing : e.isMissing with
  | false => exact inExpr_iff hmissing
  | true =>
      obtain rfl := Expr.eq_missing hmissing
      simp [inExpr_missing, attached_missing]

theorem attached_ident (s : Span) (name type : String) :
    Everywhere Attached (.expr (.ident s name type)) :=
  everywhere_ident.2 trivial

theorem sound_var {s : Span} {name type : String} {e : Expr} (h : Everywhere Attached (.expr e)) :
    Sound (.var s name type e) :=
  ⟨rfl, everywhere_var.2 ⟨trivial, h.inExpr⟩⟩

theorem sound_exprStmt {s : Span} {e : Expr} (h : Everywhere Attached (.expr e)) :
    Sound (.expr s e) :=
  ⟨rfl, everywhere_exprStmt.2 ⟨trivial, h.inExpr⟩⟩

theorem sound_block {s : Span} {ss : List Stmt} (h : ∀ t ∈ ss, Sound t) :
    Sound (.block (.mk s ss)) :=
  ⟨rfl, everywhere_block.2 ⟨trivial, fun t ht => (h t ht).2.inStmt⟩⟩

theorem sound_exit (exit : Exit) {e : Expr} (h : Everywhere Attached (.expr e)) :
    Sound (exit.statement e) := by
  cases exit
  all_goals
    refine ⟨rfl, ?_⟩
    rw [Exit.statement, everywhere_iff]
    simp only [slots, stmtSlots, forall_single]
    exact ⟨trivial, h.inExpr⟩

theorem attached_member (s : Span) (x type member result : String) :
    Everywhere Attached (.expr (.call s (.ident s x type) member [] result)) :=
  everywhere_call.2 ⟨trivial, (attached_ident s x type).inExpr, by simp⟩

theorem attached_reconstruct (kind : Kind) (s : Span) (x type : String) :
    Everywhere Attached (.expr (kind.reconstruct (.ident s x type) s)) := by
  unfold Kind.reconstruct
  refine everywhere_call.2 ⟨trivial, (attached_ident s kind.name "").inExpr, fun a ha => ?_⟩
  split at ha
  · cases ha
  · rw [List.mem_singleton.1 ha]
    exact (attached_member s x type _ _).inExpr

/-- The test of a container has no `else`, and its branch is a block. -/
theorem sound_guard (exit : Exit) (kind : Kind) (s : Span) (name type : String) {receiver : Expr}
    (h : Everywhere Attached (.expr receiver)) :
    ∀ t ∈ guardStatements exit kind s name type receiver, Sound t := by
  simp only [guardStatements, List.forall_mem_cons]
  refine ⟨sound_var h, ⟨rfl, ?_⟩, by simp⟩
  refine everywhere_branch.2 ⟨by simp [Attached, Stmt.isMissing],
    (attached_member s name type _ _).inExpr, (sound_block ?_).2.inStmt, inStmt_missing _⟩
  rw [List.forall_mem_singleton]
  exact sound_exit exit (attached_reconstruct kind s name type)

abbrev UpholdsExpr (x : Hoisting Expr) : Prop :=
  Upholds x fun e => Everywhere Attached (.expr e)

theorem upholds_spill {e : Expr} (h : Everywhere Attached (.expr e)) : UpholdsExpr (spill e) := by
  refine Upholds.bind .fresh fun name _ => .bind (.emit ?_) fun _ _ => .pure (attached_ident _ _ _)
  rw [List.forall_mem_singleton]
  exact sound_var h

theorem upholds_settle {written : List String} {e : Expr} (h : Everywhere Attached (.expr e)) :
    UpholdsExpr (settle written e) := by
  unfold settle
  split
  · exact .pure h
  · exact upholds_spill h

theorem upholds_settled {o : Options} {c : Setting} {e v : Expr} {later : Bool}
    (h : Everywhere Attached (.expr v)) : UpholdsExpr (c.settled o e later v) := by
  unfold Setting.settled
  split
  · exact upholds_settle h
  · exact .pure h

theorem upholds_target {c : Setting} {e : Expr} (h : Everywhere Attached (.expr e)) :
    UpholdsExpr (c.target e) := by
  unfold Setting.target
  split
  · simp only [everywhere_index, inExpr_attached] at h
    refine .bind (upholds_settle h.2.1) fun a ha => .bind (upholds_settle h.2.2) fun p hp => .pure ?_
    exact everywhere_index.2 ⟨trivial, ha.inExpr, hp.inExpr⟩
  · simp only [everywhere_field, inExpr_attached] at h
    exact .bind (upholds_settle h.2) fun t ht => .pure (everywhere_field.2 ⟨trivial, ht.inExpr⟩)
  · exact .pure h

theorem upholds_hoistSite {exit : Exit} {kind : Kind} {s : Span} {receiverType type : String}
    {e : Expr} (h : Everywhere Attached (.expr e)) :
    UpholdsExpr (hoistSite exit kind s receiverType type e) :=
  .bind .fresh fun name _ => .bind (.emit (sound_guard exit kind s name receiverType h)) fun _ _ =>
    .pure (attached_member s name receiverType _ _)

mutual

/-- Hoisting moves the parts of an expression, and makes no `if` with an `else`. -/
theorem upholds_hoistAll (o : Options) (c : Setting) :
    (e : Expr) -> Everywhere Attached (.expr e) -> UpholdsExpr (hoistAll o c e)
  | .call s receiver name args type, h => by
      rw [hoistAll]
      split
      next => exact .pure h
      next =>
        simp only [everywhere_call, inExpr_attached] at h
        obtain ⟨-, hreceiver, hargs⟩ := h
        refine .bind (upholds_hoistAll o c receiver hreceiver) fun r hr => ?_
        split
        next => exact upholds_hoistSite hr
        next =>
          refine .bind (upholds_settled hr) fun r' hr' => ?_
          refine .bind (upholds_hoistAllList o c false args hargs) fun vs hvs => .pure ?_
          simp only [everywhere_call, inExpr_attached]
          exact ⟨trivial, hr', hvs⟩
  | .field s target name type, h => by
      rw [hoistAll]
      split
      next => exact .pure h
      next =>
        simp only [everywhere_field, inExpr_attached] at h
        refine .bind (upholds_hoistAll o c target h.2) fun t ht => .pure ?_
        simp only [everywhere_field, inExpr_attached]
        exact ⟨trivial, ht⟩
  | .index s array position type, h => by
      rw [hoistAll]
      split
      next => exact .pure h
      next =>
        simp only [everywhere_index, inExpr_attached] at h
        refine .bind (upholds_hoistAll o c array h.2.1) fun a ha => ?_
        refine .bind (upholds_settled ha) fun a' ha' => ?_
        refine .bind (upholds_hoistAll o c position h.2.2) fun p hp => .pure ?_
        simp only [everywhere_index, inExpr_attached]
        exact ⟨trivial, ha', hp⟩
  | .newArray s elemType dims elements isListed, h => by
      rw [hoistAll]
      split
      next => exact .pure h
      next =>
        simp only [everywhere_newArray, inExpr_attached] at h
        refine .bind (upholds_hoistAllList o c _ dims h.2.1) fun ds hds => ?_
        refine .bind (upholds_hoistAllList o c _ elements h.2.2) fun es hes => .pure ?_
        simp only [everywhere_newArray, inExpr_attached]
        exact ⟨trivial, hds, hes⟩
  | .newObject s className args, h => by
      rw [hoistAll]
      split
      next => exact .pure h
      next =>
        simp only [everywhere_newObject, inExpr_attached] at h
        refine .bind (upholds_hoistAllList o c _ args h.2) fun vs hvs => .pure ?_
        simp only [everywhere_newObject, inExpr_attached]
        exact ⟨trivial, hvs⟩
  | .unary s op operand trailing, h => by
      rw [hoistAll]
      split
      next => exact .pure h
      next =>
        simp only [everywhere_unary, inExpr_attached] at h
        refine .bind (upholds_hoistAll o c operand h.2) fun v hv => .pure ?_
        simp only [everywhere_unary, inExpr_attached]
        exact ⟨trivial, hv⟩
  | .binary s left op right, h => by
      rw [hoistAll]
      split
      next => exact .pure h
      next =>
        simp only [everywhere_binary, inExpr_attached] at h
        obtain ⟨-, hleft, hright⟩ := h
        have hboth {l r : Expr} (hl : Everywhere Attached (.expr l))
            (hr : Everywhere Attached (.expr r)) :
            Everywhere Attached (.expr (.binary s l op r)) :=
          everywhere_binary.2 ⟨trivial, hl.inExpr, hr.inExpr⟩
        refine .bind (upholds_hoistAll o c left hleft) fun l hl => ?_
        split
        next => exact .pure (hboth hl hright)
        next =>
          refine .bind (upholds_settled hl) fun l' hl' => ?_
          exact .bind (upholds_hoistAll o c right hright) fun r hr => .pure (hboth hl' hr)
  | .assign s target op value, h => by
      rw [hoistAll]
      split
      next => exact .pure h
      next =>
        simp only [everywhere_assign, inExpr_attached] at h
        obtain ⟨-, htarget, hvalue⟩ := h
        refine .bind (upholds_target htarget) fun t ht => ?_
        split
        next applied _ _ =>
          refine .bind (upholds_spill ht) fun old hold => ?_
          refine .bind (upholds_hoistAll o c value hvalue) fun v hv => .pure ?_
          exact everywhere_assign.2 ⟨trivial, ht.inExpr,
            (everywhere_binary.2 ⟨trivial, hold.inExpr, hv.inExpr⟩).inExpr⟩
        next =>
          refine .bind (upholds_hoistAll o c value hvalue) fun v hv => .pure ?_
          exact everywhere_assign.2 ⟨trivial, ht.inExpr, hv.inExpr⟩
  | .switch s selector cases type, h => by
      rw [hoistAll]
      split
      next => exact .pure h
      next =>
        obtain ⟨-, hselector, hcases⟩ := everywhere_switch.1 h
        refine .bind (upholds_hoistAll o c selector (inExpr_attached.1 hselector)) fun v hv => ?_
        exact .pure (everywhere_switch.2 ⟨trivial, hv.inExpr, hcases⟩)
  | .missing, h | .ident .., h | .literal .., h | .conditional .., h | .lambda .., h
  | .template .., h => by
      unfold hoistAll
      split
      · exact .pure h
      · exact .throw

theorem upholds_hoistAllList (o : Options) (c : Setting) (after : Bool) :
    (es : List Expr) -> (∀ e ∈ es, Everywhere Attached (.expr e)) ->
      Upholds (hoistAllList o c after es) fun vs => ∀ v ∈ vs, Everywhere Attached (.expr v)
  | [], _ => by
      rw [hoistAllList]
      exact .pure (by simp)
  | e :: rest, h => by
      rw [hoistAllList]
      rw [List.forall_mem_cons] at h
      refine .bind (upholds_hoistAll o c e h.1) fun v hv => ?_
      refine .bind (upholds_settled hv) fun v' hv' => ?_
      refine .bind (upholds_hoistAllList o c after rest h.2) fun vs hvs => .pure ?_
      exact List.forall_mem_cons.2 ⟨hv', hvs⟩

end

/-! ## Rows of statements -/

/-- An anchor is never a statement whose own parts decide on the `else`, unless it is an `if`. -/
theorem takesElse_withAnchorExpr (s : Stmt) (v : Expr) :
    (s.withAnchorExpr v).takesElse = s.takesElse := by
  cases s <;> simp [Stmt.withAnchorExpr, Stmt.takesElse]

theorem takesElse_explicit (s : Stmt) : s.explicit.takesElse = s.takesElse := by
  cases s <;> rfl

theorem sound_explicit {s : Stmt} (h : Sound s) : Sound s.explicit := by
  refine ⟨by rw [isMissing_explicit]; exact h.1, everywhere_explicit (fun s hs => ?_) h.2⟩
  cases s <;> exact hs

theorem attached_withAnchorExpr {s : Stmt} (v : Expr) (h : Attached (.stmt s)) :
    Attached (.stmt (s.withAnchorExpr v)) := by
  cases s <;> exact h

/-- An anchor with another expression. -/
theorem sound_anchor {s : Stmt} {slot : Slot} {v : Expr} (hslot : s.anchorSlot? = some slot)
    (hs : Sound s) (hv : Everywhere Attached (.expr v)) : Sound (s.withAnchorExpr v) := by
  obtain ⟨Rest, hanchor⟩ := everywhere_anchor (P := Attached) hslot
  have hself := hs.2
  rw [← withAnchorExpr_self (s := s) (by simp [hslot])] at hself
  obtain ⟨_, _, hrest⟩ := (hanchor _).1 hself
  refine ⟨by rw [isMissing_withAnchorExpr]; exact hs.1, ?_⟩
  exact (hanchor v).2 ⟨attached_withAnchorExpr v hs.2.self, hv.inExpr, hrest⟩

theorem sound_anchorExpr {s : Stmt} {slot : Slot} (hslot : s.anchorSlot? = some slot)
    (hs : Sound s) : Everywhere Attached (.expr s.anchorExpr) := by
  obtain ⟨Rest, hanchor⟩ := everywhere_anchor (P := Attached) hslot
  have hself := hs.2
  rw [← withAnchorExpr_self (s := s) (by simp [hslot])] at hself
  exact inExpr_attached.1 ((hanchor _).1 hself).2.1

theorem filled_of_anchorSlot {s : Stmt} {slot : Slot} (h : s.anchorSlot? = some slot) :
    s.isMissing = false := by
  cases s <;> first | rfl | cases h

/-- What a row of statements is to take the place of one. -/
structure Replaces (s : Stmt) (new : List Stmt) : Prop where
  sound : ∀ t ∈ new, Sound t
  /-- A statement that is alone in the row takes an `else` only where the old one did. -/
  alone : ∀ t, new = [t] -> s.takesElse = false -> t.takesElse = false

theorem sound_branches {c : Conditional} (h : Everywhere Attached (.expr c.expr))
    {onTrue onFalse : Stmt} (honTrue : Sound onTrue) (honFalse : Sound onFalse)
    (htrue : onTrue.takesElse = false) : Sound (c.branches onTrue onFalse) :=
  ⟨rfl, everywhere_branch.2 ⟨fun _ => htrue, (everywhere_conditional.1 h).2.1, honTrue.2.inStmt,
    honFalse.2.inStmt⟩⟩

theorem takesElse_branches (c : Conditional) {onTrue onFalse : Stmt}
    (hfilled : onFalse.isMissing = false) (h : onFalse.takesElse = false) :
    (c.branches onTrue onFalse).takesElse = false := by
  simp [Conditional.branches, Stmt.takesElse, hfilled, h]

/-- The parts of a conditional. -/
theorem attached_parts {c : Conditional} (h : Everywhere Attached (.expr c.expr)) :
    Everywhere Attached (.expr c.test) ∧ Everywhere Attached (.expr c.onTrue) ∧
      Everywhere Attached (.expr c.onFalse) := by
  simpa only [inExpr_attached] using (everywhere_conditional.1 h).2

theorem sound_assigning {c : Conditional} (h : Everywhere Attached (.expr c.expr)) (s : Span)
    (x type : String) (op : Operator) :
    Sound (c.assigning (.ident s x type) op) ∧
      (c.assigning (.ident s x type) op).takesElse = false := by
  obtain ⟨-, honTrue, honFalse⟩ := attached_parts h
  have hone {value : Expr} (hvalue : Everywhere Attached (.expr value)) :
      Sound (.expr value.span (.assign value.span (.ident s x type) op value)) :=
    sound_exprStmt (everywhere_assign.2 ⟨trivial, (attached_ident s x type).inExpr, hvalue.inExpr⟩)
  exact ⟨sound_branches h (hone honTrue) (hone honFalse) rfl, takesElse_branches c rfl rfl⟩

/-- Lifting a conditional puts an `if` with both branches in the place of the statement. -/
theorem Lifted.replaces {c : Conditional} {ns ns' : Names} {s : Stmt} {new : List Stmt}
    (h : Lifted c ns s new ns') (hs : Sound s) : Replaces s new := by
  have hvar (span : Span) (x type : String) : Sound (.var span x type .missing) :=
    sound_var attached_missing
  cases h with
  | exit hleaves hexpr =>
      obtain ⟨slot, hslot⟩ := Option.isSome_iff_exists.1 (anchorSlot?_of_leaves hleaves)
      have hcond : Everywhere Attached (.expr c.expr) := hexpr ▸ sound_anchorExpr hslot hs
      obtain ⟨-, honTrue, honFalse⟩ := attached_parts hcond
      have htakes (v : Expr) : (s.withAnchorExpr v).explicit.takesElse = false := by
        rw [takesElse_explicit, takesElse_withAnchorExpr]
        cases s <;> first | rfl | cases hleaves
      have hfalse := sound_explicit (sound_anchor hslot hs honFalse)
      refine ⟨?_, ?_⟩
      · rw [List.forall_mem_singleton]
        exact sound_branches hcond (sound_explicit (sound_anchor hslot hs honTrue)) hfalse
          (htakes _)
      · rintro t ht -
        cases ht
        exact takesElse_branches c hfalse.1 (htakes _)
  | declared s name type type' =>
      have hcond := inExpr_attached.1 (everywhere_var.1 hs.2).2
      refine ⟨?_, by simp⟩
      simp only [List.forall_mem_cons]
      exact ⟨hvar s name type', (sound_assigning hcond _ _ _ _).1, by simp⟩
  | assigned s s' s'' x t op =>
      have hassign := inExpr_attached.1 (everywhere_exprStmt.1 hs.2).2
      have hcond := inExpr_attached.1 (everywhere_assign.1 hassign).2.2
      obtain ⟨hsound, htakes⟩ := sound_assigning hcond s'' x t op
      refine ⟨by rwa [List.forall_mem_singleton], ?_⟩
      rintro t ht -
      cases ht
      exact htakes
  | evaluated s =>
      have hcond := inExpr_attached.1 (everywhere_exprStmt.1 hs.2).2
      obtain ⟨-, honTrue, honFalse⟩ := attached_parts hcond
      refine ⟨?_, ?_⟩
      · rw [List.forall_mem_singleton]
        exact sound_branches hcond (sound_exprStmt honTrue) (sound_exprStmt honFalse) rfl
      · rintro t ht -
        cases ht
        exact takesElse_branches c rfl rfl
  | stored hheaded hexpr =>
      obtain ⟨slot, hslot⟩ := Option.isSome_iff_exists.1 (anchorSlot?_of_isHeaded hheaded)
      have hcond : Everywhere Attached (.expr c.expr) := hexpr ▸ sound_anchorExpr hslot hs
      refine ⟨?_, by simp⟩
      simp only [List.forall_mem_cons]
      exact ⟨hvar _ _ _, (sound_assigning hcond _ _ _ _).1, sound_anchor hslot hs (attached_ident _ _ _),
        by simp⟩

/-- Hoisting leaves the anchor last; alone it is the `if` that it was, or no `if`. -/
theorem replaces_hoisted {o : Options} {c : Setting} {ns ns' : Names} {s : Stmt} {slot : Slot}
    {v : Expr} {new : List Stmt} (hslot : s.anchorSlot? = some slot) (hs : Sound s)
    (hhoist : (hoistAll o c s.anchorExpr).run ⟨ns, []⟩ = .ok v ⟨ns', new⟩) :
    Replaces s (new ++ [s.withAnchorExpr v]) := by
  obtain ⟨hv, hnew⟩ := upholds_hoistAll o c s.anchorExpr (sound_anchorExpr hslot hs) _ _ _ hhoist
    (by simp)
  refine ⟨?_, ?_⟩
  · rw [List.forall_mem_append, List.forall_mem_singleton]
    exact ⟨hnew, sound_anchor hslot hs hv⟩
  · intro t ht htakes
    obtain ⟨-, rfl⟩ : new = [] ∧ s.withAnchorExpr v = t := by
      simpa [List.append_eq_singleton_iff] using ht
    rwa [takesElse_withAnchorExpr]

/-! ## Steps -/

/-- A row as a single statement: a block, or the one that is alone in it. -/
theorem Replaces.asOne {s : Stmt} {new : List Stmt} (h : Replaces s new) (span : Span) :
    Sound (asOne span (if new.length = 1 then new else new.map Stmt.explicit)) ∧
      (s.takesElse = false -> (asOne span
        (if new.length = 1 then new else new.map Stmt.explicit)).takesElse = false) := by
  by_cases hone : new.length = 1
  · obtain ⟨t, rfl⟩ := List.length_eq_one_iff.1 hone
    exact ⟨h.sound t (by simp), h.alone t rfl⟩
  · rw [if_neg hone]
    have hblock : Expansion.asOne span (new.map Stmt.explicit) =
        .block (.mk span (new.map Stmt.explicit)) := by
      match new, hone with
      | [], _ | _ :: _ :: _, _ => rfl
    rw [hblock]
    refine ⟨sound_block (List.forall_mem_map.2 fun t ht => ?_), fun _ => rfl⟩
    exact sound_explicit (h.sound t ht)

/-- Splicing a row that may replace a statement. -/
theorem attached_splice {parent changed : Node} {slot : Slot} {s : Stmt} {new : List Stmt}
    (h : Everywhere Attached parent) (hget : parent.get? slot = some (.stmt s))
    (hnew : Replaces s new) (hinto : spliceInto parent slot s new = .ok changed) :
    Everywhere Attached changed ∧
      (parent.takesElse = false -> changed.takesElse = false) := by
  have hexplicit : ∀ t ∈ new.map Stmt.explicit, Sound t := by
    rw [List.forall_mem_map]
    exact fun t ht => sound_explicit (hnew.sound t ht)
  have heither : ∀ t ∈ (if new.length = 1 then new else new.map Stmt.explicit), Sound t := by
    split
    · exact hnew.sound
    · exact hexplicit
  unfold spliceInto at hinto
  split at hinto
  next =>
    cases hinto
    refine ⟨everywhere_block.2 ⟨trivial, ?_⟩, id⟩
    exact spliceEntry_forall (everywhere_block.1 h).2 fun t ht => (hexplicit t ht).2.inStmt
  next =>
    split at hinto
    · cases hinto
      refine ⟨everywhere_arm.2 ⟨trivial, (everywhere_arm.1 h).2.1, ?_⟩, id⟩
      rw [List.forall_mem_singleton]
      exact (sound_block hexplicit).2.inStmt
    · cases hinto
  next =>
    cases hinto
    obtain ⟨-, hlabels, hbody⟩ := everywhere_arm.1 h
    refine ⟨everywhere_arm.2 ⟨trivial, hlabels, ?_⟩, id⟩
    exact spliceEntry_forall hbody fun t ht => (heither t ht).2.inStmt
  next =>
    -- the one place where a row can end up next to an else
    have hone := hnew.asOne s.span
    simp only [replaceChild, hget, isOperand, if_true] at hinto
    split at hinto
    next hset =>
      cases hinto
      have hfilled := hone.1.1
      obtain ⟨hself, htakes⟩ := attached_set h.self hget hset (by simp [isFilled, hfilled]) hone.2
      exact ⟨everywhere_set h hget hset (by simp [isFilled, hfilled]) hself hone.1.2, htakes⟩
    next => cases hinto

theorem replaces_anchored {root root' : Node} {anchor : Path} {s : Stmt} {new : List Stmt}
    (hroot : Everywhere Attached root) (hat : root.at? anchor = some (.stmt s))
    (hnew : Replaces s new) (hsplice : splice root anchor s new = .ok root') :
    Everywhere Attached root' := by
  obtain ⟨p, slot, parent, changed, rfl, hp, hget, hinto, hput⟩ := splice_ok hat hsplice
  obtain ⟨hchanged, htakes⟩ := attached_splice (hroot.at? hp) hget hnew hinto
  exact (everywhere_swap (R := fun c c' => c.takesElse = false -> c'.takesElse = false) hroot
    (swap_of_put hp hput) hchanged (spliceInto_face hinto).2 htakes
    fun _ hP hget hset hfilled hR => attached_set hP hget hset hfilled hR).1

/-- A step keeps every `else` with its `if`. -/
theorem Stepped.attached {o : Options} {w w' : Work} {settled : List Bool × List Exit}
    (h : Stepped o w settled w') (hroot : Everywhere Attached w.root) :
    Everywhere Attached w'.root := by
  cases h with
  | wrapped hat hfilled hlive hput =>
      have hbody := everywhere_wrapped (hroot.at? hat) trivial trivial trivial
      exact (everywhere_swap (R := fun c c' => c.takesElse = false -> c'.takesElse = false) hroot
        (swap_of_put hat hput) hbody rfl id
        fun _ hP hget hset hfilled hR => attached_set hP hget hset hfilled hR).1
  | lifted hat _ _ hlive hlifted hsplice =>
      obtain ⟨slot, hslot⟩ := Option.isSome_iff_exists.1 hlifted.anchored
      have hs : Sound _ := ⟨filled_of_anchorSlot hslot, hroot.at? hat⟩
      exact replaces_anchored hroot hat (hlifted.replaces hs) hsplice
  | hoisted hat _ _ hslot _ _ _ hhoist hsplice =>
      have hs : Sound _ := ⟨filled_of_anchorSlot hslot, hroot.at? hat⟩
      exact replaces_anchored hroot hat (replaces_hoisted hslot hs hhoist) hsplice

theorem Takes.attached {o : Options} {k : Nat} {w w' : Work} (h : Takes o k w w')
    (hroot : Everywhere Attached w.root) : Everywhere Attached w'.root := by
  induction h with
  | none => exact hroot
  | more hone _ ih =>
      obtain ⟨_, _, _, hstepped⟩ := step_some hone
      exact ih (hstepped.attached hroot)

/--
An expansion makes no dangling `else`: where every `else` of a unit belongs to the `if` that it
is written for, so does every `else` of the unit that it is expanded to, whatever the options.
-/
theorem attached_expanded {o : Options} {u v : CompilationUnit} {report : Report}
    (hu : Everywhere Attached (.unit u)) (h : expand o u = .ok report)
    (hunit : report.unit? = some v) : Everywhere Attached (.unit v) := by
  obtain ⟨k, w, htakes, -, hroot, -, -⟩ := expand_takes h hunit
  rw [← hroot]
  exact htakes.attached hu

/-- The unit of `m(boolean b, int k) { if (b) x = b ? f(k).unwrap() : 1; else x = 2; }`. -/
def elseUnit : CompilationUnit where
  file := "Branching.java"
  methods := [{
    name := "m"
    params := [⟨.nowhere, "b", "boolean"⟩, ⟨.nowhere, "k", "int"⟩]
    body := some (.mk .nowhere [
      .branch .nowhere (.ident .nowhere "b" "boolean")
        (.expr .nowhere (.assign .nowhere (.ident .nowhere "x" "int") .assign
          (.conditional .nowhere (.ident .nowhere "b" "boolean")
            (.call .nowhere (.call .nowhere .missing "f" [.ident .nowhere "k" "int"]
              "Either<String, Integer>") "unwrap" [] "")
            (.literal .nowhere (.int 1) "1") "int")))
        (.expr .nowhere (.assign .nowhere (.ident .nowhere "x" "int") .assign
          (.literal .nowhere (.int 2) "2")))]) }]

theorem attached_expanded_elseUnit :
    Everywhere Attached (.unit elseUnit) ∧
      ∃ v, expanded? {} elseUnit = some v ∧ Everywhere Attached (.unit v) := by
  have hunit : Everywhere Attached (.unit elseUnit) := by
    unfold Everywhere
    decide +kernel
  have hsome : (expanded? {} elseUnit).isSome = true := by decide +kernel
  obtain ⟨v, hv⟩ := Option.isSome_iff_exists.1 hsome
  obtain ⟨report, hreport, hexpanded⟩ := expanded?_eq_some hv
  exact ⟨hunit, v, hv, attached_expanded hunit hreport hexpanded⟩

end Expansion

end EarlyExit
