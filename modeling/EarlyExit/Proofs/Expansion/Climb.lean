import EarlyExit.Proofs.Expansion.Outlook
import EarlyExit.Proofs.Tree.Spine

/-!
# The way up from an accepted site

An accepted site has operands right above it, then perhaps a nest of conditionals,
and then the place where its way ends: the statement whose anchor slot was reached,
or a lambda whose value was.
-/

namespace EarlyExit.Expansion

/-- Operands that are evaluated once, in their turn. -/
def Shape.passes : Shape -> Bool
  | operand | assignment | switchExpr => true
  | _ => false

theorem climb_pass {a : Above} (h : (shape a.node a.slot).passes = true) (span : Span)
    (depth : Nat) (chain : List Path) (rest : List Above) :
    climb span depth chain (a :: rest) = climb span depth (chain ++ [a.path]) rest := by
  obtain ⟨path, node, slot⟩ := a
  cases node with
  | expr e =>
      cases e with
      | binary s l op r =>
          simp only [shape] at h
          split at h
          · simp [Shape.passes] at h
          · simp_all [climb]
      | assign s t op v =>
          simp only [shape] at h
          split at h
          · simp [Shape.passes] at h
          · simp_all [climb]
      | conditional => simp [shape, Shape.passes] at h
      | template => simp [shape, Shape.passes] at h
      | lambda => simp [shape, Shape.passes] at h
      | _ => rfl
  | _ => simp [shape, Shape.passes] at h

/-- Operands lead to the statement above them. -/
theorem climb_through {low : List Above} (h : ∀ a ∈ low, (shape a.node a.slot).passes = true)
    {a : Above} {s : Stmt} (ha : a.node = .stmt s) (span : Span) (depth : Nat)
    (chain : List Path) (rest : List Above) :
    climb span depth chain (low ++ a :: rest) =
      judge depth (chain ++ low.map (·.path)) a s rest (.anchored a.path) := by
  induction low generalizing chain with
  | nil => simp [climb, ha]
  | cons b low ih =>
      rw [List.cons_append, climb_pass (h b (by simp)), ih fun a hmem => h a (by simp [hmem])]
      simp

/-- Where the way up from a site ends, below it the outermost conditional of a nest. -/
inductive Ends : Option Above -> List Above -> Place -> Prop
  | anchored {a : Above} {s : Stmt} {rest : List Above} (hnode : a.node = .stmt s)
      (hslot : s.anchorSlot? = some a.slot) : Ends none (a :: rest) (.anchored a.path)
  | lifted {top a : Above} {s : Stmt} {rest : List Above} (hnode : a.node = .stmt s)
      (hlifts : liftsFrom s a.slot top.node = true) :
      Ends (some top) (a :: rest) (.lifted a.path top.path)
  | assigned {top b a : Above} {s s' s'' : Span} {x t : String} {op : Operator} {v e : Expr}
      {rest : List Above} (hassign : b.node = .expr (.assign s (.ident s' x t) op v))
      (hvalue : b.slot = .value) (hnode : a.node = .stmt (.expr s'' e)) (hslot : a.slot = .value) :
      Ends (some top) (b :: a :: rest) (.lifted a.path top.path)
  | wrapped {top : Option Above} {a : Above} {s : Span} {ps : List Param} {body : Body}
      {rest : List Above} (hnode : a.node = .expr (.lambda s ps body)) :
      Ends top (a :: rest) (.wrapped a.path)

theorem judge_accepted {depth : Nat} {chain : List Path} {up : Above} {s : Stmt}
    {rest : List Above} {place : Place} {ctx : Context}
    (h : (judge depth chain up s rest place).verdict = .accepted ctx) :
    s.anchorSlot? = some up.slot ∧ ctx.place = place ∧ ctx.depth = depth := by
  unfold judge at h
  split at h
  · simp at h
  next hslot =>
    split at h
    · simp at h
    · split at h
      · simp at h
      · simp only [Verdict.accepted.injEq] at h
        subst h
        exact ⟨slotFault?_eq_none.1 hslot, rfl, rfl⟩

theorem judge_chain (depth : Nat) (chain : List Path) (up : Above) (s : Stmt) (rest : List Above)
    (place : Place) : (judge depth chain up s rest place).chain = chain := by
  unfold judge
  repeat' split
  all_goals rfl

theorem nest_spec {up : Above} (hup : up.isConditional = true) {rest inner outer : List Above}
    {top : Above} (h : nest up rest = (inner, top, outer)) :
    up :: rest = inner ++ top :: outer ∧ top.isConditional = true ∧
      ∀ a ∈ inner, a.isConditional = true := by
  induction rest generalizing up inner with
  | nil =>
      simp only [nest, Prod.mk.injEq] at h
      obtain ⟨rfl, rfl, rfl⟩ := h
      simp [hup]
  | cons next rest ih =>
      simp only [nest] at h
      split at h
      next hnext =>
        simp only [Prod.mk.injEq] at h
        obtain ⟨rfl, rfl, rfl⟩ := h
        obtain ⟨hsplit, htop, hinner⟩ := ih hnext rfl
        refine ⟨by rw [hsplit]; simp, htop, ?_⟩
        simpa [hup] using hinner
      next =>
        simp only [Prod.mk.injEq] at h
        obtain ⟨rfl, rfl, rfl⟩ := h
        simp [hup]

/-- What is above an accepted site in a conditional. -/
theorem inConditional_accepted {depth : Nat} {chain : List Path} {up : Above}
    (hup : up.isConditional = true) {rest : List Above} {ctx : Context}
    (h : (inConditional depth chain up rest).verdict = .accepted ctx) :
    ∃ inner top tail, up :: rest = inner ++ top :: tail ∧ top.isConditional = true ∧
      (∀ a ∈ inner, a.isConditional = true) ∧ Ends (some top) tail ctx.place ∧
      ctx.depth = depth := by
  unfold inConditional at h
  obtain ⟨inner, top, outer, hnest⟩ : ∃ inner top outer, nest up rest = (inner, top, outer) :=
    ⟨_, _, _, rfl⟩
  obtain ⟨hsplit, htop, hinner⟩ := nest_spec hup hnest
  suffices Ends (some top) outer ctx.place ∧ ctx.depth = depth from
    ⟨inner, top, outer, hsplit, htop, hinner, this⟩
  rw [hnest] at h
  dsimp only at h
  split at h
  · simp at h
  next above outer =>
    split at h
    next hlambda =>
      simp only [inLambda, Verdict.accepted.injEq] at h
      subst h
      exact ⟨.wrapped hlambda, rfl⟩
    next hassign =>
      split at h
      · split at h
        next hexpr =>
          split at h
          next hvalue =>
            obtain ⟨hslot, hplace, hdepth⟩ := judge_accepted h
            rw [hplace]
            simp only [Stmt.anchorSlot?, Option.some.injEq] at hslot
            exact ⟨.assigned hassign hvalue hexpr hslot.symm, hdepth⟩
          next => simp at h
        next => simp at h
      · simp at h
    next hstmt =>
      split at h
      next hlifts =>
        obtain ⟨_, hplace, hdepth⟩ := judge_accepted h
        rw [hplace]
        exact ⟨.lifted hstmt hlifts, hdepth⟩
      next => simp at h
    next => simp at h

/-- What is above an accepted site. -/
theorem climb_accepted {span : Span} {depth : Nat} {chain : List Path} {up : List Above}
    {ctx : Context} (h : (climb span depth chain up).verdict = .accepted ctx) :
    ∃ low conds tail, up = low ++ conds ++ tail ∧
      (∀ a ∈ low, (shape a.node a.slot).passes = true) ∧
      (∀ a ∈ conds, a.isConditional = true) ∧ Ends conds.getLast? tail ctx.place ∧
      ctx.depth = depth := by
  induction up generalizing chain with
  | nil => simp [climb] at h
  | cons a rest ih =>
      by_cases hpass : (shape a.node a.slot).passes = true
      · rw [climb_pass hpass] at h
        obtain ⟨low, conds, tail, rfl, hlow, hrest⟩ := ih h
        refine ⟨a :: low, conds, tail, rfl, ?_, hrest⟩
        simpa [hpass] using hlow
      · obtain ⟨path, node, slot⟩ := a
        cases node with
        | stmt s =>
            obtain ⟨hslot, hplace, hdepth⟩ := judge_accepted h
            rw [hplace]
            exact ⟨[], [], _, rfl, by simp, by simp, .anchored rfl hslot, hdepth⟩
        | expr e =>
            cases e with
            | conditional =>
                obtain ⟨inner, top, tail, hsplit, htop, hinner, hends, hdepth⟩ :=
                  inConditional_accepted rfl h
                refine ⟨[], inner ++ [top], tail, by simp [hsplit], by simp, ?_, by simpa using hends,
                  hdepth⟩
                intro a ha
                rcases List.mem_append.1 ha with ha | ha
                · exact hinner a ha
                · rw [List.mem_singleton.1 ha]
                  exact htop
            | lambda =>
                simp only [climb, inLambda, Verdict.accepted.injEq] at h
                subst h
                exact ⟨[], [], _, rfl, by simp, by simp, .wrapped rfl, rfl⟩
            | template => simp [climb] at h
            | binary s l op r =>
                simp only [climb] at h
                split at h
                · simp at h
                · simp_all [shape, Shape.passes]
            | assign s t op v =>
                simp only [climb] at h
                split at h
                · simp at h
                next hslot =>
                  refine absurd ?_ hpass
                  simp only [shape, if_neg hslot]
                  split <;> rfl
            | _ => exact absurd rfl hpass
        | _ => simp [climb] at h

end EarlyExit.Expansion
