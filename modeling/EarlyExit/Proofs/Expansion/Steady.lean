import EarlyExit.Proofs.Expansion.Census
import EarlyExit.Proofs.Expansion.Turns

/-!
# Nothing counted is repeated

A compound assignment that has to keep the old value of its target repeats parts of the
target.  If nothing in those parts is counted as long as the value has a site, every step
keeps it so, and the census of a tree changes from step to step by what the step's
temporaries say.
-/

namespace EarlyExit.Expansion

open Node

section Steady

variable {o : Options} {c : Setting} {old : List String}

/-! ## Changes of a target -/

def repeatedIn : Node -> List Expr
  | .expr e => repeated e
  | _ => []

def isLambda : Node -> Bool
  | .expr e => isFunction e
  | _ => false

/-- A change of an operand that repeats nothing more that is counted. -/
structure Tame (o : Options) (old : List String) (n n' : Node) : Prop where
  function : isLambda n' = true -> isLambda n = true ∧ isLive o n = true
  parts : (∀ e ∈ repeatedIn n, census o old (.expr e) = []) ->
    ∀ e ∈ repeatedIn n', census o old (.expr e) = []
  empty : census o old n = [] -> census o old n' = []
  live : isLive o n' = true -> isLive o n = true

theorem isLive_iff_site {n : Node} :
    isLive o n = true ↔ ∃ s k, Trait.site s k ∈ census o old n := by
  constructor
  · intro h
    obtain ⟨p, d, k, hd, hk⟩ := isLive_iff.1 h
    exact ⟨d.span, k, mem_census.2 ⟨d, mem_nodes.2 ⟨p, hd⟩, site_mem_traits.2 ⟨hk, rfl⟩⟩⟩
  · rintro ⟨s, k, h⟩
    obtain ⟨d, hd, hk⟩ := mem_census.1 h
    obtain ⟨p, hp⟩ := mem_nodes.1 hd
    exact isLive_iff.2 ⟨p, d, k, hp, (site_mem_traits.1 hk).1⟩

theorem isLambda_set {n n' d : Node} {slot : Slot} (h : n.set? slot d = some n') :
    isLambda n' = isLambda n :=
  eq_of_bare (fun n => by cases n with | expr e => cases e <;> rfl | _ => rfl) h

/-- Nodes that are repeated as a whole. -/
def repeatsWhole : Node -> Bool
  | .expr (.ident ..) | .expr (.lambda ..) | .expr (.index ..) | .expr (.field ..) => false
  | .expr _ => true
  | _ => false

theorem repeatsWhole_set {n n' d : Node} {slot : Slot} (h : n.set? slot d = some n') :
    repeatsWhole n' = repeatsWhole n :=
  eq_of_bare (fun n => by cases n with | expr e => cases e <;> rfl | _ => rfl) h

theorem repeatedIn_whole {n : Node} (h : repeatsWhole n = true) :
    ∃ e, n = .expr e ∧ repeatedIn n = [e] := by
  cases n with
  | expr e => cases e <;> first | exact ⟨_, rfl, rfl⟩ | cases h
  | _ => cases h

theorem operands_tame {d d' : Expr} {l l' : List Expr} (h : Tame o old (.expr d) (.expr d'))
    (hparts : ∀ e ∈ (d :: l).filter isFunction, census o old (.expr e) = [])
    (hl : ∀ e ∈ l', e = d' ∨ e ∈ l) :
    ∀ e ∈ l'.filter isFunction, census o old (.expr e) = [] := by
  intro e he
  obtain ⟨hmem, hfunction⟩ := List.mem_filter.1 he
  rcases hl e hmem with rfl | hmem
  · obtain ⟨hlambda, hlive⟩ := h.function hfunction
    have hempty := hparts d (List.mem_filter.2 ⟨by simp, hlambda⟩)
    exact absurd hempty (census_ne_nil hlive)
  · exact hparts e (List.mem_filter.2 ⟨by simp [hmem], hfunction⟩)

/-- What a changed target repeats. -/
theorem parts_tame {n n' d d' : Node} {slot : Slot} (hget : n.get? slot = some d)
    (hset : n.set? slot d' = some n') (h : Tame o old d d')
    (hempty : census o old n = [] -> census o old n' = [])
    (hparts : ∀ e ∈ repeatedIn n, census o old (.expr e) = []) :
    ∀ e ∈ repeatedIn n', census o old (.expr e) = [] := by
  by_cases hwhole : repeatsWhole n = true
  · obtain ⟨e, rfl, he⟩ := repeatedIn_whole hwhole
    obtain ⟨e', rfl, he'⟩ := repeatedIn_whole ((repeatsWhole_set hset).trans hwhole)
    rw [he'] at *
    rw [he] at hparts
    simpa using hempty (hparts e (by simp))
  · rw [get?_eq_some] at hget
    cases n with
    | expr e =>
        cases e with
        | index s array position type =>
            simp only [slots, exprSlots, List.mem_append, mem_single, ofExpr?_eq_some] at hget
            rcases hget with ⟨rfl, rfl, _⟩ | ⟨rfl, rfl, _⟩
            all_goals
              cases d' <;> simp only [set?, setExprSlot, Option.map_some, Option.map_none,
                reduceCtorEq, Option.some.injEq] at hset
              subst hset
            · exact operands_tame (l := [position]) h hparts (by simp)
            · refine operands_tame (l := [array]) h ?_ (by simp [or_comm])
              intro e he
              exact hparts e (by simpa [repeatedIn, repeated, or_comm] using he)
        | field s target name type =>
            simp only [slots, exprSlots, mem_single, ofExpr?_eq_some] at hget
            obtain ⟨rfl, rfl, _⟩ := hget
            cases d' <;> simp only [set?, setExprSlot, Option.map_some, Option.map_none,
              reduceCtorEq, Option.some.injEq] at hset
            subst hset
            exact operands_tame (l := []) h hparts (by simp)
        | lambda s ps body =>
            have hlambda : isLambda n' = true := isLambda_set hset
            cases n' with
            | expr e' =>
                cases e' with
                | lambda => simp [repeatedIn, repeated]
                | _ => cases hlambda
            | _ => cases hlambda
        | ident => simp [slots, exprSlots] at hget
        | _ => exact absurd rfl hwhole
    | _ =>
        intro e he
        cases n' with
        | expr e' =>
            unfold set? at hset
            split at hset <;> simp_all
        | _ => simp [repeatedIn] at he

/-- A tame change stays tame for the node above. -/
theorem tame_set {n n' d d' : Node} {slot : Slot} (hvia : isLambda n = true -> isLive o n = true)
    (hget : n.get? slot = some d) (hset : n.set? slot d' = some n') (hfilled : d'.isFilled = true)
    (htraits : traits o old n' = traits o old n) (h : Tame o old d d') : Tame o old n n' := by
  obtain ⟨l, r, hn, hn'⟩ := gather_set hget hset hfilled htraits
  have hempty : census o old n = [] -> census o old n' = [] := by
    intro hnil
    rw [census, hn] at hnil
    simp only [List.append_eq_nil_iff] at hnil
    rw [census, hn', hnil.1.1, hnil.2]
    simpa [census] using h.empty hnil.1.2
  refine ⟨fun hlambda => ?_, ?_, hempty, fun hlive => ?_⟩
  · rw [isLambda_set hset] at hlambda
    exact ⟨hlambda, hvia hlambda⟩
  · exact parts_tame hget hset h hempty
  · obtain ⟨s, k, hsite⟩ := isLive_iff_site.1 hlive
    rw [census, hn', List.mem_append, List.mem_append] at hsite
    have hfound : (∃ s k, Trait.site s k ∈ census o old n) -> isLive o n = true :=
      isLive_iff_site.2
    refine hfound ?_
    rcases hsite with (hsite | hsite) | hsite
    · exact ⟨s, k, by simp [census, hn, hsite]⟩
    · obtain ⟨s', k', hsite'⟩ := isLive_iff_site.1 (h.live (isLive_iff_site.2 ⟨s, k, hsite⟩))
      have hsite' : Trait.site s' k' ∈ gather (traits o old) d := hsite'
      exact ⟨s', k', by simp [census, hn, hsite']⟩
    · exact ⟨s, k, by simp [census, hn, hsite]⟩

/-! ## Steadiness through a change -/

/-- An assignment stays steady if its operands change tamely. -/
theorem steady_set {n n' d d' : Node} {slot : Slot} (hget : n.get? slot = some d)
    (hset : n.set? slot d' = some n') (h : Tame o old d d') (hn : Steady o old n) :
    Steady o old n' := by
  rw [get?_eq_some] at hget
  cases n with
  | expr e =>
      cases e with
      | assign s target op value =>
          simp only [slots, exprSlots, List.mem_append, mem_single, ofExpr?_eq_some] at hget
          rcases hget with ⟨rfl, rfl, _⟩ | ⟨rfl, rfl, _⟩
          all_goals
            cases d' <;> simp only [set?, setExprSlot, Option.map_some, Option.map_none,
              reduceCtorEq, Option.some.injEq] at hset
            subst hset
          · exact fun hop hlive => h.parts (hn hop hlive)
          · exact fun hop hlive => hn hop (h.live hlive)
      | _ =>
          cases n' with
          | expr e' =>
              have hbare := bare_set hset
              cases e' <;> first | exact trivial | simp [bare, bareExpr] at hbare
          | _ => trivial
  | _ =>
      cases n' with
      | expr e' =>
          have hbare := bare_set hset
          simp [bare] at hbare
      | _ => trivial

/-- Nodes through which a change may go without a function being repeated. -/
def Passable (o : Options) (n : Node) : Prop :=
  isLambda n = true -> isLive o n = true

theorem Inner.passable {n : Node} (h : Inner n) : Passable o n := by
  intro hlambda
  cases n with
  | expr e => cases e <;> first | exact h.elim | cases hlambda
  | _ => cases hlambda

theorem steady_swap {via : Node -> Prop} (hvia : ∀ n, via n -> Passable o n) {a b n n' : Node}
    (h : Everywhere (Steady o old) n) (hswap : Swap via a b n n')
    (hb : Everywhere (Steady o old) b) (hfilled : b.isFilled = true) (halike : Alike a b)
    (htame : Tame o old a b) : Everywhere (Steady o old) n' ∧ Tame o old n n' := by
  have hl := local_traits o old
  obtain ⟨hsteady, _, hrel⟩ := everywhere_swap (R := fun c c' => Alike c c' ∧ Tame o old c c')
    h hswap hb hfilled ⟨halike, htame⟩
    (fun hv hP hget hset hfilled hR => ⟨steady_set hget hset hR.2 hP, alike_set hset,
      tame_set (hvia _ hv) hget hset hfilled (hl.set hget hset hR.1.1 fun _ => hR.1.2) hR.2⟩)
  exact ⟨hsteady, hrel⟩

/-! ## Moves -/

theorem tame_ident {e : Node} (s : Span) (x type : String) :
    Tame o old e (.expr (.ident s x type)) where
  function h := by cases h
  parts _ := by simp [repeatedIn, repeated]
  empty _ := census_ident ..
  live h := by simp at h

/-- In place of a node with a site any other that is no function may stand. -/
theorem tame_of_live {n n' : Node} (hlive : isLive o n = true) (hwhole : repeatsWhole n = true)
    (hlambda : isLambda n' = false) : Tame o old n n' where
  function h := by rw [hlambda] at h; cases h
  parts h := by
    obtain ⟨e, rfl, he⟩ := repeatedIn_whole hwhole
    exact absurd (h e (by simp [he])) (census_ne_nil hlive)
  empty h := absurd h (census_ne_nil hlive)
  live _ := hlive

theorem steady_exit (exit : Exit) {e : Expr} (h : InExpr (Steady o old) e) :
    Everywhere (Steady o old) (.stmt (exit.statement e)) := by
  refine everywhere_iff.2 ⟨?_, ?_⟩
  · cases exit <;> trivial
  · cases exit
    all_goals
      simp only [Exit.statement, slots, stmtSlots, forall_single]
      exact h

theorem steady_member (s s' : Span) (x type member result : String) :
    Everywhere (Steady o old) (.expr (.call s (.ident s' x type) member [] result)) :=
  everywhere_call.2 ⟨trivial, (everywhere_ident.2 trivial).inExpr, by simp⟩

theorem steady_reconstruct (kind : Kind) (s s' : Span) (x type : String) :
    Everywhere (Steady o old) (.expr (kind.reconstruct (.ident s' x type) s)) := by
  refine everywhere_call.2 ⟨trivial, (everywhere_ident.2 trivial).inExpr, ?_⟩
  intro e he
  split at he
  · cases he
  · rw [List.mem_singleton.1 he]
    exact (steady_member _ _ _ _ _ _).inExpr

theorem steady_guard {g : Guard} (h : Everywhere (Steady o old) (.expr g.receiver)) :
    ∀ s ∈ g.statements, Everywhere (Steady o old) (.stmt s) := by
  have hblock : Everywhere (Steady o old) (.stmt (.block (.mk g.span
      [g.exit.statement (g.kind.reconstruct (.ident g.span g.name g.type) g.span)]))) := by
    refine everywhere_block.2 ⟨trivial, fun t ht => ?_⟩
    rw [List.mem_singleton.1 ht]
    exact (steady_exit g.exit (steady_reconstruct _ _ _ _ _).inExpr).inStmt
  simp only [Guard.statements, guardStatements, List.forall_mem_cons]
  refine ⟨everywhere_var.2 ⟨trivial, h.inExpr⟩, ?_, by simp⟩
  exact everywhere_branch.2 ⟨trivial, (steady_member _ _ _ _ _ _).inExpr, hblock.inStmt, inStmt_missing _⟩

theorem steady_var {s : Span} {x type : String} {e : Expr}
    (h : Everywhere (Steady o old) (.expr e)) :
    ∀ t ∈ [Stmt.var s x type e], Everywhere (Steady o old) (.stmt t) := by
  intro t ht
  rw [List.mem_singleton.1 ht]
  exact everywhere_var.2 ⟨trivial, h.inExpr⟩

theorem Move.steady {x : String} {a b : Expr} {t : Temp} (h : Move o c x a t b)
    (hsteady : Everywhere (Steady o old) (.expr a)) :
    Everywhere (Steady o old) (.expr b) ∧
      ∀ s ∈ t.statements, Everywhere (Steady o old) (.stmt s) := by
  have hl := local_traits o old
  cases h with
  | @spilled _ p p' e slot hget hset hinner hcall _ _ _ hswap =>
      have hp := hsteady.old hswap
      have htame : Tame o old (.expr p) (.expr p') :=
        tame_set hinner.passable hget hset rfl
          (hl.set hget hset rfl fun hbare => by rw [hcall] at hbare; cases hbare) (tame_ident ..)
      have hp' : Everywhere (Steady o old) (.expr p') :=
        everywhere_set hp hget hset rfl (steady_set hget hset (tame_ident ..) hp.self)
          (everywhere_ident.2 trivial)
      exact ⟨(steady_swap (fun _ => Inner.passable) hsteady hswap hp' (isFilled_set hset)
        (alike_set hset) htame).1, steady_var (hp.child hget)⟩
  | @hoisted _ receiver s type kind hkind _ hswap =>
      have hsite : siteKind? o (.expr (.call s receiver o.sentinel [] type)) = some kind := by
        simp [siteKind?, hkind]
      have hfilled : receiver.isMissing = false := by
        cases receiver <;> simp_all [Registry.resolve, Expr.staticType, Expr.isMissing]
      have hreceiver := (everywhere_call.1 (hsteady.old hswap)).2.1
      exact ⟨(steady_swap (fun _ => Inner.passable) hsteady hswap (steady_member _ _ _ _ _ _) rfl
        ⟨rfl, rfl⟩ (tame_of_live (isLive_of_site hsite) rfl rfl)).1,
        steady_guard ((inExpr_iff hfilled).1 hreceiver)⟩
  | @kept _ t value s op applied happlied hmoves _ _ hlive hswap =>
      obtain ⟨_, htarget, hvalue⟩ := everywhere_assign.1 (hsteady.old hswap)
      have hfilled : t.isMissing = false := by
        cases t <;> simp_all [targetMoves, isStable, Expr.isMissing]
      have hnew : Everywhere (Steady o old) (.expr (.assign s t .assign
          (.binary s (.ident t.span x t.staticType) applied value))) := by
        refine everywhere_assign.2 ⟨?_, htarget, ?_⟩
        · intro hop
          cases hop
        · exact (everywhere_binary.2
            ⟨trivial, (everywhere_ident.2 trivial).inExpr, hvalue⟩).inExpr
      exact ⟨(steady_swap (fun _ => Inner.passable) hsteady hswap hnew rfl ⟨rfl, rfl⟩
        (tame_of_live (by simp [hlive]) rfl rfl)).1, steady_var ((inExpr_iff hfilled).1 htarget)⟩

/-- Moves change the census by what their temporaries say. -/
theorem Moves.census (ho : o.Apart) (hknows : Knows o old) {ns ns' : Names} {a v : Expr}
    {ts : List Temp} (h : Moves o c ns a ts v ns') (hspares : ns.Spares old)
    (hsteady : Everywhere (Steady o old) (.expr a)) :
    (((ts.flatMap Temp.statements).flatMap fun s => Expansion.census o old (.stmt s)) ++
        Expansion.census o old (.expr v) ++ ts.flatMap Temp.sites).Perm
      (Expansion.census o old (.expr a) ++ ts.flatMap Temp.traits) ∧
      Everywhere (Steady o old) (.expr v) ∧
      ∀ s ∈ ts.flatMap Temp.statements, Everywhere (Steady o old) (.stmt s) := by
  induction h with
  | none => exact ⟨by simp, hsteady, by simp⟩
  | @more ns ns' a b v t ts hmove _ ih =>
      have hone := hmove.census ho hknows hspares.not_mem hsteady
      obtain ⟨hb, ht⟩ := hmove.steady hsteady
      obtain ⟨hrest, hv, hts⟩ := ih hspares.fresh hb
      refine ⟨?_, hv, ?_⟩
      · rw [List.perm_iff_count] at hone hrest ⊢
        intro trait
        have h₁ := hone trait
        have h₂ := hrest trait
        simp only [List.flatMap_cons, List.flatMap_append, List.count_append] at h₁ h₂ ⊢
        omega
      · simp only [List.flatMap_cons, List.forall_mem_append]
        exact ⟨ht, hts⟩

/-! ## Lifts -/

theorem census_assigning (cond : Conditional) (s : Span) (x type : String) (op : Operator) :
    census o old (.stmt (cond.assigning (.ident s x type) op)) =
      census o old (.expr cond.test) ++ census o old (.expr cond.onTrue) ++
        census o old (.expr cond.onFalse) := by
  have hl := local_traits o old
  simp only [Conditional.assigning, Conditional.branches, census, hl.gather_branch,
    hl.gather_exprStmt, hl.gather_assign, gather_ident, traits_ident, List.nil_append]

/-- A lift adds nothing to the census but the declaration of its variable. -/
theorem Lifted.census {cond : Conditional} {ns ns' : Names} {s : Stmt} {new : List Stmt}
    (h : Lifted cond ns s new ns') (hspares : ns.Spares old) :
    (new.flatMap fun t => Expansion.census o old (.stmt t)).Perm
      (Expansion.census o old (.stmt s) ++ (liftTemps cond ns s).flatMap Temp.traits) := by
  have hl := local_traits o old
  have hassigning (s : Span) (x type : String) (op : Operator) :
      Expansion.census o old (.stmt (cond.assigning (.ident s x type) op)) = _ :=
    census_assigning cond s x type op
  simp only [Expansion.census] at hassigning ⊢
  cases h with
  | exit hleaves hexpr =>
      have hself := gather_leaves hl hleaves s.anchorExpr
      rw [withAnchorExpr_self (anchorSlot?_of_leaves hleaves), hexpr] at hself
      rw [liftTemps, isHeaded_of_leaves hleaves, hself, hl.gather_conditional]
      simp only [Conditional.branches, List.flatMap_cons, List.flatMap_nil, hl.gather_branch,
        hl.explicit, gather_leaves hl hleaves, List.append_nil, Bool.false_eq_true, if_false]
      exact .refl _
  | declared s name type type' =>
      simp only [liftTemps, isHeaded, List.flatMap_cons, List.flatMap_nil, hl.gather_var,
        hl.missing, hassigning, hl.gather_conditional, List.append_nil, Bool.false_eq_true,
        if_false, hl.var s s name type' type .missing cond.expr, List.append_assoc]
      exact .refl _
  | assigned s s' s'' x t op =>
      simp only [liftTemps, isHeaded, List.flatMap_cons, List.flatMap_nil, hassigning,
        hl.gather_exprStmt, hl.gather_assign, gather_ident, traits_ident, hl.gather_conditional,
        List.nil_append, List.append_nil, Bool.false_eq_true, if_false]
      exact .refl _
  | evaluated s =>
      simp only [liftTemps, isHeaded, Conditional.branches, List.flatMap_cons, List.flatMap_nil,
        hl.gather_branch, hl.gather_exprStmt, hl.gather_conditional, List.append_nil,
        Bool.false_eq_true, if_false]
      exact .refl _
  | stored hheaded hexpr =>
      obtain ⟨slot, hslot⟩ := Option.isSome_iff_exists.1 (anchorSlot?_of_isHeaded hheaded)
      obtain ⟨rest, hrest⟩ := gather_anchor hl hslot
      have hself := hrest s.anchorExpr
      rw [withAnchorExpr_self (by simp [hslot]), hexpr, hl.gather_conditional] at hself
      rw [List.perm_iff_count]
      intro trait
      simp only [liftTemps, hheaded, if_true, List.flatMap_cons, List.flatMap_nil, hl.gather_var,
        hl.missing, traits_var hspares.not_mem, hassigning, hrest, gather_ident, traits_ident,
        hself, Temp.traits, List.count_append, List.count_nil]
      omega

theorem steady_assigning {cond : Conditional} {s : Span} {x type : String} {op : Operator}
    (h : InExpr (Steady o old) cond.test ∧ InExpr (Steady o old) cond.onTrue ∧
      InExpr (Steady o old) cond.onFalse) :
    Everywhere (Steady o old) (.stmt (cond.assigning (.ident s x type) op)) := by
  have hone {value : Expr} (hvalue : InExpr (Steady o old) value) : Everywhere (Steady o old)
      (.stmt (.expr value.span (.assign value.span (.ident s x type) op value))) := by
    refine everywhere_exprStmt.2 ⟨trivial, (everywhere_assign.2 ⟨?_, ?_, hvalue⟩).inExpr⟩
    · intro _ _ e he
      cases he
    · exact (everywhere_ident.2 trivial).inExpr
  exact everywhere_branch.2 ⟨trivial, h.1, (hone h.2.1).inStmt, (hone h.2.2).inStmt⟩

theorem Lifted.steady {cond : Conditional} {ns ns' : Names} {s : Stmt} {new : List Stmt}
    (h : Lifted cond ns s new ns') (hsteady : Everywhere (Steady o old) (.stmt s)) :
    ∀ t ∈ new, Everywhere (Steady o old) (.stmt t) := by
  have hparts (h : InExpr (Steady o old) cond.expr) :
      InExpr (Steady o old) cond.test ∧ InExpr (Steady o old) cond.onTrue ∧
        InExpr (Steady o old) cond.onFalse :=
    (everywhere_conditional.1 ((inExpr_iff rfl).1 h)).2
  have hvar (s : Span) (x type : String) :
      Everywhere (Steady o old) (.stmt (.var s x type .missing)) :=
    everywhere_var.2 ⟨trivial, inExpr_missing _⟩
  cases h with
  | exit hleaves hexpr =>
      rw [← withAnchorExpr_self (anchorSlot?_of_leaves hleaves), hexpr] at hsteady
      obtain ⟨htest, honTrue, honFalse⟩ := hparts ((everywhere_leaves hleaves).1 hsteady).2
      rw [List.forall_mem_singleton]
      exact everywhere_branch.2 ⟨trivial, htest,
        ((everywhere_leavesExplicit hleaves).2 ⟨trivial, honTrue⟩).inStmt,
        ((everywhere_leavesExplicit hleaves).2 ⟨trivial, honFalse⟩).inStmt⟩
  | declared s name type type' =>
      have hexpr := hparts (everywhere_var.1 hsteady).2
      simp only [List.forall_mem_cons]
      exact ⟨hvar s name type', steady_assigning hexpr, by simp⟩
  | assigned s s' s'' x t op =>
      have hassign := (everywhere_exprStmt.1 hsteady).2
      have hexpr := hparts (everywhere_assign.1 ((inExpr_iff rfl).1 hassign)).2.2
      rw [List.forall_mem_singleton]
      exact steady_assigning hexpr
  | evaluated s =>
      obtain ⟨htest, honTrue, honFalse⟩ := hparts (everywhere_exprStmt.1 hsteady).2
      rw [List.forall_mem_singleton]
      exact everywhere_branch.2 ⟨trivial, htest,
        (everywhere_exprStmt.2 ⟨trivial, honTrue⟩).inStmt,
        (everywhere_exprStmt.2 ⟨trivial, honFalse⟩).inStmt⟩
  | stored hheaded hexpr =>
      obtain ⟨slot, hslot⟩ := Option.isSome_iff_exists.1 (anchorSlot?_of_isHeaded hheaded)
      obtain ⟨Rest, hanchor⟩ := everywhere_anchor (P := Steady o old) hslot
      rw [← withAnchorExpr_self (s := s) (by simp [hslot]), hexpr] at hsteady
      obtain ⟨_, hcond, hrest⟩ := (hanchor _).1 hsteady
      simp only [List.forall_mem_cons]
      exact ⟨hvar _ _ _, steady_assigning (hparts hcond),
        (hanchor _).2 ⟨trivial, (everywhere_ident.2 trivial).inExpr, hrest⟩, by simp⟩

/-! ## Steps -/

theorem Lifted.temp_sites (cond : Conditional) (ns : Names) (s : Stmt) :
    (liftTemps cond ns s).flatMap Temp.sites = [] := by
  unfold liftTemps
  split <;> rfl

theorem Turn.census (ho : o.Apart) (hknows : Knows o old) {ns ns' : Names} {s : Stmt}
    {ts : List Temp} {new : List Stmt} (h : Turn o ns s ts new ns') (hspares : ns.Spares old)
    (hsteady : Everywhere (Steady o old) (.stmt s)) :
    ((new.flatMap fun t => Expansion.census o old (.stmt t)) ++ ts.flatMap Temp.sites).Perm
      (Expansion.census o old (.stmt s) ++ ts.flatMap Temp.traits) ∧
      ∀ t ∈ new, Everywhere (Steady o old) (.stmt t) := by
  cases h with
  | lifted h =>
      refine ⟨?_, h.steady hsteady⟩
      rw [Lifted.temp_sites, List.append_nil]
      exact h.census hspares
  | @hoisted c slot ts v ns' hslot _ hmoves =>
      have hl := local_traits o old
      obtain ⟨Rest, hanchor⟩ := everywhere_anchor (P := Steady o old) hslot
      have hsteady' := hsteady
      rw [← withAnchorExpr_self (s := s) (by simp [hslot])] at hsteady'
      obtain ⟨_, hexpr, hothers⟩ := (hanchor _).1 hsteady'
      have hfilled : s.anchorExpr.isMissing = false ∨ ts = [] ∧ v = s.anchorExpr := by
        cases hmoves with
        | none => exact .inr ⟨rfl, rfl⟩
        | more h _ => exact .inl h.filled
      obtain ⟨rest, hrest⟩ := gather_anchor hl hslot
      have hself := hrest s.anchorExpr
      rw [withAnchorExpr_self (by simp [hslot])] at hself
      rcases hfilled with hfilled | ⟨rfl, rfl⟩
      · obtain ⟨hperm, hv, hnew⟩ :=
          hmoves.census ho hknows hspares ((inExpr_iff hfilled).1 hexpr)
        refine ⟨?_, ?_⟩
        · rw [List.perm_iff_count] at hperm ⊢
          intro trait
          have hcount := hperm trait
          simp only [Expansion.census, List.flatMap_append, List.flatMap_cons, List.flatMap_nil,
            hrest, hself, List.count_append, List.append_nil] at hcount ⊢
          omega
        · rw [List.forall_mem_append, List.forall_mem_singleton]
          exact ⟨hnew, (hanchor v).2 ⟨trivial, hv.inExpr, hothers⟩⟩
      · rw [withAnchorExpr_self (by simp [hslot])]
        exact ⟨by simp, by simpa using hsteady⟩

/-- A changed node with a site in it may have anything in it, unless it is a target. -/
theorem tame_holder {n n' : Node} (hlive : isLive o n = true)
    (hlambda : isLambda n' = true -> isLambda n = true) (hparts : repeatedIn n' = []) :
    Tame o old n n' where
  function h := ⟨hlambda h, hlive⟩
  parts _ := by simp [hparts]
  empty h := absurd h (census_ne_nil hlive)
  live _ := hlive

theorem steady_of_face {n : Node} (h : n.face? = none) : Steady o old n := by
  cases n <;> simp_all [Node.face?, Steady]

theorem isLambda_of_face {n : Node} (h : n.face? = none) : isLambda n = false := by
  cases n <;> simp_all [Node.face?, isLambda]

theorem repeatedIn_of_face {n : Node} (h : n.face? = none) : repeatedIn n = [] := by
  cases n <;> simp_all [Node.face?, repeatedIn]

theorem spliceable_steady (o : Options) (old : List String) : Spliceable (Steady o old) :=
  ⟨fun _ _ => trivial, fun _ _ _ => trivial⟩

/-- A step changes the census by what its temporaries say. -/
theorem Turns.census (ho : o.Apart) (hknows : Knows o old) {w w' : Work} {ts : List Temp}
    (h : Turns o w ts w') (hspares : w.names.Spares old)
    (hsteady : Everywhere (Steady o old) w.root) :
    (Expansion.census o old w'.root ++ ts.flatMap Temp.sites).Perm
      (Expansion.census o old w.root ++ ts.flatMap Temp.traits) ∧
      Everywhere (Steady o old) w'.root := by
  have hl := local_traits o old
  have hstep {a a' c c' : Node} {slot : Slot} (hlive : isLive o a = true) (hP : Steady o old a)
      (hget : a.get? slot = some c) (hset : a.set? slot c' = some a')
      (hfilled : c'.isFilled = true) (hR : Alike c c' ∧ Tame o old c c') :
      Steady o old a' ∧ Alike a a' ∧ Tame o old a a' :=
    ⟨steady_set hget hset hR.2 hP, alike_set hset, tame_set (fun _ => hlive) hget hset hfilled
      (hl.set hget hset hR.1.1 fun _ => hR.1.2) hR.2⟩
  cases h with
  | @wrapped p s ps e root' hat hfilled hlive hput =>
      have hlambda : isLive o (.expr (.lambda s ps (.value e))) = true :=
        isLive_of_at (p := [.body]) (by simp [at?, get?_lambdaValue s ps hfilled]) hlive
      refine ⟨?_, ?_⟩
      · obtain ⟨l, r, hold, hnew⟩ := hl.swap (swap_of_put hat hput) ⟨rfl, rfl⟩ rfl
        rw [Expansion.census, Expansion.census, hold, hnew, hl.gather_wrapped]
        simp
      · have hbody : Everywhere (Steady o old)
            (.expr (.lambda s ps (.block (.mk e.span [.ret e.span e])))) :=
          everywhere_wrapped (hsteady.at? hat) trivial trivial trivial
        exact (everywhere_swap hsteady (swap_live hat hput hlambda) hbody rfl
          ⟨⟨rfl, rfl⟩, tame_holder hlambda (fun _ => rfl) rfl⟩ hstep).1
  | @turned p slot parent s ts new names root' hp hparent hget hlive hfilled hturn hsplice =>
      have hat : w.root.at? (p ++ [slot]) = some (.stmt s) := at?_concat_eq_some.2 ⟨_, hp, hget⟩
      obtain ⟨hperm, hnew⟩ := hturn.census ho hknows hspares (hsteady.at? hat)
      refine ⟨?_, ?_⟩
      · obtain ⟨l, r, hold, hafter⟩ := splice_gather hl hat hfilled hsplice
        rw [List.perm_iff_count] at hperm ⊢
        intro trait
        have hcount := hperm trait
        simp only [Expansion.census, hold, hafter, List.count_append] at hcount ⊢
        omega
      · refine splice_everywhere (spliceable_steady o old) hsteady hat hlive hfilled hsplice hnew
          ?_ hstep
        intro p' slot' parent' changed heq hp' hget' hinto _
        obtain ⟨rfl, hslot⟩ := List.append_inj' heq rfl
        rw [hp] at hp'
        cases hp'
        have hface := (spliceInto_face hinto).1
        have habove : isLive o parent = true :=
          isLive_of_at (p := [slot']) (by simp [at?, hget']) hlive
        have hchanged : changed.face? = none := hface ▸ hparent
        refine ⟨steady_of_face hchanged, spliceInto_alike hinto, tame_holder habove ?_ ?_⟩
        · intro hlambda
          rw [isLambda_of_face hchanged] at hlambda
          cases hlambda
        · exact repeatedIn_of_face hchanged

end Steady

end EarlyExit.Expansion
