import EarlyExit.Proofs.Expansion.Exits

/-!
# Acceptance along a run

Every site is placed anew after each step.  An accepted site stays accepted, unless it is
stuck: a conditional without a type in the test of another one becomes the test of an `if`
statement, and cannot leave that without a typed variable.
-/

namespace EarlyExit.Expansion

/-- A weave as long as both lists together has all their entries. -/
theorem weave_perm {flags : List Bool} {now later : List α}
    (h : (weave flags now later).length = now.length + later.length) :
    (weave flags now later).Perm (now ++ later) := by
  fun_induction weave flags now later with
  | case1 flags x now later ih =>
      simp only [List.length_cons] at h
      exact (ih (by omega)).cons x
  | case2 flags now y later ih =>
      simp only [List.length_cons] at h
      have := (ih (by omega)).cons y
      exact this.trans List.perm_middle.symm
  | case3 flags now later =>
      have hnow : now = [] := List.length_eq_zero_iff.1 (by simp at h; omega)
      have hlater : later = [] := List.length_eq_zero_iff.1 (by simp at h; omega)
      subst hnow hlater
      exact .nil

/-- A step neither loses a fate nor adds one. -/
theorem step_fates {o : Options} (ho : o.Apart) {w : Work} {change : Change}
    (h : step o w = .ok (some change)) :
    none ∈ fates o change.work.root ↔ none ∈ fates o w.root := by
  obtain ⟨hplace, settled, _, hstepped⟩ := step_some h
  have hremains := hstepped.remains ho
  have hfates := hremains.weave_fates hplace
  have hlength (n : Node) : (fates o n).length = siteCount o n := by
    simp [fates, length_ways]
  have htotal : (weave settled.1 (settled.2.map some) (fates o change.work.root)).length =
      (settled.2.map some).length + (fates o change.work.root).length := by
    rw [← hfates, hlength, hlength, ← hremains.count_sites, List.length_map]
    omega
  have hperm := weave_perm htotal
  rw [← hfates] at hperm
  simp [hperm.mem_iff]

/-- A site whose fate is known is accepted. -/
theorem accepted_of_fates {o : Options} {root : Node} (h : none ∉ fates o root) :
    Accepted o root := by
  rw [accepted_iff]
  intro w hw
  have hfate : fate w ≠ none := fun hnone => h (hnone ▸ List.mem_map_of_mem hw)
  cases hp : prospect? .walking w with
  | some p => rfl
  | none => simp [fate, hp] at hfate

theorem unstuck_fates {o : Options} {root : Node} (h : Accepted o root) :
    Unstuck o root ↔ none ∉ fates o root := by
  rw [unstuck_iff h]
  exact ⟨fun hall hnone => hall none hnone rfl, fun hnot f hf hnone => hnot (hnone ▸ hf)⟩

/-- Whatever steps lead to has a site of unknown fate if the start has. -/
theorem takes_fates {o : Options} (ho : o.Apart) {k : Nat} {w w' : Work} (h : Takes o k w w') :
    none ∈ fates o w'.root ↔ none ∈ fates o w.root := by
  induction h with
  | none w => rfl
  | more hone _ ih => exact ih.trans (step_fates ho hone)

/-- Steps from a tree without a stuck site fail only because of a node. -/
theorem run_unstuck {o : Options} (ho : o.Apart) {limit left : Nat} {w : Work} {span : Span}
    (h : none ∉ fates o w.root) : run o limit left w ≠ .error (.lateRejection span) := by
  intro herror
  obtain ⟨k, w', htakes, hend⟩ := run_error herror
  rcases hend with hstep | ⟨_, hd, _⟩
  · have hw' : none ∉ fates o w'.root := fun hnone => h ((takes_fates ho htakes).1 hnone)
    rcases step_error ho hstep with hd | ⟨hnot, _⟩
    · cases hd
    · exact hnot (accepted_of_fates hw')
  · cases hd

/--
Steps keep all sites accepted as long as no site is stuck, and then no site is stuck after
them either.  So the expansion of a unit whose sites are accepted reports a late rejection only
if one of them is stuck; and then it never gives a unit.
-/
theorem accepted_unless_stuck {s : Settings} {r : Registry} (h : s.check = .ok r) :
    (∀ w change, step (s.options r) w = .ok (some change) -> Unstuck (s.options r) w.root ->
      Accepted (s.options r) change.work.root ∧ Unstuck (s.options r) change.work.root) ∧
    ∀ u, Accepted (s.options r) (.unit u) ->
      (Unstuck (s.options r) (.unit u) ->
        ∀ span, expand (s.options r) u ≠ .error (.lateRejection span)) ∧
      (¬Unstuck (s.options r) (.unit u) -> ∀ report, expand (s.options r) u ≠ .ok report) := by
  have ho := s.options_apart h
  refine ⟨?_, fun u haccepted => ⟨?_, ?_⟩⟩
  · intro w change hstep hunstuck
    obtain ⟨hplace, _⟩ := step_some hstep
    have hknown := (unstuck_fates (accepted_iff.2 hplace)).1 hunstuck
    have hkept : none ∉ fates (s.options r) change.work.root :=
      fun hnone => hknown ((step_fates ho hstep).1 hnone)
    have haccepted := accepted_of_fates hkept
    exact ⟨haccepted, (unstuck_fates haccepted).2 hkept⟩
  · intro hunstuck span herror
    have hexpanded := expand_spec (s.options r) u
    rw [herror] at hexpanded
    cases hexpanded with
    | misfit hfirst => cases firstDefect?_eq_some hfirst
    | stopped _ hrun => exact run_unstuck ho ((unstuck_fates haccepted).1 hunstuck) hrun
  · intro hstuck report hreport
    have hexpanded := expand_spec (s.options r) u
    rw [hreport] at hexpanded
    cases hexpanded with
    | rejected _ hrejected => exact hrejected (admitted_iff.2 haccepted).unrejected
    | finished _ hrun =>
        obtain ⟨w, htakes, hend, _, _⟩ := run_ok hrun
        have hnone : none ∈ fates (s.options r) (start (s.options r) u).root := by
          by_contra hknown
          exact hstuck ((unstuck_fates haccepted).2 hknown)
        have := (takes_fates ho htakes).2 hnone
        simp [fates, isLive_eq_false.1 (step_none hend)] at this

/--
A unit with the method `m() { return (flag ? f().unwrap() : null) ? 1 : 2; }`, where the inner
conditional has no type.
-/
def stuckUnit : CompilationUnit where
  file := "Stuck.java"
  methods := [{
    name := "m"
    returns := "Either<String, Integer>"
    body := some (.mk .nowhere [.ret .nowhere (.conditional .nowhere
      (.conditional .nowhere (.ident .nowhere "flag" "boolean")
        (.call .nowhere (.call .nowhere .missing "f" [] "Either<String, Integer>") "unwrap" [] "")
        (.literal .nowhere .null "") "")
      (.literal .nowhere (.int 1) "") (.literal .nowhere (.int 2) "") "")]) }]

theorem accepted_unless_stuck_stuckUnit :
    Accepted (({} : Settings).options .standard) (.unit stuckUnit) ∧
      ¬Unstuck (({} : Settings).options .standard) (.unit stuckUnit) ∧
      ∀ report, expand (({} : Settings).options .standard) stuckUnit ≠ .ok report := by
  have haccepted : Accepted (({} : Settings).options .standard) (.unit stuckUnit) := by
    decide +kernel
  have hstuck : ¬Unstuck (({} : Settings).options .standard) (.unit stuckUnit) := by
    decide +kernel
  exact ⟨haccepted, hstuck,
    ((accepted_unless_stuck Settings.check_default).2 stuckUnit haccepted).2 hstuck⟩

end EarlyExit.Expansion
