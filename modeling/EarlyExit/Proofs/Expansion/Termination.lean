import EarlyExit.Proofs.Expansion.Stability
import EarlyExit.Proofs.Expansion.Workload
import EarlyExit.Proofs.Settings

/-!
# Runs are short

Each step lowers the workload, so a run takes at most as many steps as the workload of the
tree it starts with, and reaches its limit only when the workload is above it.
-/

namespace EarlyExit.Expansion

/-! ## The number of steps -/

theorem Takes.workload {o : Options} (ho : o.Apart) {k : Nat} {w w' : Work}
    (h : Takes o k w w') : k + workload o w'.root ≤ workload o w.root := by
  induction h with
  | none w => omega
  | more hone _ ih =>
      obtain ⟨_, settled, _, hstep⟩ := step_some hone
      have hless := (hstep.eases ho).load
      omega

/-- A run that ends well has taken no more steps than there was to do. -/
theorem run_steps {o : Options} (ho : o.Apart) {limit left : Nat} {w : Work} {r : Run}
    (h : run o limit left w = .ok r) : r.steps ≤ workload o w.root := by
  obtain ⟨w', htakes, _, _, _⟩ := run_ok h
  have := htakes.workload ho
  omega

/-- A run that has used up its steps had more than those to do. -/
theorem run_diverged {o : Options} (ho : o.Apart) {limit left : Nat} {w : Work} {span : Span}
    {steps : Int} (h : run o limit left w = .error (.diverged span steps)) :
    left < workload o w.root := by
  obtain ⟨k, w', htakes, hend⟩ := run_error h
  rcases hend with herror | ⟨rfl, _, change, hone⟩
  · rcases step_error ho herror with hd | ⟨_, _, hd⟩ <;> cases hd
  · obtain ⟨_, settled, _, hstep⟩ := step_some hone
    have hless := (hstep.eases ho).load
    have := htakes.workload ho
    omega

/-- The limit does not overflow as long as it is a number of 63 bits. -/
theorem stepLimit_eq {s : Settings} {r : Registry} {n : Nat} (h : 64 * (n + 1) < 2 ^ 63) :
    stepLimit (s.options r) n = 64 * (n + 1) := by
  have hn : (Int64.ofNat n).toInt = n := Int64.toInt_ofNat_of_lt (by omega)
  have hone : (1 : Int64).toInt = 1 := rfl
  have hsum : (Int64.ofNat n + 1).toInt = n + 1 := by
    rw [Int64.toInt_add, hn, hone, Int.bmod_eq_of_le (by omega) (by omega)]
  have hproduct : (64 * (Int64.ofNat n + 1)).toInt = 64 * (n + 1) := by
    have hfactor : (64 : Int64).toInt = 64 := rfl
    rw [Int64.toInt_mul, hsum, hfactor, Int.bmod_eq_of_le (by omega) (by omega)]
  unfold stepLimit
  rw [Settings.options_maxSteps, hproduct]
  omega

/--
Expansions with checked settings end.  Each step lowers the workload, takes away as many sites
as it puts in tests, and so adds none.  A run takes at most as many steps as the workload of
the unit, and has too few steps only if that is above the limit.
-/
theorem expand_terminates {s : Settings} {r : Registry} (h : s.check = .ok r) :
    (∀ w change, step (s.options r) w = .ok (some change) ->
      workload (s.options r) change.work.root < workload (s.options r) w.root ∧
      ∃ flags tests, settles (s.options r) w = .ok (flags, tests) ∧
        siteCount (s.options r) change.work.root + tests.length =
          siteCount (s.options r) w.root) ∧
    ∀ u,
      (∀ report, expand (s.options r) u = .ok report ->
        report.steps ≤ workload (s.options r) (.unit u)) ∧
      ∀ span steps, expand (s.options r) u = .error (.diverged span steps) ->
        stepLimit (s.options r) (siteCount (s.options r) (.unit u)) <
          workload (s.options r) (.unit u) ∧
        (64 * (siteCount (s.options r) (.unit u) + 1) < 2 ^ 63 ->
          64 * (siteCount (s.options r) (.unit u) + 1) < workload (s.options r) (.unit u)) := by
  have ho := s.options_apart h
  refine ⟨?_, fun u => ⟨?_, ?_⟩⟩
  · intro w change hstep
    obtain ⟨_, ⟨flags, tests⟩, hsettles, hstepped⟩ := step_some hstep
    exact ⟨(hstepped.eases ho).load, flags, tests, hsettles, (hstepped.remains ho).count_sites⟩
  · intro report hreport
    have hexpanded := expand_spec (s.options r) u
    rw [hreport] at hexpanded
    cases hexpanded with
    | rejected _ _ hsteps _ => omega
    | finished _ hrun _ hsteps _ =>
        have := run_steps ho hrun
        rw [hsteps]
        exact this
  · intro span steps herror
    have hexpanded := expand_spec (s.options r) u
    rw [herror] at hexpanded
    have hless : stepLimit (s.options r) (siteCount (s.options r) (.unit u)) <
        workload (s.options r) (.unit u) := by
      cases hexpanded with
      | misfit hfirst => cases firstDefect?_eq_some hfirst
      | stopped _ hrun => exact run_diverged ho hrun
    refine ⟨hless, fun hbound => ?_⟩
    rwa [stepLimit_eq hbound] at hless

/-- A unit with the method `m() { return flag ? f().unwrap() : 0; }`. -/
def branchingUnit : CompilationUnit where
  file := "Branching.java"
  methods := [{
    name := "m"
    returns := "Either<String, Integer>"
    body := some (.mk .nowhere [.ret .nowhere (.conditional .nowhere
      (.ident .nowhere "flag" "boolean")
      (.call .nowhere (.call .nowhere .missing "f" [] "Either<String, Integer>") "unwrap" []
        "Integer")
      (.literal .nowhere (.int 0) "") "Integer")]) }]

theorem expand_terminates_branchingUnit :
    ∃ report, expand (({} : Settings).options .standard) branchingUnit = .ok report ∧
      report.steps = 2 ∧
      report.steps ≤ workload (({} : Settings).options .standard) (.unit branchingUnit) := by
  have hsteps : (expand (({} : Settings).options .standard) branchingUnit).toOption.map
      Report.steps = some 2 := by decide +kernel
  cases hreport : expand (({} : Settings).options .standard) branchingUnit with
  | error d =>
      rw [hreport] at hsteps
      cases hsteps
  | ok report =>
      rw [hreport] at hsteps
      have hends := (expand_terminates Settings.check_default).2 branchingUnit
      exact ⟨report, rfl, Option.some.inj hsteps, hends.1 report hreport⟩

end EarlyExit.Expansion
