import EarlyExit.Proofs.Container.Registry
import EarlyExit.Proofs.Expansion.Cleared

/-!
# Settings that a run can be made with

The check of the settings looks at the kinds of the registry, an expansion at the owners of
type names.  Every owner is one of the kinds, so what was checked holds of all that is
looked up.
-/

namespace EarlyExit

namespace Settings

/-- What a passed check says. -/
theorem check_ok {s : Settings} {r : Registry} (h : s.check = .ok r) :
    isIdentifier s.sentinel = true ∧ isIdentifier s.stem = true ∧ s.registry = .ok r ∧
      ∀ k ∈ r.kinds, s.sentinel ∉ calledMembers k := by
  unfold check at h
  simp only [Bind.bind, Except.bind, pure, Except.pure, throw, throwThe, MonadExceptOf.throw] at h
  repeat' split at h
  all_goals cases h
  next hsentinel hstem _ _ _ _ _ _ hregistry hnone =>
    refine ⟨by simpa using hsentinel, by simpa using hstem, hregistry, ?_⟩
    intro k hk hmem
    have hmiss := List.find?_eq_none.1 hnone k hk
    simp [hmem] at hmiss

theorem isEmpty_of_isIdentifier {text : String} (h : isIdentifier text = true) :
    text.isEmpty = false := by
  by_cases hempty : text = ""
  · subst hempty
    simp [isIdentifier] at h
  · simpa using hempty

theorem options_apart {s : Settings} {r : Registry} (h : s.check = .ok r) :
    (s.options r).Apart := by
  obtain ⟨hsentinel, _, hregistry, hmembers⟩ := check_ok h
  have hclosed : r.Closed := Registry.closed_configured hregistry
  intro type k hk
  simp only [options, Expansion.Options.ofTexts, isEmpty_of_isIdentifier hsentinel] at hk ⊢
  exact hmembers k (Registry.lookup_mem hclosed hk)

theorem options_maxSteps (s : Settings) (r : Registry) : (s.options r).maxSteps = 64 := rfl

theorem parse_warn : LogLevel.parse "warn" = .ok 2 := by
  have hfold : LogLevel.names.lookup (Text.fold "warn") = some 2 := by decide +kernel
  simp [LogLevel.parse, hfold]

/-- A run can be made with further kinds that do not name the sentinel. -/
theorem check_kinds {further : List Kind} {r : Registry}
    (hregistry : Registry.configured true further = .ok r)
    (hapart : (r.kinds.find? fun k => (calledMembers k).contains "unwrap") = none) :
    ({ kinds := further } : Settings).check = .ok r := by
  have hsentinel : isIdentifier "unwrap" = true := by decide
  have hstem : isIdentifier "$unwrap" = true := by decide +kernel
  have hcolor : colorModes.contains "auto" = true := by decide
  simp only [check, hsentinel, hstem, hcolor, parse_warn, registry, hregistry, hapart]
  rfl

/-- A run can be made with the default settings. -/
theorem check_default : ({} : Settings).check = .ok .standard :=
  check_kinds rfl (by decide)

end Settings

end EarlyExit
