import EarlyExit.Container.Registry
import Mathlib.Tactic.SplitIfs

/-!
# Registries of distinct kinds

A registry is made by adding kinds one by one.  Each of them keeps every type name it
claims, whatever is added after it, so that a kind is found again by the name of its class.
-/

namespace EarlyExit

namespace Registry

/-- What an empty registry has and adding a kind keeps, every registry in use has. -/
theorem configured_induction {P : Registry -> Prop} (hempty : P ⟨[], []⟩)
    (hadd : ∀ {r r' : Registry} {k : Kind}, P r -> r.add k = .ok r' -> P r')
    {builtin : Bool} {further : List Kind} {r : Registry}
    (h : configured builtin further = .ok r) : P r := by
  have hfold : ∀ (ks : List Kind) (r₀ : Registry), P r₀ -> ks.foldlM add r₀ = .ok r -> P r := by
    intro ks
    induction ks with
    | nil =>
        intro r₀ hr₀ h
        cases h
        exact hr₀
    | cons k ks ih =>
        intro r₀ hr₀ h
        rw [List.foldlM_cons] at h
        cases hstep : r₀.add k with
        | error fault => simp [hstep, Bind.bind, Except.bind] at h
        | ok r₁ =>
            rw [hstep] at h
            exact ih r₁ (hadd hr₀ hstep) h
  unfold configured at h
  generalize (if builtin then Kind.builtin else []) ++ further = ks at h
  by_cases hnone : ks.isEmpty = true
  · simp [hnone] at h
  · simp only [hnone] at h
    exact hfold ks ⟨[], []⟩ hempty h

/-- A kind is added if it names its members and its type names are free. -/
theorem add_ok {r r' : Registry} {k : Kind} (h : r.add k = .ok r') :
    k.fault? = none ∧ firstOwned? r.owners k.claims = none ∧
      r' = ⟨r.kinds ++ [k], r.owners ++ k.claims.map fun name => (name, k)⟩ := by
  unfold add at h
  cases hfault : k.fault? with
  | some fault => simp [hfault] at h
  | none =>
      cases hfree : firstOwned? r.owners k.claims with
      | some owned => simp [hfault, hfree] at h
      | none =>
          simp only [hfault, hfree, Except.ok.injEq] at h
          exact ⟨rfl, rfl, h.symm⟩

theorem firstOwned?_eq_none {owners : List (String × Kind)} {names : List String} :
    firstOwned? owners names = none ↔ ∀ name ∈ names, owners.lookup name = none := by
  induction names with
  | nil => simp [firstOwned?]
  | cons name rest ih =>
      rw [List.forall_mem_cons, ← ih]
      cases hname : owners.lookup name <;> simp only [firstOwned?, hname] <;> simp

theorem lookup_claimed {k : Kind} {name : String} {names : List String} (h : name ∈ names) :
    (names.map fun name => (name, k)).lookup name = some k := by
  induction names with
  | nil => cases h
  | cons first rest ih =>
      by_cases heq : name = first
      · simp [heq]
      · simp only [List.map_cons, List.lookup_cons, beq_eq_false_iff_ne.2 heq]
        exact ih (by simpa [heq] using h)

/-! ## Owners -/

/-- Whatever is looked up is a kind of the registry. -/
def Closed (r : Registry) : Prop :=
  ∀ x ∈ r.owners, x.2 ∈ r.kinds

/-- Every kind names its members and owns the type names it claims. -/
def Owned (r : Registry) : Prop :=
  ∀ k ∈ r.kinds, k.fault? = none ∧ ∀ name ∈ k.claims, r.owners.lookup name = some k

theorem closed_add {r r' : Registry} {k : Kind} (hr : r.Closed) (h : r.add k = .ok r') :
    r'.Closed := by
  obtain ⟨-, -, rfl⟩ := add_ok h
  intro x hx
  rcases List.mem_append.1 hx with hx | hx
  · exact List.mem_append_left _ (hr x hx)
  · obtain ⟨name, -, rfl⟩ := List.mem_map.1 hx
    exact List.mem_append_right _ (by simp)

theorem owned_add {r r' : Registry} {k : Kind} (hr : r.Owned) (h : r.add k = .ok r') :
    r'.Owned := by
  obtain ⟨hfault, hfree, rfl⟩ := add_ok h
  intro l hl
  rcases List.mem_append.1 hl with hl | hl
  · refine ⟨(hr l hl).1, fun name hname => ?_⟩
    rw [List.lookup_append, (hr l hl).2 name hname]
    rfl
  · obtain rfl : l = k := by simpa using hl
    refine ⟨hfault, fun name hname => ?_⟩
    rw [List.lookup_append, firstOwned?_eq_none.1 hfree name hname, lookup_claimed hname]
    rfl

theorem closed_configured {builtin : Bool} {further : List Kind} {r : Registry}
    (h : configured builtin further = .ok r) : r.Closed :=
  configured_induction (by intro x hx; cases hx) closed_add h

theorem owned_configured {builtin : Bool} {further : List Kind} {r : Registry}
    (h : configured builtin further = .ok r) : r.Owned :=
  configured_induction (by intro k hk; cases hk) owned_add h

theorem lookup_mem {r : Registry} (hr : r.Closed) {type : String} {k : Kind}
    (h : r.lookup type = some k) : k ∈ r.kinds := by
  obtain ⟨before, after, heq, -⟩ := List.lookup_eq_some_iff.1 h
  exact hr (baseType type, k) (by simp [heq])

/-- Two kinds do not share the name of their class. -/
theorem Owned.name_injective {r : Registry} (hr : r.Owned) {k l : Kind} (hk : k ∈ r.kinds)
    (hl : l ∈ r.kinds) (hname : l.name = k.name) : l = k := by
  have hlk := (hr l hl).2 l.name (by simp [Kind.claims])
  rw [hname, (hr k hk).2 k.name (by simp [Kind.claims])] at hlk
  exact (Option.some_inj.1 hlk).symm

theorem Owned.byName?_name {r : Registry} (hr : r.Owned) {k : Kind} (hk : k ∈ r.kinds) :
    r.byName? k.name = some k := by
  cases hfind : r.byName? k.name with
  | none =>
      have hmiss := List.find?_eq_none.1 hfind k hk
      simp at hmiss
  | some l =>
      have hname : l.name = k.name := by simpa using List.find?_some hfind
      rw [hr.name_injective hk (List.mem_of_find?_eq_some hfind) hname]

end Registry

end EarlyExit
