import EarlyExit.Proofs.Container.Registry
import Mathlib.Data.List.Pairwise
import Mathlib.Data.List.Perm.Basic

/-!
# Registries in any order

A list of kinds makes a registry exactly if every kind names its members and no two entries of
the list claim one type name; a kind that is listed twice counts as two.  Neither depends on
the order, and then a type name leads to the one kind that matches it.
-/

namespace EarlyExit

theorem Kind.matches_iff {k : Kind} {type : String} :
    k.matches type = true ↔ baseType type ≠ "" ∧ baseType type ∈ k.claims := by
  simp [Kind.matches]

namespace Registry

/-! ## Kinds that get along -/

/-- Two kinds without a type name in common. -/
def Apart (k l : Kind) : Prop :=
  ∀ name ∈ k.claims, name ∉ l.claims

/-- Every kind names its members, and no two of the list claim one type name. -/
structure Compatible (ks : List Kind) : Prop where
  usable : ∀ k ∈ ks, k.fault? = none
  apart : ks.Pairwise Apart

theorem Apart.symm {k l : Kind} (h : Apart k l) : Apart l k :=
  fun name hl hk => h name hk hl

instance : Std.Symm Apart :=
  ⟨fun _ _ => Apart.symm⟩

theorem Compatible.perm {ks ls : List Kind} (h : Compatible ks) (hperm : ls.Perm ks) :
    Compatible ls where
  usable k hk := h.usable k (hperm.mem_iff.1 hk)
  apart := (hperm.pairwise_iff Apart.symm).2 h.apart

/-- Two kinds of the list that claim one name are one kind. -/
theorem Compatible.unique {ks : List Kind} (h : Compatible ks) {k l : Kind} (hk : k ∈ ks)
    (hl : l ∈ ks) {name : String} (hname : name ∈ k.claims) (hname' : name ∈ l.claims) : l = k := by
  by_contra hne
  exact h.apart.forall hl hk hne name hname' hname

/-- No two entries of the list match one type. -/
theorem Compatible.countP_le {ks : List Kind} (h : Compatible ks) (type : String) :
    ks.countP (·.matches type) ≤ 1 := by
  have hapart : (ks.filter (·.matches type)).Pairwise Apart := h.apart.filter _
  have hmatches : ∀ k ∈ ks.filter (·.matches type), baseType type ∈ k.claims :=
    fun k hk => (Kind.matches_iff.1 (List.mem_filter.1 hk).2).2
  rw [List.countP_eq_length_filter]
  generalize ks.filter (·.matches type) = found at hapart hmatches
  match found with
  | [] | [_] => simp
  | k :: l :: rest =>
      have hkl : Apart k l := (List.pairwise_cons.1 hapart).1 l (by simp)
      exact absurd (hmatches l (by simp)) (hkl _ (hmatches k (by simp)))

/-! ## Adding kinds -/

/-- What the kinds of a list own. -/
def entries (ks : List Kind) : List (String × Kind) :=
  ks.flatMap fun k => k.claims.map fun name => (name, k)

theorem mem_entries {ks : List Kind} {name : String} {k : Kind} :
    (name, k) ∈ entries ks ↔ k ∈ ks ∧ name ∈ k.claims := by
  simp only [entries, List.mem_flatMap, List.mem_map, Prod.mk.injEq]
  constructor
  · rintro ⟨l, hl, _, hname, rfl, rfl⟩
    exact ⟨hl, hname⟩
  · rintro ⟨hk, hname⟩
    exact ⟨k, hk, name, hname, rfl, rfl⟩

theorem add_eq_ok {r r' : Registry} {k : Kind} : r.add k = .ok r' ↔
    k.fault? = none ∧ (∀ name ∈ k.claims, r.owners.lookup name = none) ∧
      r' = ⟨r.kinds ++ [k], r.owners ++ k.claims.map fun name => (name, k)⟩ := by
  rw [← firstOwned?_eq_none]
  constructor
  · exact add_ok
  · rintro ⟨hfault, hfree, rfl⟩
    simp only [add, hfault, hfree]

/-- Adding kinds one by one to a registry. -/
theorem foldlM_add_eq_ok {ks : List Kind} {r r' : Registry} : ks.foldlM add r = .ok r' ↔
    Compatible ks ∧ (∀ k ∈ ks, ∀ name ∈ k.claims, r.owners.lookup name = none) ∧
      r' = ⟨r.kinds ++ ks, r.owners ++ entries ks⟩ := by
  induction ks generalizing r with
  | nil =>
      have hempty : Compatible [] := ⟨by simp, .nil⟩
      constructor
      · intro h
        cases h
        exact ⟨hempty, by simp, by simp [entries]⟩
      · rintro ⟨-, -, rfl⟩
        simp [entries, pure, Except.pure]
  | cons k ks ih =>
      have hcompatible : Compatible (k :: ks) ↔
          k.fault? = none ∧ (∀ l ∈ ks, Apart k l) ∧ Compatible ks := by
        constructor
        · rintro ⟨husable, hapart⟩
          rw [List.pairwise_cons] at hapart
          exact ⟨husable k (by simp), hapart.1, fun l hl => husable l (by simp [hl]), hapart.2⟩
        · rintro ⟨hfault, hapart, husable, hrest⟩
          exact ⟨List.forall_mem_cons.2 ⟨hfault, husable⟩, List.pairwise_cons.2 ⟨hapart, hrest⟩⟩
      -- a name is free behind `k` if it was free before and `k` does not claim it
      have hfree (name : String) : (r.owners ++ k.claims.map fun name => (name, k)).lookup name = none ↔
          r.owners.lookup name = none ∧ name ∉ k.claims := by
        rw [List.lookup_append, Option.or_eq_none_iff]
        refine and_congr_right fun _ => ⟨fun h hname => ?_, fun h => ?_⟩
        · simp [lookup_claimed hname] at h
        · rw [List.lookup_eq_none_iff]
          rintro x hx
          obtain ⟨name', hname', rfl⟩ := List.mem_map.1 hx
          simpa using fun heq : name = name' => h (heq ▸ hname')
      rw [List.foldlM_cons, hcompatible]
      constructor
      · intro h
        cases hadd : r.add k with
        | error fault => simp [hadd, Bind.bind, Except.bind] at h
        | ok r₁ =>
            rw [hadd] at h
            obtain ⟨hfault, hnone, rfl⟩ := add_eq_ok.1 hadd
            obtain ⟨hrest, hnames, rfl⟩ := ih.1 h
            refine ⟨⟨hfault, fun l hl name hk hname => ?_, hrest⟩, ?_, ?_⟩
            · exact ((hfree name).1 (hnames l hl name hname)).2 hk
            · exact List.forall_mem_cons.2
                ⟨hnone, fun l hl name hname => ((hfree name).1 (hnames l hl name hname)).1⟩
            · simp [entries]
      · rintro ⟨⟨hfault, hapart, hrest⟩, hnames, rfl⟩
        rw [List.forall_mem_cons] at hnames
        rw [add_eq_ok.2 ⟨hfault, hnames.1, rfl⟩]
        refine ih.2 ⟨hrest, fun l hl name hname => (hfree name).2 ⟨hnames.2 l hl name hname, ?_⟩, ?_⟩
        · exact fun hk => hapart l hl name hk hname
        · simp [entries]

theorem ofKinds_eq_ok {ks : List Kind} {r : Registry} :
    ofKinds ks = .ok r ↔ Compatible ks ∧ r = ⟨ks, entries ks⟩ := by
  rw [ofKinds, foldlM_add_eq_ok]
  simp

theorem ofKinds_compatible {ks : List Kind} : (∃ r, ofKinds ks = .ok r) ↔ Compatible ks := by
  simp [ofKinds_eq_ok]

/-- The owner of a name is the kind that claims it. -/
theorem lookup_entries {ks : List Kind} (h : Compatible ks) {name : String} {k : Kind} :
    (entries ks).lookup name = some k ↔ k ∈ ks ∧ name ∈ k.claims := by
  have hmem {l : Kind} (hl : (entries ks).lookup name = some l) : l ∈ ks ∧ name ∈ l.claims := by
    obtain ⟨before, after, heq, _⟩ := List.lookup_eq_some_iff.1 hl
    exact mem_entries.1 (by simp [heq])
  refine ⟨hmem, fun ⟨hk, hname⟩ => ?_⟩
  cases hfound : (entries ks).lookup name with
  | none =>
      have hmiss := List.lookup_eq_none_iff.1 hfound (name, k) (mem_entries.2 ⟨hk, hname⟩)
      simp at hmiss
  | some l => rw [h.unique hk (hmem hfound).1 hname (hmem hfound).2]

/--
Kinds make a registry in any order or in none, and all orders look up the same.  What is found
for a type with a name is the one kind that matches the type.
-/
theorem ofKinds_order_independent (ks : List Kind) :
    ((∃ r, ofKinds ks = .ok r) ↔
      (∀ k ∈ ks, k.fault? = none) ∧ ks.Pairwise fun k l => ∀ name ∈ k.claims, name ∉ l.claims) ∧
    (∀ ls, ls.Perm ks -> ((∃ s, ofKinds ls = .ok s) ↔ ∃ r, ofKinds ks = .ok r)) ∧
    ∀ r, ofKinds ks = .ok r ->
      (∀ ls s, ls.Perm ks -> ofKinds ls = .ok s -> ∀ type, s.lookup type = r.lookup type) ∧
      ∀ type, baseType type ≠ "" ->
        (∀ k, r.lookup type = some k ↔ k ∈ r.kinds ∧ k.matches type = true) ∧
          r.kinds.countP (·.matches type) ≤ 1 := by
  refine ⟨?_, fun ls hperm => ?_, fun r hr => ?_⟩
  · rw [ofKinds_compatible]
    exact ⟨fun h => ⟨h.usable, h.apart⟩, fun h => ⟨h.1, h.2⟩⟩
  · rw [ofKinds_compatible, ofKinds_compatible]
    exact ⟨fun h => h.perm hperm.symm, fun h => h.perm hperm⟩
  obtain ⟨hks, rfl⟩ := ofKinds_eq_ok.1 hr
  refine ⟨fun ls s hperm hs type => ?_, fun type hbase => ⟨fun k => ?_, hks.countP_le type⟩⟩
  · obtain ⟨hls, rfl⟩ := ofKinds_eq_ok.1 hs
    refine Option.ext fun k => ?_
    simp only [lookup, lookup_entries hls, lookup_entries hks, hperm.mem_iff]
  · simp only [lookup, lookup_entries hks, Kind.matches_iff, ne_eq, hbase, not_false_eq_true,
      true_and]

theorem ofKinds_order_independent_vavr : ∃ r s,
    ofKinds [.either, .option] = .ok r ∧ ofKinds [.option, .either] = .ok s ∧
      s.lookup "io.vavr.control.Either<String, Integer>" = some .either ∧
      r.lookup "io.vavr.control.Either<String, Integer>" = some .either := by
  have hperm : [Kind.option, .either].Perm [.either, .option] := .swap _ _ _
  obtain ⟨_, horder, hlookup⟩ := ofKinds_order_independent [.either, .option]
  have hr : ofKinds [.either, .option] = .ok ⟨[.either, .option], entries [.either, .option]⟩ := rfl
  obtain ⟨s, hs⟩ := (horder _ hperm).2 ⟨_, hr⟩
  obtain ⟨hsame, hmatches⟩ := hlookup _ hr
  have hbase : baseType "io.vavr.control.Either<String, Integer>" = "Either" := by decide +kernel
  have hfound := (hmatches "io.vavr.control.Either<String, Integer>" (by simp [hbase])).1 .either
  have heither := hfound.2 ⟨by simp, by simp [Kind.matches_iff, hbase, Kind.claims, Kind.either]⟩
  exact ⟨_, s, hr, hs, (hsame _ s hperm hs _).trans heither, heither⟩

end Registry

end EarlyExit
