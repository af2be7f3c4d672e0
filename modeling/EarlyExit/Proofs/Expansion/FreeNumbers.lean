import EarlyExit.Proofs.Expansion.Fresh
import EarlyExit.Proofs.Tree.Swap
import Mathlib.Data.Nat.Nth

/-!
# The free numbers in order

A number is free if its name is not taken.  Only finitely many names are taken, so there is
always a next free number, and the names handed out are those of all the free numbers from the
first one to try, in order and without a gap.
-/

namespace EarlyExit.Expansion

open Node

namespace Names

variable {ns : Names}

/-- The number makes a name that is not taken. -/
def Free (ns : Names) (n : Nat) : Prop :=
  ns.name n ∉ ns.taken

instance : DecidablePred ns.Free := fun n =>
  inferInstanceAs (Decidable (ns.name n ∉ ns.taken))

theorem free_firstFree (ns : Names) : ns.Free (ns.firstFree ns.taken.length ns.next) :=
  ns.fresh_not_taken

/-- The search passes over no free number. -/
theorem not_free_of_lt_firstFree {fuel n i : Nat} (hle : n ≤ i) (hlt : i < ns.firstFree fuel n) :
    ¬ns.Free i := by
  induction fuel generalizing n with
  | zero =>
      rw [firstFree] at hlt
      omega
  | succ fuel ih =>
      rw [firstFree] at hlt
      by_cases htaken : ns.taken.contains (ns.name n) = true
      · rw [if_pos htaken] at hlt
        rcases Nat.eq_or_lt_of_le hle with rfl | hlt'
        · simpa [Free] using htaken
        · exact ih hlt' hlt
      · rw [if_neg htaken] at hlt
        omega

/-- The search ends at the first free number from where it begins. -/
theorem isLeast_firstFree (ns : Names) :
    IsLeast {n | ns.next ≤ n ∧ ns.Free n} (ns.firstFree ns.taken.length ns.next) := by
  refine ⟨⟨ns.le_firstFree _ _, ns.free_firstFree⟩, fun n hn => ?_⟩
  by_contra hlt
  exact not_free_of_lt_firstFree hn.1 (Nat.not_le.1 hlt) hn.2

/-- There are free numbers beyond every number, as a search that begins there finds one. -/
theorem infinite_free (ns : Names) : (Set.ofPred ns.Free).Infinite := by
  refine Set.infinite_of_not_bddAbove fun ⟨bound, hbound⟩ => ?_
  let behind : Names := { ns with next := bound + 1 }
  have hle : behind.firstFree behind.taken.length behind.next ≤ bound := hbound behind.free_firstFree
  have hge : bound + 1 ≤ behind.firstFree behind.taken.length behind.next := behind.le_firstFree _ _
  omega

/-- As many free numbers are below the next one as are below the first one to try. -/
theorem nth_firstFree (ns : Names) :
    ns.firstFree ns.taken.length ns.next = Nat.nth ns.Free (Nat.count ns.Free ns.next) := by
  rw [Nat.nth_count_eq_sInf, ← ns.isLeast_firstFree.csInf_eq]
  simp only [and_comm]

theorem fresh_eq_nth (ns : Names) :
    ns.fresh.1 = ns.name (Nat.nth ns.Free (Nat.count ns.Free ns.next)) := by
  rw [← nth_firstFree]
  rfl

/-- One more free number is used up. -/
theorem count_fresh (ns : Names) :
    Nat.count ns.Free ns.fresh.2.next = Nat.count ns.Free ns.next + 1 := by
  show Nat.count ns.Free (ns.firstFree ns.taken.length ns.next + 1) = _
  rw [nth_firstFree, Nat.count_nth_succ_of_infinite ns.infinite_free]

theorem several_eq_nth (ns : Names) (k : Nat) :
    ns.several k = (List.range k).map fun i =>
      ns.name (Nat.nth ns.Free (Nat.count ns.Free ns.next + i)) := by
  induction k generalizing ns with
  | zero => rfl
  | succ k ih =>
      -- the supply that is left has the same free numbers
      have hrest : ns.fresh.2.several k = (List.range k).map fun i =>
          ns.name (Nat.nth ns.Free (Nat.count ns.Free ns.fresh.2.next + i)) := ih ns.fresh.2
      rw [several, hrest, fresh_eq_nth, List.range_succ_eq_map, List.map_cons, List.map_map]
      refine congrArg _ (List.map_congr_left fun i _ => ?_)
      rw [count_fresh, Function.comp_apply, Nat.add_assoc, Nat.add_comm 1]

end Names

/-- The number behind the stem makes a name that nothing in the tree uses or introduces. -/
def IsUnused (stem : String) (root : Node) (n : Nat) : Prop :=
  ∀ p c, root.at? p = some c -> usedName? c ≠ some (stem ++ toString n)

/-- The names in use are of identifiers, declared variables, loop variables, labels and parameters. -/
theorem usedName?_eq_some {n : Node} {x : String} : usedName? n = some x ↔
    (∃ s type, n = .expr (.ident s x type)) ∨
    (∃ s type value, n = .stmt (.var s x type value)) ∨
    (∃ s type source body, n = .stmt (.forEach s x type source body)) ∨
    (∃ s inner, n = .stmt (.labeled s x inner)) ∨
    ∃ s type, n = .param ⟨s, x, type⟩ := by
  constructor
  · intro h
    unfold usedName? at h
    split at h <;> cases h
    · exact .inl ⟨_, _, rfl⟩
    · exact .inr (.inl ⟨_, _, _, rfl⟩)
    · exact .inr (.inr (.inl ⟨_, _, _, _, rfl⟩))
    · exact .inr (.inr (.inr (.inl ⟨_, _, rfl⟩)))
    · exact .inr (.inr (.inr (.inr ⟨_, _, rfl⟩)))
  · rintro (⟨_, _, rfl⟩ | ⟨_, _, _, rfl⟩ | ⟨_, _, _, _, rfl⟩ | ⟨_, _, rfl⟩ | ⟨_, _, rfl⟩) <;> rfl

/-- No identifier, declaration, loop, label or parameter in the tree has the name. -/
theorem isUnused_iff {stem : String} {root : Node} {n : Nat} : IsUnused stem root n ↔
    ∀ p c, root.at? p = some c ->
      (∀ s type, c ≠ .expr (.ident s (stem ++ toString n) type)) ∧
      (∀ s type value, c ≠ .stmt (.var s (stem ++ toString n) type value)) ∧
      (∀ s type source body, c ≠ .stmt (.forEach s (stem ++ toString n) type source body)) ∧
      (∀ s inner, c ≠ .stmt (.labeled s (stem ++ toString n) inner)) ∧
      ∀ s type, c ≠ .param ⟨s, stem ++ toString n, type⟩ := by
  simp only [IsUnused, ne_eq, usedName?_eq_some, not_or, not_exists]

theorem free_ofTree {stem : String} {root : Node} {n : Nat} :
    (Names.ofTree stem root).Free n ↔ IsUnused stem root n := by
  show stem ++ toString n ∉ usedNames root ↔ _
  simp only [usedNames, List.mem_filterMap, mem_nodes, IsUnused]
  grind

/--
The names for a tree.  Infinitely many numbers are unused; the names handed out are those of
the least ones in order.  So there is always a next name, no name comes twice and none is in
use in the tree.
-/
theorem several_ofTree (stem : String) (root : Node) (k : Nat) :
    (Set.ofPred (IsUnused stem root)).Infinite ∧
      (Names.ofTree stem root).several k =
        (List.range k).map (fun i => stem ++ toString (Nat.nth (IsUnused stem root) i)) ∧
      ((Names.ofTree stem root).several k).Nodup ∧
      ∀ x ∈ (Names.ofTree stem root).several k, ∀ p c, root.at? p = some c -> usedName? c ≠ some x := by
  have hfree : (Names.ofTree stem root).Free = IsUnused stem root :=
    funext fun n => propext free_ofTree
  refine ⟨hfree ▸ (Names.ofTree stem root).infinite_free, ?_, Names.several_nodup _ k, ?_⟩
  · have hstart : Nat.count (Names.ofTree stem root).Free (Names.ofTree stem root).next = 0 :=
      Nat.count_zero _
    rw [Names.several_eq_nth]
    refine List.map_congr_left fun i _ => ?_
    rw [hstart, Nat.zero_add, hfree]
    rfl
  · intro x hx p c hc hname
    have hspares : (Names.ofTree stem root).Spares (usedNames root) := fun _ => .inl
    exact hspares.several hx (List.mem_filterMap.2 ⟨c, mem_nodes.2 ⟨p, hc⟩, hname⟩)

end EarlyExit.Expansion
