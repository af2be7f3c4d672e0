import Mathlib.Data.List.Nodup
import Mathlib.Data.List.Perm.Subperm
import EarlyExit.Container.Registry
import EarlyExit.Expansion.Names

/-!
# The names handed out are new

A name that is handed out is not taken, and its number is larger than that of every name
handed out before.  So no two of them are equal.  They all end in a digit, which keeps
them apart from the classes of the built-in kinds whatever the stem is.
-/

namespace EarlyExit.Expansion

namespace Names

/-- Two numbers make two names. -/
theorem name_injective (ns : Names) {m n : Nat} (h : ns.name m = ns.name n) : m = n := by
  have hdigits : Nat.toDigits 10 m = Nat.toDigits 10 n := by
    have hlists := congrArg String.toList ((String.append_right_inj ns.stem).1 h)
    simpa [Nat.toString_eq_ofList_toDigits] using hlists
  calc
    m = Nat.ofDigitChars 10 (Nat.toDigits 10 m) 0 := Nat.ofDigitChars_ten_toDigits.symm
    _ = Nat.ofDigitChars 10 (Nat.toDigits 10 n) 0 := by rw [hdigits]
    _ = n := Nat.ofDigitChars_ten_toDigits

theorem le_firstFree (ns : Names) (fuel n : Nat) : n ≤ ns.firstFree fuel n := by
  induction fuel generalizing n with
  | zero => exact Nat.le_refl n
  | succ fuel ih =>
      rw [firstFree]
      split
      · have := ih (n + 1)
        omega
      · exact Nat.le_refl n

/-- If the search ends at a taken name, it has met only taken names, as many as it could try. -/
theorem taken_of_firstFree (ns : Names) (fuel n : Nat)
    (h : ns.name (ns.firstFree fuel n) ∈ ns.taken) :
    ∀ i ≤ fuel, ns.name (n + i) ∈ ns.taken := by
  induction fuel generalizing n with
  | zero =>
      intro i hi
      obtain rfl : i = 0 := by omega
      exact h
  | succ fuel ih =>
      rw [firstFree] at h
      by_cases htaken : ns.taken.contains (ns.name n) = true
      · rw [if_pos htaken] at h
        intro i hi
        cases i with
        | zero => simpa using htaken
        | succ i =>
            have hrest := ih (n + 1) h i (by omega)
            rwa [show n + 1 + i = n + (i + 1) by omega] at hrest
      · rw [if_neg htaken] at h
        exact absurd (by simpa using h) htaken

/-- A name that is handed out is not taken: more numbers are tried than names are taken. -/
theorem fresh_not_taken (ns : Names) : ns.fresh.1 ∉ ns.taken := by
  intro htaken
  have hall := taken_of_firstFree ns ns.taken.length ns.next htaken
  let tried := (List.range (ns.taken.length + 1)).map fun i => ns.name (ns.next + i)
  have hnodup : tried.Nodup := by
    refine List.Nodup.map ?_ List.nodup_range
    intro i j hij
    have := ns.name_injective hij
    omega
  have hsubset : tried ⊆ ns.taken := by
    intro x hx
    obtain ⟨i, hi, rfl⟩ := List.mem_map.1 hx
    exact hall i (by simpa [Nat.lt_succ_iff] using hi)
  have hlength := (List.subperm_of_subset hnodup hsubset).length_le
  simp only [tried, List.length_map, List.length_range] at hlength
  omega

/-- The name has been handed out, or its number passed over. -/
def Drawn (ns : Names) (x : String) : Prop :=
  ∃ i < ns.next, x = ns.name i

theorem fresh_drawn (ns : Names) : ns.fresh.2.Drawn ns.fresh.1 :=
  ⟨_, Nat.lt_succ_self _, rfl⟩

theorem fresh_not_drawn (ns : Names) : ¬ns.Drawn ns.fresh.1 := by
  rintro ⟨i, hi, heq⟩
  have hnumber := ns.name_injective heq
  have hle := ns.le_firstFree ns.taken.length ns.next
  omega

theorem Drawn.fresh {ns : Names} {x : String} (h : ns.Drawn x) : ns.fresh.2.Drawn x := by
  obtain ⟨i, hi, rfl⟩ := h
  have hle := ns.le_firstFree ns.taken.length ns.next
  refine ⟨i, ?_, rfl⟩
  show i < ns.firstFree ns.taken.length ns.next + 1
  omega

/-- None of the names in a list will be handed out: each is taken or of another form. -/
def Spares (ns : Names) (names : List String) : Prop :=
  ∀ x ∈ names, x ∈ ns.taken ∨ ∀ i, x ≠ ns.name i

theorem Spares.fresh {ns : Names} {names : List String} (h : ns.Spares names) :
    ns.fresh.2.Spares names :=
  h

theorem Spares.not_mem {ns : Names} {names : List String} (h : ns.Spares names) :
    ns.fresh.1 ∉ names := by
  intro hmem
  rcases h _ hmem with htaken | hform
  · exact ns.fresh_not_taken htaken
  · exact hform _ rfl

def later (ns : Names) : Nat -> Names
  | 0 => ns
  | k + 1 => ns.fresh.2.later k

theorem Spares.later {ns : Names} {names : List String} (h : ns.Spares names) (k : Nat) :
    (ns.later k).Spares names := by
  induction k generalizing ns with
  | zero => exact h
  | succ k ih => exact ih h.fresh

theorem several_add (ns : Names) (k l : Nat) :
    ns.several (k + l) = ns.several k ++ (ns.later k).several l := by
  induction k generalizing ns with
  | zero => simp [several, later]
  | succ k ih =>
      rw [show k + 1 + l = k + l + 1 by omega]
      simp [several, later, ih]

theorem later_add (ns : Names) (k l : Nat) : ns.later (k + l) = (ns.later k).later l := by
  induction k generalizing ns with
  | zero => simp [later]
  | succ k ih =>
      rw [show k + 1 + l = k + l + 1 by omega]
      exact ih ns.fresh.2

/-- Names that are handed out are not among those that are spared. -/
theorem Spares.several {ns : Names} {names : List String} (h : ns.Spares names) {k : Nat}
    {x : String} (hx : x ∈ ns.several k) : x ∉ names := by
  induction k generalizing ns with
  | zero => cases hx
  | succ k ih =>
      rcases List.mem_cons.1 hx with rfl | hx
      · exact h.not_mem
      · exact ih h.fresh hx

theorem not_mem_several {ns : Names} {x : String} (h : ns.Drawn x) (k : Nat) :
    x ∉ ns.several k := by
  induction k generalizing ns with
  | zero => exact List.not_mem_nil
  | succ k ih =>
      intro hx
      rcases List.mem_cons.1 hx with rfl | hx
      · exact ns.fresh_not_drawn h
      · exact ih h.fresh hx

/-- No name is handed out twice. -/
theorem several_nodup (ns : Names) (k : Nat) : (ns.several k).Nodup := by
  induction k generalizing ns with
  | zero => exact .nil
  | succ k ih => exact .cons (not_mem_several ns.fresh_drawn k) (ih ns.fresh.2)

/-- A name with a number ends in a digit. -/
theorem name_last (ns : Names) (i : Nat) :
    ∃ c, (ns.name i).toList.getLast? = some c ∧ c.isDigit = true := by
  have htoList : (ns.name i).toList = ns.stem.toList ++ Nat.toDigits 10 i := by
    simp [name]
  have hne : Nat.toDigits 10 i ≠ [] := Nat.toDigits_ne_nil
  refine ⟨(Nat.toDigits 10 i).getLast hne, ?_, ?_⟩
  · rw [htoList, List.getLast?_append, List.getLast?_eq_some_getLast hne]
    rfl
  · exact Nat.isDigit_of_mem_toDigits (by omega) (by omega) (List.getLast_mem hne)

/-- No name with a number is the class of a built-in kind. -/
theorem name_ne_kind (ns : Names) (i : Nat) {k : Kind} (hk : k ∈ Registry.standard.kinds) :
    k.name ≠ ns.name i := by
  have hletters : ∀ k ∈ Registry.standard.kinds,
      (k.name.toList.getLast?.any Char.isDigit) = false := by decide
  intro heq
  obtain ⟨c, hlast, hdigit⟩ := ns.name_last i
  have hletter := hletters k hk
  rw [heq, hlast, Option.any_some, hdigit] at hletter
  cases hletter

end Names

end EarlyExit.Expansion
