import Mathlib.Data.List.Forall2
import EarlyExit.Proofs.Document.Fields

/-!
# Readings without problems

A reading that meets no problem is one value.  It is put together from readings of smaller
parts that meet none either.
-/

namespace EarlyExit.Document

open Data

variable {α β : Type} {file : String} {d : Data} {key : String}

namespace Reading

@[simp] theorem pure_eq (a : α) : (pure a : Reading α) = ⟨a, []⟩ := rfl

@[simp] theorem bind_clean (a : α) (f : α -> Reading β) :
    ((⟨a, []⟩ : Reading α) >>= f) = f a := rfl

theorem bind_eq_clean {x : Reading α} {f : α -> Reading β} {b : β} :
    (x >>= f) = ⟨b, []⟩ ↔ ∃ a, x = ⟨a, []⟩ ∧ f a = ⟨b, []⟩ := by
  constructor
  · intro h
    obtain ⟨a, ps⟩ := x
    have hproblems : ps ++ (f a).problems = [] := congrArg problems h
    have hvalue : (f a).value = b := congrArg value h
    obtain ⟨rfl, hnone⟩ := List.append_eq_nil_iff.1 hproblems
    refine ⟨a, rfl, ?_⟩
    rw [← hvalue, ← hnone]
  · rintro ⟨a, rfl, h⟩
    exact h

theorem report_ne_clean {p : Problem} {f : Unit -> Reading α} {a : α} :
    (report p >>= f) ≠ ⟨a, []⟩ := by
  intro h
  obtain ⟨_, hreport, _⟩ := bind_eq_clean.1 h
  cases hreport

end Reading

theorem optional_eq {empty : α} {f : Data -> Reading α} :
    optional d key empty (fun x _ => f x) = match d.field? key with
      | some x => f x
      | none => ⟨empty, []⟩ := by
  unfold optional
  split <;> simp_all

theorem required_eq {empty : α} {f : Data -> Reading α} :
    required file d key empty (fun x _ => f x) = match d.field? key with
      | some x => f x
      | none => do
          Reading.report ⟨spanOf file d, .missing (textField d "kind") key⟩
          return empty := by
  unfold required
  split <;> simp_all

theorem optional_eq_clean {empty a : α} {f : Data -> Reading α} :
    optional d key empty (fun x _ => f x) = ⟨a, []⟩ ↔
      (d.field? key = none ∧ a = empty) ∨ ∃ x, d.field? key = some x ∧ f x = ⟨a, []⟩ := by
  rw [optional_eq]
  cases d.field? key with
  | none => simp [eq_comm]
  | some x => simp

theorem required_eq_clean {empty a : α} {f : Data -> Reading α} :
    required file d key empty (fun x _ => f x) = ⟨a, []⟩ ↔
      ∃ x, d.field? key = some x ∧ f x = ⟨a, []⟩ := by
  rw [required_eq]
  cases d.field? key with
  | none => simpa using Reading.report_ne_clean
  | some x => simp

/-! ## Lists -/

/-- Items that are read one by one give what they give, if none of them is dropped. -/
theorem eachItem_of_forall {f : Nat -> Data -> Reading (Option α)} {g : β -> α} {bs : List β}
    (h : List.Forall₂ (fun x b => ∀ i, f i x = ⟨some (g b), []⟩) (d.itemsOf key) bs) :
    eachItem d key (fun i x _ => f i x) = ⟨bs.map g, []⟩ := by
  have hgo : ∀ (xs : List Data) (bs : List β) (i : Nat) (small : ∀ x ∈ xs, sizeOf x < sizeOf d),
      List.Forall₂ (fun x b => ∀ i, f i x = ⟨some (g b), []⟩) xs bs ->
      eachItem.go d (fun i x _ => f i x) i xs small = ⟨bs.map g, []⟩ := by
    intro xs bs i small hall
    induction hall generalizing i with
    | nil => rfl
    | cons hx _ ih =>
        rw [eachItem.go, hx i, ih (i + 1)]
        rfl
  exact hgo _ bs 0 _ h

/-- Whatever a reading of items gives comes from one of them. -/
theorem mem_eachItem {f : Nat -> Data -> Reading (Option α)} {as : List α} {a : α}
    (h : eachItem d key (fun i x _ => f i x) = ⟨as, []⟩) (ha : a ∈ as) :
    ∃ i, ∃ x ∈ d.itemsOf key, f i x = ⟨some a, []⟩ := by
  have hgo : ∀ (xs : List Data) (as : List α) (i : Nat) (small : ∀ x ∈ xs, sizeOf x < sizeOf d),
      eachItem.go d (fun i x _ => f i x) i xs small = ⟨as, []⟩ -> a ∈ as ->
      ∃ i, ∃ x ∈ xs, f i x = ⟨some a, []⟩ := by
    intro xs
    induction xs with
    | nil =>
        intro as i small heq hmem
        cases heq
        cases hmem
    | cons x xs ih =>
        intro as i small heq hmem
        rw [eachItem.go] at heq
        obtain ⟨b, hb, heq⟩ := Reading.bind_eq_clean.1 heq
        obtain ⟨bs, hbs, heq⟩ := Reading.bind_eq_clean.1 heq
        have hrest : a ∈ bs -> ∃ i, ∃ y ∈ x :: xs, f i y = ⟨some a, []⟩ := by
          intro hmem
          obtain ⟨j, y, hy, hread⟩ := ih bs (i + 1) _ hbs hmem
          exact ⟨j, y, List.mem_cons_of_mem _ hy, hread⟩
        cases b with
        | none =>
            cases heq
            exact hrest hmem
        | some b =>
            cases heq
            rcases List.mem_cons.1 hmem with rfl | hmem
            · exact ⟨i, x, by simp, hb⟩
            · exact hrest hmem
  exact hgo _ as 0 _ h ha

/-- The number of items read, if none is dropped. -/
theorem length_eachItem {f : Nat -> Data -> Reading (Option α)} {as : List α}
    (hkeep : ∀ i, ∀ x ∈ d.itemsOf key, f i x ≠ ⟨none, []⟩)
    (h : eachItem d key (fun i x _ => f i x) = ⟨as, []⟩) :
    as.length = (d.itemsOf key).length := by
  have hgo : ∀ (xs : List Data) (as : List α) (i : Nat) (small : ∀ x ∈ xs, sizeOf x < sizeOf d),
      (∀ i, ∀ x ∈ xs, f i x ≠ ⟨none, []⟩) ->
      eachItem.go d (fun i x _ => f i x) i xs small = ⟨as, []⟩ -> as.length = xs.length := by
    intro xs
    induction xs with
    | nil =>
        intro as i small _ heq
        cases heq
        rfl
    | cons x xs ih =>
        intro as i small hkeep heq
        rw [eachItem.go] at heq
        obtain ⟨b, hb, heq⟩ := Reading.bind_eq_clean.1 heq
        obtain ⟨bs, hbs, heq⟩ := Reading.bind_eq_clean.1 heq
        have hrest := ih bs (i + 1) _ (fun i y hy => hkeep i y (List.mem_cons_of_mem _ hy)) hbs
        cases b with
        | none => exact absurd hb (hkeep i x List.mem_cons_self)
        | some b =>
            cases heq
            rw [List.length_cons, hrest, List.length_cons]
  exact hgo _ as 0 _ hkeep h

end EarlyExit.Document
