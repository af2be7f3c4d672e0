import Mathlib.Data.List.TakeWhile
import EarlyExit.Document.Schema

/-!
# Numbers in documents

A whole number of 64 bits is written by its digits, and read as the number it was.
-/

namespace EarlyExit

namespace Decimal

theorem digitsValue_eq (cs : List Char) : digitsValue cs = Nat.ofDigitChars 10 cs 0 := by
  rw [digitsValue, Nat.ofDigitChars_eq_foldl]
  congr 1
  funext n c
  rw [Nat.mul_comm]
  rfl

theorem digitsValue_toDigits (n : Nat) : digitsValue (Nat.toDigits 10 n) = n := by
  rw [digitsValue_eq, Nat.ofDigitChars_toDigits (by omega) (by omega)]

theorem isDigit_toDigits {n : Nat} {c : Char} (h : c ∈ Nat.toDigits 10 n) : c.isDigit = true :=
  Nat.isDigit_of_mem_toDigits (by omega) (by omega) h

theorem sign_toDigits (n : Nat) : sign (Nat.toDigits 10 n) = (false, Nat.toDigits 10 n) := by
  unfold sign
  split
  next cs heq =>
    have hdigit : '-'.isDigit = true := isDigit_toDigits (n := n) (by simp [heq])
    cases hdigit
  next cs heq =>
    have hdigit : '+'.isDigit = true := isDigit_toDigits (n := n) (by simp [heq])
    cases hdigit
  next => rfl

/-- A text that is digits behind an optional sign. -/
theorem written?_digits {text : String} {negative : Bool} {n : Nat}
    (h : sign text.toList = (negative, Nat.toDigits 10 n)) :
    written? text = some ⟨negative, n, 0⟩ := by
  have htake : (Nat.toDigits 10 n).takeWhile Char.isDigit = Nat.toDigits 10 n :=
    List.takeWhile_eq_self_iff.2 fun _ hc => isDigit_toDigits hc
  have hdrop : (Nat.toDigits 10 n).dropWhile Char.isDigit = [] :=
    List.dropWhile_eq_nil_iff.2 fun _ hc => isDigit_toDigits hc
  have hfilled : (Nat.toDigits 10 n).isEmpty = false := by
    simp
  simp [written?, h, htake, hdrop, hfilled, exponentPart, digitsValue_toDigits]

end Decimal

namespace Data

theorem toList_toString_int (i : Int) : (toString i).toList =
    if 0 ≤ i then Nat.toDigits 10 i.toNat else '-' :: Nat.toDigits 10 (-i).toNat := by
  rw [Int.toString_eq_repr, Int.repr_eq_if]
  split <;> simp

/-- A number that fits into 64 bits, with a sign or without, is read as it was written. -/
theorem resolveNumber_toString {i : Int} (hmin : Int64.minValue.toInt ≤ i)
    (hmax : i < UInt64.size) : resolveNumber (toString i) = .int i := by
  have hlist := toList_toString_int i
  have hwhole : ((toString i).toList.all fun c => c.isDigit || c == '-' || c == '+') = true := by
    rw [hlist, List.all_eq_true]
    intro c hc
    split at hc
    · simp [Decimal.isDigit_toDigits hc]
    · rcases List.mem_cons.1 hc with rfl | hc
      · rfl
      · simp [Decimal.isDigit_toDigits hc]
  -- the special spellings hold a letter
  have hspecial : ∀ text : String, (text.toList.all fun c => c.isDigit || c == '-' || c == '+') =
      false -> toString i ≠ text := by
    intro text htext heq
    rw [heq, htext] at hwhole
    cases hwhole
  have hwritten : Decimal.written? (toString i) = some ⟨decide (i < 0), i.natAbs, 0⟩ := by
    apply Decimal.written?_digits
    rw [hlist]
    by_cases hi : 0 ≤ i
    · rw [if_pos hi, Decimal.sign_toDigits, show i.toNat = i.natAbs by omega]
      simp [hi]
    · rw [if_neg hi, show (-i).toNat = i.natAbs by omega]
      simp [Decimal.sign, Int.not_le.1 hi]
  have hvalue : (if decide (i < 0) then -Int.ofNat i.natAbs else Int.ofNat i.natAbs) = i := by
    by_cases hi : i < 0
    · simp only [hi, decide_true, if_true, Int.ofNat_eq_natCast]
      omega
    · simp only [hi, decide_false, Bool.false_eq_true, if_false, Int.ofNat_eq_natCast]
      omega
  unfold resolveNumber
  split
  next heq => exact absurd heq (hspecial _ (by decide))
  next heq => exact absurd heq (hspecial _ (by decide))
  next heq => exact absurd heq (hspecial _ (by decide))
  next =>
    rw [hwritten]
    simp only [hwhole, hvalue, hmin, hmax, decide_true, Bool.and_self, if_true]

theorem scalar?_ofInt {i : Int} (hmin : Int64.minValue.toInt ≤ i) (hmax : i < UInt64.size) :
    (ofInt i).scalar? = some (.int i) := by
  rw [ofInt, scalar?, resolveNumber_toString hmin hmax]

/-- A whole part that is not negative is within 64 bits. -/
theorem wholePart_le (x : Float) : wholePart x ≤ Int64.maxValue.toInt := by
  unfold wholePart
  split
  · exact Int64.toInt_le x.toInt64
  · decide

end Data

namespace Document

theorem whole?_ofInt {i : Int} (hmin : 0 ≤ i) (hmax : i ≤ Int64.maxValue.toInt) :
    whole? (.ofInt i) = some i := by
  have hneg : Int64.minValue.toInt ≤ 0 := by decide
  have hmin' : Int64.minValue.toInt ≤ i := Int.le_trans hneg hmin
  have hsize : Int64.maxValue.toInt < UInt64.size := by decide
  have hmax' : i < UInt64.size := Int.lt_of_le_of_lt hmax hsize
  rw [whole?, Data.scalar?_ofInt hmin' hmax']
  simp only [hmax, if_true]

theorem whole?_le {d : Data} {i : Int} (h : whole? d = some i) : i ≤ Int64.maxValue.toInt := by
  unfold whole? at h
  split at h
  · cases h
    decide
  · split at h
    next hle =>
      cases h
      exact hle
    next => cases h
  · split at h
    · cases h
      exact Data.wholePart_le _
    · cases h
  · cases h

end Document

end EarlyExit
