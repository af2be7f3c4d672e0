/-!
# Shortest decimals

The fewest decimal digits that read back as a given double.  The double is taken
apart into `mantissa * 2 ^ exponent`, and each decimal grid, coarsest first, is
tried with the two grid points next to the value.  All arithmetic is on natural
numbers.
-/

namespace EarlyExit.Decimal

/-- Digits after an implied point: `0.d₁d₂… * 10 ^ point`. -/
structure Digits where
  digits : List Nat
  point : Int
deriving DecidableEq, Repr

/-- The decimal digits of a number, most significant first; none for zero. -/
def natDigits (n : Nat) : List Nat :=
  if n = 0 then [] else (Nat.toDigits 10 n).map fun c => c.toNat - 48

/--
The interval of reals that round to a positive double, as fractions over one
denominator.  The ends belong to it when the mantissa is even.
-/
structure Interval where
  lower : Nat
  value : Nat
  upper : Nat
  denominator : Nat
  closed : Bool

/-- How many values the fraction field of a double has. -/
def fractionSize : Nat := 4503599627370496

/-- The interval of the double with these exponent and fraction fields. -/
def interval (biased fraction : Nat) : Interval :=
  let mantissa := if biased = 0 then fraction else fraction + fractionSize
  let exponent : Int := (if biased = 0 then -1074 else Int.ofNat biased - 1075) - 2
  let below := if fraction = 0 && decide (1 < biased) then 1 else 2
  let scale := Nat.pow 2 exponent.toNat
  { lower := (4 * mantissa - below) * scale
    value := 4 * mantissa * scale
    upper := (4 * mantissa + 2) * scale
    denominator := Nat.pow 2 (-exponent).toNat
    closed := mantissa % 2 == 0 }

/-- How many zeros follow the point of a fraction below one, at most `fuel`. -/
def leadingZeros : Nat -> Nat -> Nat -> Nat
  | 0, _, _ => 0
  | fuel + 1, num, den => if num * 10 < den then leadingZeros fuel (num * 10) den + 1 else 0

/-- The `point` for which `0.1 ≤ num / den / 10 ^ point < 1`. -/
def magnitude (num den : Nat) : Int :=
  if den ≤ num then Int.ofNat (natDigits (num / den)).length
  else -Int.ofNat (leadingZeros 400 num den)

/--
The grid point with `count` digits to take for the interval, if one of the two
next to the value lies in it: the nearer one, of two equally near the even one.
-/
def onGrid (i : Interval) (point : Int) (count : Nat) : Option Nat :=
  let unit := point - Int.ofNat count
  let up := Nat.pow 10 unit.toNat * i.denominator
  let down := Nat.pow 10 (-unit).toNat
  let low := i.value * down / up
  let inside (n : Nat) : Bool :=
    let x := n * up
    if i.closed then decide (i.lower * down ≤ x) && decide (x ≤ i.upper * down)
    else decide (i.lower * down < x) && decide (x < i.upper * down)
  let rest := 2 * (i.value * down - low * up)
  if inside low && inside (low + 1) then
    some (if rest < up || (rest == up && low % 2 == 0) then low else low + 1)
  else if inside low then some low
  else if inside (low + 1) then some (low + 1)
  else none

/-- The first of `fuel` grids, from `count` digits on, that has a point to take. -/
def search (i : Interval) (point : Int) : Nat -> Nat -> Digits
  | 0, _ => ⟨[], 0⟩
  | fuel + 1, count =>
      match onGrid i point count with
      | some n =>
          let ds := natDigits n
          let kept := (ds.reverse.dropWhile (· == 0)).reverse
          ⟨kept, point + (Int.ofNat ds.length - Int.ofNat count)⟩
      | none => search i point fuel (count + 1)

/-- The shortest digits of the double with these fields; zero has none. -/
def shortest (biased fraction : Nat) : Digits :=
  if biased = 0 && fraction = 0 then ⟨[], 0⟩
  else
    let i := interval biased fraction
    search i (magnitude i.value i.denominator) 17 1

end EarlyExit.Decimal
