import EarlyExit.Decimal.Shortest

/-!
# Decimal notation

How a double is written and read.  The shortest digits stand positionally when
the exponent is at least -4 and below 6, and with an exponent of at least two
digits otherwise.
-/

namespace EarlyExit.Decimal

def digitText (ds : List Nat) : String :=
  String.ofList (ds.map fun d => Char.ofNat (48 + d))

def zeros (n : Nat) : String :=
  String.ofList (List.replicate n '0')

/-- Exponents below `least` and from `most` on are written out. -/
structure Layout where
  least : Int
  most : Int
  exponentWidth : Nat

/-- The layout of every number this program writes. -/
def layout : Layout := ⟨-4, 6, 2⟩

def positional (d : Digits) : String :=
  if d.digits.isEmpty then "0"
  else if d.point ≤ 0 then "0." ++ zeros (-d.point).toNat ++ digitText d.digits
  else
    let whole := d.point.toNat
    let ds := digitText (d.digits.take whole) ++ zeros (whole - d.digits.length)
    let rest := d.digits.drop whole
    if rest.isEmpty then ds else ds ++ "." ++ digitText rest

def scientific (l : Layout) (d : Digits) : String :=
  let e := d.point - 1
  let size := toString e.natAbs
  let head := digitText (d.digits.take 1)
  let rest := d.digits.drop 1
  head ++ (if rest.isEmpty then "" else "." ++ digitText rest) ++
    (if e < 0 then "e-" else "e+") ++ zeros (l.exponentWidth - size.length) ++ size

def Digits.text (l : Layout) (d : Digits) : String :=
  let e := d.point - 1
  if !d.digits.isEmpty && (decide (e < l.least) || decide (l.most ≤ e)) then scientific l d
  else positional d

/-- The parts of a double: sign, exponent and fraction. -/
structure Fields where
  negative : Bool
  biased : Nat
  fraction : Nat

def Fields.ofFloat (x : Float) : Fields :=
  let bits := x.toBits.toNat
  let high := bits / fractionSize
  ⟨decide (2048 ≤ high), high % 2048, bits % fractionSize⟩

def text (x : Float) : String :=
  let f := Fields.ofFloat x
  if f.biased = 2047 then
    if f.fraction ≠ 0 then "NaN" else if f.negative then "-Inf" else "+Inf"
  else (if f.negative then "-" else "") ++ (shortest f.biased f.fraction).text layout

/-- The text of a finite double without an exponent. -/
def plainText (x : Float) : String :=
  let f := Fields.ofFloat x
  (if f.negative then "-" else "") ++ positional (shortest f.biased f.fraction)

/-! ## Reading -/

/-- A decimal number as written: sign, digits read as one number, power of ten. -/
structure Written where
  negative : Bool
  digits : Nat
  exponent : Int

def digitsValue (cs : List Char) : Nat :=
  cs.foldl (fun n c => n * 10 + (c.toNat - 48)) 0

def sign : List Char -> Bool × List Char
  | '-' :: cs => (true, cs)
  | '+' :: cs => (false, cs)
  | cs => (false, cs)

/-- The exponent part; nothing at all stands for zero. -/
def exponentPart : List Char -> Option Int
  | [] => some 0
  | c :: cs =>
      let (negative, ds) := sign cs
      if (c == 'e' || c == 'E') && !ds.isEmpty && ds.all Char.isDigit then
        some (if negative then -Int.ofNat (digitsValue ds) else Int.ofNat (digitsValue ds))
      else none

/-- Digits with at most one point among them and an optional exponent. -/
def written? (s : String) : Option Written :=
  let (negative, cs) := sign s.toList
  let whole := cs.takeWhile Char.isDigit
  let rest := cs.dropWhile Char.isDigit
  let (places, rest) :=
    match rest with
    | '.' :: more => (more.takeWhile Char.isDigit, more.dropWhile Char.isDigit)
    | other => ([], other)
  if whole.isEmpty && places.isEmpty then none
  else
    (exponentPart rest).map fun e =>
      ⟨negative, digitsValue (whole ++ places), e - Int.ofNat places.length⟩

/-- The nearest double; a number beyond the largest one becomes infinite. -/
def Written.toFloat (w : Written) : Float :=
  let size := Int.ofNat (natDigits w.digits).length + w.exponent
  let x :=
    if w.digits = 0 || size < -400 then 0.0
    else if 400 < size then 1.0 / 0.0
    else Float.ofScientific w.digits (decide (w.exponent < 0)) w.exponent.natAbs
  if w.negative then -x else x

/-- A double from its text, the three special ones by their names in any case. -/
def float? (s : String) : Option Float :=
  match s.toLower with
  | "nan" => some (0.0 / 0.0)
  | "inf" | "+inf" | "infinity" | "+infinity" => some (1.0 / 0.0)
  | "-inf" | "-infinity" => some (-1.0 / 0.0)
  | _ => (written? s).map Written.toFloat

end EarlyExit.Decimal
