/-!
# Numerals

Whole numbers as they are typed: a sign, perhaps a mark for the base (`0x`, `0o`,
`0b`, or a bare leading zero for base eight), and digits, which underscores may
separate.
-/

namespace EarlyExit.Text.Numeral

inductive Fault
  | malformed
  | outOfRange
deriving DecidableEq, Repr

def Fault.text : Fault -> String
  | malformed => "invalid syntax"
  | outOfRange => "value out of range"

def digit? (base : Nat) (c : Char) : Option Nat :=
  let n :=
    if c.isDigit then c.toNat - 48
    else if 'a' ≤ c && c ≤ 'z' then c.toNat - 87
    else if 'A' ≤ c && c ≤ 'Z' then c.toNat - 55
    else base
  if n < base then some n else none

/-- The number that digits give after those read so far; it must fit into 64 bits. -/
def magnitude (base : Nat) (soFar : Nat) : List Char -> Except Fault Nat
  | [] => .ok soFar
  | c :: rest =>
      match digit? base c with
      | none => .error .malformed
      | some d =>
          if UInt64.size ≤ soFar * base + d then .error .outOfRange
          else magnitude base (soFar * base + d) rest

/-- The base of a numeral with the digits behind its mark. -/
def splitBase : List Char -> Nat × List Char
  | '0' :: mark :: d :: rest =>
      if mark == 'b' || mark == 'B' then (2, d :: rest)
      else if mark == 'o' || mark == 'O' then (8, d :: rest)
      else if mark == 'x' || mark == 'X' then (16, d :: rest)
      else (8, mark :: d :: rest)
  | '0' :: rest => (8, rest)
  | cs => (10, cs)

/-- Whether underscores only stand between digits, or between the base mark and a digit. -/
def separatesDigits (base : Nat) (afterDigit : Bool) : List Char -> Bool
  | [] => true
  | ['_'] => false
  | '_' :: c :: rest =>
      afterDigit && (digit? base c).isSome && separatesDigits base true rest
  | c :: rest => separatesDigits base ((digit? base c).isSome) rest

def natural (cs : List Char) : Except Fault Nat :=
  if cs.isEmpty then .error .malformed
  else
    let (base, digits) := splitBase cs
    if digits.contains '_' && !separatesDigits base (cs.head? == some '0') digits then
      .error .malformed
    else magnitude base 0 (digits.filter (· != '_'))

def sign : List Char -> Bool × List Char
  | '-' :: cs => (true, cs)
  | '+' :: cs => (false, cs)
  | cs => (false, cs)

/-- The number with its sign, if it fits into 64 bits. -/
def signed (negative : Bool) (n : Nat) : Except Fault Int :=
  let value := if negative then -Int.ofNat n else Int.ofNat n
  if Int64.minValue.toInt ≤ value ∧ value ≤ Int64.maxValue.toInt then .ok value
  else .error .outOfRange

/-- A whole number of 64 bits in any base. -/
def whole (s : String) : Except Fault Int := do
  let (negative, cs) := sign s.toList
  signed negative (← natural cs)

def decimal (s : String) : Except Fault Int := do
  let (negative, cs) := sign s.toList
  if cs.isEmpty then throw .malformed
  signed negative (← magnitude 10 0 cs)

/-- The truth values as they are typed. -/
def truth? (s : String) : Option Bool :=
  if ["1", "t", "T", "true", "TRUE", "True"].contains s then some true
  else if ["0", "f", "F", "false", "FALSE", "False"].contains s then some false
  else none

end EarlyExit.Text.Numeral
