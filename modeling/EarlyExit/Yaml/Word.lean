import EarlyExit.Data.Basic
import EarlyExit.Text.Numeral

/-!
# Bare words

What a word without quotes means: nothing, a truth value, a number in one of several
notations, a date, or just its own text.
-/

namespace EarlyExit.Yaml

open EarlyExit.Text

inductive Meaning
  | null
  | bool (value : Bool)
  | int (value : Int)
  /-- A whole number that only fits into 64 bits without a sign. -/
  | large
  | float (value : Float)
  | date
  | text (value : String)

namespace Word

def nullWords : List String := ["", "~", "null", "Null", "NULL"]

def trueWords : List String := ["true", "True", "TRUE"]

def falseWords : List String := ["false", "False", "FALSE"]

def nanWords : List String := [".nan", ".NaN", ".NAN"]

def infinityWords : List String :=
  [".inf", ".Inf", ".INF", "+.inf", "+.Inf", "+.INF"]

def minusInfinityWords : List String := ["-.inf", "-.Inf", "-.INF"]

def fixed? (s : String) : Option Meaning :=
  if nullWords.contains s then some .null
  else if trueWords.contains s then some (.bool true)
  else if falseWords.contains s then some (.bool false)
  else if nanWords.contains s then some (.float (0.0 / 0.0))
  else if infinityWords.contains s then some (.float (1.0 / 0.0))
  else if minusInfinityWords.contains s then some (.float (-1.0 / 0.0))
  else none

/-! ## Dates -/

/-- A number of one or two digits, and the rest. -/
def upToTwo? (cs : List Char) : Option (Nat × List Char) :=
  let digits := (cs.take 2).takeWhile Char.isDigit
  if digits.isEmpty then none else some (Decimal.digitsValue digits, cs.drop digits.length)

def daysIn (year month : Nat) : Nat :=
  if month = 2 then
    if year % 4 = 0 && (year % 100 ≠ 0 || year % 400 = 0) then 29 else 28
  else if [4, 6, 9, 11].contains month then 30 else 31

/-- An offset from universal time: `Z`, or hours and minutes, their bounds included. -/
def isZone : List Char -> Bool
  | ['Z'] => true
  | [s, a, b, ':', c, d] =>
      (s == '+' || s == '-') && [a, b, c, d].all Char.isDigit &&
        decide (Decimal.digitsValue [a, b] ≤ 24) && decide (Decimal.digitsValue [c, d] ≤ 60)
  | _ => false

/-- What follows a fraction of a second, if there is one. -/
def afterFraction : List Char -> List Char
  | c :: d :: rest =>
      if (c == '.' || c == ',') && d.isDigit then rest.dropWhile Char.isDigit
      else c :: d :: rest
  | cs => cs

/-- A time of day; `zoned` tells whether an offset follows. -/
def isTime (zoned : Bool) (cs : List Char) : Bool :=
  match upToTwo? cs with
  | some (hour, ':' :: cs) =>
      match upToTwo? cs with
      | some (minute, ':' :: cs) =>
          match upToTwo? cs with
          | some (second, cs) =>
              decide (hour < 24) && decide (minute < 60) && decide (second < 60) &&
                if zoned then isZone (afterFraction cs) else (afterFraction cs).isEmpty
          | none => false
      | _ => false
  | _ => false

/-- A date, perhaps with a time of day. -/
def isDate (s : String) : Bool :=
  let cs := s.toList
  let year := cs.takeWhile Char.isDigit
  match year.length, cs.drop year.length with
  | 4, '-' :: rest =>
      match upToTwo? rest with
      | some (month, '-' :: rest) =>
          match upToTwo? rest with
          | some (day, rest) =>
              decide (1 ≤ month) && decide (month ≤ 12) && decide (1 ≤ day) &&
                decide (day ≤ daysIn (Decimal.digitsValue year) month) &&
                match rest with
                | [] => true
                | 'T' :: rest | 't' :: rest => isTime true rest
                | ' ' :: rest => isTime false (rest.dropWhile (· == ' '))
                | _ => false
          | none => false
      | _ => false
  | _, _ => false

/-! ## Numbers -/

/-- A finite double; a number beyond all doubles is none. -/
def double? (s : String) : Option Float :=
  match Decimal.written? s with
  | some w => if w.toFloat.isInf then none else some w.toFloat
  | none => none

/-- A word that begins with a point; underscores may stand between its digits. -/
def pointed? (s : String) : Option Float :=
  if Numeral.separatesDigits 10 false s.toList then
    double? (String.ofList (s.toList.filter (· != '_')))
  else none

/-- A number with a second sign behind the mark of its base. -/
def signedTwice? (s : String) : Option Int :=
  let read (base : Nat) (rest : List Char) : Option Int :=
    match Numeral.sign rest with
    | (_, []) => none
    | (negative, digits) =>
        ((Numeral.magnitude base 0 digits).bind (Numeral.signed negative)).toOption
  match s.toList with
  | '0' :: 'b' :: rest => read 2 rest
  | '0' :: 'o' :: rest => read 8 rest
  | _ => none

def number? (s : String) : Option Meaning :=
  let plain := String.ofList (s.toList.filter (· != '_'))
  match Numeral.whole plain with
  | .ok i => some (.int i)
  | .error _ =>
      match Numeral.natural plain.toList with
      | .ok _ => some .large
      | .error _ =>
          match double? plain with
          | some x => some (.float x)
          | none => (signedTwice? plain).map .int

/-- The meaning of a word; `dates` tells whether it may be a date. -/
def meaning (dates : Bool) (s : String) : Meaning :=
  match fixed? s with
  | some m => m
  | none =>
      match s.toList with
      | '.' :: _ => ((pointed? s).map Meaning.float).getD (.text s)
      | c :: _ =>
          if c.isDigit || c == '+' || c == '-' then
            if dates && isDate s then .date else (number? s).getD (.text s)
          else .text s
      | [] => .null

end Word

end EarlyExit.Yaml
