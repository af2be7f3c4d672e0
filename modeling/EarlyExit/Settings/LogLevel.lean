import EarlyExit.Text.LetterCase
import EarlyExit.Text.Numeral

/-!
# Log levels

A level is a number from -128 to 127.  Some have names, which are written in any
case.
-/

namespace EarlyExit

namespace LogLevel

/-- The named levels; the empty name is the level of records without one. -/
def names : List (String × Int) :=
  [("trace", -1), ("debug", 0), ("info", 1), ("warn", 2), ("error", 3), ("fatal", 4),
    ("panic", 5), ("disabled", 7), ("", 6)]

inductive Fault
  | unknown (text : String)
  | outOfBounds (number : Int)
deriving DecidableEq, Repr

def Fault.message : Fault -> String
  | unknown s => "Unknown Level String: '" ++ s ++ "', defaulting to NoLevel"
  | outOfBounds i => "Out-Of-Bounds Level: '" ++ toString i ++ "', defaulting to NoLevel"

def parse (s : String) : Except Fault Int :=
  match names.lookup (Text.fold s) with
  | some i => .ok i
  | none =>
      match Text.Numeral.decimal s with
      | .error _ => .error (.unknown s)
      | .ok i => if -128 ≤ i ∧ i ≤ 127 then .ok i else .error (.outOfBounds i)

end LogLevel

end EarlyExit
