/-!
# Operators

The operators of expressions and assignments.  A text that names no operator of
the language is kept, so that a tree holding it can still be shown.
-/

namespace EarlyExit

inductive Operator
  | add | sub | mul | div | mod
  | eq | ne | lt | le | gt | ge
  | and | or
  | bitAnd | bitOr | bitXor | shl | shr
  | not | bitNot | inc | dec
  | assign | addAssign | subAssign | mulAssign | divAssign | modAssign
  | other (text : String)
deriving DecidableEq, Repr, Inhabited

namespace Operator

def text : Operator -> String
  | add => "+" | sub => "-" | mul => "*" | div => "/" | mod => "%"
  | eq => "==" | ne => "!=" | lt => "<" | le => "<=" | gt => ">" | ge => ">="
  | and => "&&" | or => "||"
  | bitAnd => "&" | bitOr => "|" | bitXor => "^" | shl => "<<" | shr => ">>"
  | not => "!" | bitNot => "~" | inc => "++" | dec => "--"
  | assign => "=" | addAssign => "+=" | subAssign => "-=" | mulAssign => "*="
  | divAssign => "/=" | modAssign => "%="
  | other t => t

def ofText : String -> Operator
  | "+" => add | "-" => sub | "*" => mul | "/" => div | "%" => mod
  | "==" => eq | "!=" => ne | "<" => lt | "<=" => le | ">" => gt | ">=" => ge
  | "&&" => and | "||" => or
  | "&" => bitAnd | "|" => bitOr | "^" => bitXor | "<<" => shl | ">>" => shr
  | "!" => not | "~" => bitNot | "++" => inc | "--" => dec
  | "=" => assign | "+=" => addAssign | "-=" => subAssign | "*=" => mulAssign
  | "/=" => divAssign | "%=" => modAssign
  | t => other t

/-- Whether the right operand runs only for one outcome of the left. -/
def isShortCircuit : Operator -> Bool
  | and | or => true
  | _ => false

/-- The operator that a compound assignment applies to its target and its value. -/
def applied? : Operator -> Option Operator
  | addAssign => some add
  | subAssign => some sub
  | mulAssign => some mul
  | divAssign => some div
  | modAssign => some mod
  | _ => none

/-- Whether an assignment reads its target before it writes it. -/
def isCompound (op : Operator) : Bool :=
  op.applied?.isSome

def isStep : Operator -> Bool
  | inc | dec => true
  | _ => false

/-- How tightly a binary operator binds its operands. -/
def precedence : Operator -> Nat
  | or => 1
  | and => 2
  | bitOr => 3
  | bitXor => 4
  | bitAnd => 5
  | eq | ne => 6
  | lt | le | gt | ge => 7
  | shl | shr => 8
  | add | sub => 9
  | _ => 10

end Operator

end EarlyExit
