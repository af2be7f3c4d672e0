import EarlyExit.Eval.Failure
import EarlyExit.Text.LetterCase

/-!
# Operations on values

Operators, array elements and the members of strings, objects and containers: the
part of evaluation that runs no code of the program.
-/

namespace EarlyExit.Eval

def truth (v : Value) : Run Bool :=
  match v with
  | .bool b => return b
  | v => do Run.fail (.notBoolean (← Run.text v))

def toFloat? : Value -> Option Float
  | .int i => some i.toFloat
  | .float x => some x
  | _ => none

def boolOp (op : Operator) (a b : Bool) : Option Value :=
  match op with
  | .bitAnd => some (.bool (a && b))
  | .bitOr => some (.bool (a || b))
  | .bitXor => some (.bool (a != b))
  | _ => none

/-- Operators on two integers, division excepted.  Arithmetic wraps; a shift uses six bits. -/
def intOp (op : Operator) (a b : Int64) : Option Value :=
  match op with
  | .add => some (.int (a + b))
  | .sub => some (.int (a - b))
  | .mul => some (.int (a * b))
  | .lt => some (.bool (decide (a < b)))
  | .le => some (.bool (decide (a ≤ b)))
  | .gt => some (.bool (decide (b < a)))
  | .ge => some (.bool (decide (b ≤ a)))
  | .bitAnd => some (.int (a &&& b))
  | .bitOr => some (.int (a ||| b))
  | .bitXor => some (.int (a ^^^ b))
  | .shl => some (.int (a <<< (b &&& 63)))
  | .shr => some (.int (a >>> (b &&& 63)))
  | _ => none

def floatOp (op : Operator) (a b : Float) : Option Value :=
  match op with
  | .add => some (.float (a + b))
  | .sub => some (.float (a - b))
  | .mul => some (.float (a * b))
  | .div => some (.float (a / b))
  | .lt => some (.bool (decide (a < b)))
  | .le => some (.bool (decide (a ≤ b)))
  | .gt => some (.bool (decide (b < a)))
  | .ge => some (.bool (decide (b ≤ a)))
  | _ => none

def isText : Value -> Bool
  | .str _ => true
  | _ => false

/-- The result of an operator on numbers and truth values, if it is defined there. -/
def arithmetic (op : Operator) (l r : Value) : Option Value :=
  match l, r with
  | .bool a, .bool b => boolOp op a b
  | .int a, .int b => intOp op a b
  | l, r =>
      match toFloat? l, toFloat? r with
      | some a, some b => floatOp op a b
      | _, _ => none

/-- An operator that evaluates both operands. -/
def binary (op : Operator) (l r : Value) : Run Value := do
  if op = .add && (isText l || isText r) then
    return .str ((← Run.text l) ++ (← Run.text r))
  match op with
  | .eq => return .bool (l.equal true r)
  | .ne => return .bool (!l.equal true r)
  | _ =>
      match op, l, r with
      | .div, .int a, .int b =>
          if b = 0 then Run.raise "ArithmeticException" "/ by zero" else return .int (a / b)
      | .mod, .int a, .int b =>
          if b = 0 then Run.raise "ArithmeticException" "/ by zero" else return .int (a % b)
      | _, _, _ =>
          match arithmetic op l r with
          | some v => return v
          | none => do Run.fail (.badOperands (← Run.text l) op (← Run.text r))

/-- An operator in front of a value; incrementing is not one of them. -/
def unary (span : Span) (op : Operator) (v : Value) : Run Value := do
  match op, v with
  | .not, v => return .bool (!(← truth v))
  | .bitNot, .int i => return .int (~~~i)
  | .sub, .int i => return .int (-i)
  | .sub, .float x => return .float (-x)
  | .add, .int i => return .int i
  | .add, .float x => return .float x
  | op, v => Run.fail (.badOperand span (← Run.text v) op)

/-! ## Arrays -/

/-- The array and the place that an index denotes. -/
def element (a i : Value) : Run (Nat × Nat) := do
  match a with
  | .array ref =>
      match i with
      | .int n =>
          let size := ((← get).elems ref).size
          let n := n.toInt
          if 0 ≤ n && n < size then return (ref, n.toNat)
          Run.raise "ArrayIndexOutOfBoundsException"
            ("Index " ++ toString n ++ " out of bounds for length " ++ toString size)
      | i => Run.fail (.badIndex (← Run.text i))
  | .null => Run.raise "NullPointerException" "index into null"
  | a => Run.fail (.cannotIndex (← Run.text a))

def readElement (ref i : Nat) : Run Value := do
  return ((← get).elems ref).getD i .null

def writeElement (ref i : Nat) (v : Value) : Run Unit :=
  modify fun st => st.setElem ref i v

/-- The results of running a computation a number of times, after those in `done`. -/
def collect (x : Run α) : Nat -> List α -> Run (List α)
  | 0, done => return done.reverse
  | n + 1, done => do
      let a ← x
      collect x n (a :: done)

/--
A new array with its sizes given outermost first.  The last size is filled with
zeros; a size is looked at only when an array of that size is made.  Memory has no limit, so
no size is too large.
-/
def makeArray (elemType : String) : List Value -> Run Value
  | [] => Run.alloc []
  | dim :: inner =>
      match dim with
      | .int n => do
          if n < 0 then Run.raise "NegativeArraySizeException" (toString n.toInt)
          let count := n.toInt.toNat
          if inner.isEmpty then Run.alloc (List.replicate count (.zero elemType))
          else Run.alloc (← collect (makeArray elemType inner) count [])
      | dim => do Run.fail (.badDimension (← Run.text dim))

/-! ## Members -/

/-- A member of a container: its test, its two accessors, and equality. -/
def containerMember (k : Kind) (alternate : Bool) (held : Value) (name : String)
    (args : List Value) : Run Value := do
  let self := Value.container k alternate held
  let absent : Run Value := do
    Run.raise "NoSuchElementException" (name ++ " on " ++ (← Run.text self))
  if name = k.predicate then return .bool alternate
  else if name = k.accessor then (if alternate then absent else return held)
  else
    match name, args with
    | "equals", [other] => return .bool (self.equal true other)
    | _, _ =>
        if k.alternateAccessor ≠ "" && name = k.alternateAccessor then
          (if alternate then return held else absent)
        else Run.fail (.noMemberOf name k.name)

def stringMember (s name : String) (args : List Value) : Run Value := do
  match name, args with
  | "length", _ => return .int (Int64.ofNat s.utf8ByteSize)
  | "isEmpty", _ => return .bool s.isEmpty
  | "toUpperCase", _ => return .str (Text.upper s)
  | "toLowerCase", _ => return .str (Text.lower s)
  | "trim", _ => return .str (Text.trim s)
  | "equals", [other] => return .bool ((Value.str s).equal true other)
  | "concat", [other] => return .str (s ++ (← Run.text other))
  | name, _ => Run.fail (.noMemberOf name "String")

/-- A member of an object: its message, which is its first argument, and equality. -/
def objectMember? (className : String) (fields : List Value) (name : String)
    (args : List Value) : Option Value :=
  match name, args with
  | "getMessage", _ => some (fields.headD .null)
  | "equals", [other] => some (.bool ((Value.object className fields).equal true other))
  | _, _ => none

/-- Whether a catch parameter takes a value: by its class, or by one of the general classes. -/
def catches (param : Option Param) (v : Value) : Bool :=
  match param with
  | none => true
  | some p =>
      p.type.isEmpty ||
        ((p.type.splitOn "|").map Text.trim).any fun t =>
          t == "Throwable" || t == "Exception" || t == "RuntimeException" || t == v.className

end EarlyExit.Eval
