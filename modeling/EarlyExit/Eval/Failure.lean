import EarlyExit.Eval.Store
import EarlyExit.Syntax.Node

/-!
# How evaluation ends

A computation gives a value, or stops: with a value in flight to a catch clause,
with an early exit on its way to the scope it leaves, with a failure of the program
that no clause catches, or for want of fuel.  A run that comes to an address which is not
known has no way on either, and ends as one without fuel.  Texts of values are taken when
a failure arises, since arrays may change later.
-/

namespace EarlyExit.Eval

inductive Failure
  | noMethod (name file : String)
  | methodArity (span : Span) (name : String) (want got : Nat)
  | lambdaArity (want got : Nat)
  | emptyLambda
  | escapesBody (name : String)
  | cannotExecute (span : Span) (type : String)
  | cannotEvaluate (span : Span) (type : String)
  | cannotIterate (span : Span) (value : String)
  | ruleWithoutValue (span : Span)
  | escapesSwitch (span : Span)
  | switchWithoutValue (span : Span)
  | undefined (span : Span) (name : String)
  | undefinedMethod (span : Span) (name : String)
  | noField (span : Span) (name value : String)
  | unexpanded (span : Span) (name : String)
  | noMember (span : Span) (name value : String)
  | noFactory (span : Span) (name kind : String)
  | noMemberOf (name type : String)
  | cannotAssign (span : Span) (type : String)
  | cannotStep (span : Span) (type : String)
  | cannotIndex (value : String)
  | badIndex (value : String)
  | badOperand (span : Span) (value : String) (op : Operator)
  | badOperands (left : String) (op : Operator) (right : String)
  | badDimension (value : String)
  | notBoolean (value : String)
  | host (message : String)
deriving DecidableEq, Repr

def Failure.message : Failure -> String
  | noMethod name file => "no method " ++ name ++ " in " ++ file
  | methodArity s name want got =>
      s.text ++ ": " ++ name ++ " takes " ++ toString want ++ " arguments, got " ++ toString got
  | lambdaArity want got =>
      "lambda takes " ++ toString want ++ " arguments, got " ++ toString got
  | emptyLambda => "lambda body <nil>"
  | escapesBody name => name ++ ": control flow escapes the body"
  | cannotExecute s type => s.text ++ ": cannot execute " ++ type
  | cannotEvaluate s type => s.text ++ ": cannot evaluate " ++ type
  | cannotIterate s value => s.text ++ ": cannot iterate over " ++ value
  | ruleWithoutValue s => s.text ++ ": case rule completes without a value"
  | escapesSwitch s => s.text ++ ": control flow escapes a switch expression"
  | switchWithoutValue s => s.text ++ ": switch expression completes without a value"
  | undefined s name => s.text ++ ": undefined: " ++ name
  | undefinedMethod s name => s.text ++ ": undefined method " ++ name
  | noField s name value => s.text ++ ": no field " ++ name ++ " on " ++ value
  | unexpanded s name => s.text ++ ": " ++ name ++ "() reached the interpreter"
  | noMember s name value => s.text ++ ": no method " ++ name ++ " on " ++ value
  | noFactory s name kind => s.text ++ ": no factory " ++ name ++ " on " ++ kind
  | noMemberOf name type => "no method " ++ name ++ " on " ++ type
  | cannotAssign s type => s.text ++ ": cannot assign to " ++ type
  | cannotStep s type => s.text ++ ": cannot increment " ++ type
  | cannotIndex value => "cannot index " ++ value
  | badIndex value => "array index " ++ value ++ " is not an integer"
  | badOperand s value op => s.text ++ ": bad operand " ++ value ++ " for " ++ op.text
  | badOperands left op right => "bad operands " ++ left ++ " " ++ op.text ++ " " ++ right
  | badDimension value => "array dimension " ++ value ++ " is not an integer"
  | notBoolean value => "expected boolean, got " ++ value
  | host message => message

/-- How a computation stops without a value of its own. -/
inductive Stop
  | thrown (v : Value)
  | exit (container : Value)
  | failed (f : Failure)
  | outOfFuel

abbrev Run := EStateM Stop Store

namespace Run

def fail (f : Failure) : Run α :=
  throw (.failed f)

def raise (className message : String) : Run α :=
  throw (.thrown (.exception className message))

/-- What is known, or an end for want of it. -/
def told : Option α -> Run α
  | some a => return a
  | none => throw .outOfFuel

def text (v : Value) : Run String := do
  told ((← get).text? v)

def texts (vs : List Value) : Run (List String) := do
  told (vs.mapM (← get).text?)

def push (outer : Option Nat) : Run Nat :=
  modifyGet fun st => st.push outer

def define (scope : Nat) (name : String) (v : Value) : Run Unit :=
  modify fun st => st.define scope name v

def alloc (elems : List Value) : Run Value :=
  modifyGet fun st => st.alloc elems.toArray

end Run

inductive Completion
  | normal
  | returned (v : Value)
  | yielded (v : Value)
  | broke (label : String)
  | continued (label : String)

end EarlyExit.Eval
