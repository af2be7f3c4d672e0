import EarlyExit.Syntax.Tree
import EarlyExit.Text.Blank

/-!
# Container kinds

A two-state container holds a success value or is in its alternate state, as
`Either`, `Option` and their like.  A kind lists the names of its members; all code
about containers is built from those names.
-/

namespace EarlyExit

structure Kind where
  /-- The class that the factories are called on. -/
  name : String
  /-- Further static types of this kind. -/
  types : List String := []
  /-- True exactly in the alternate state. -/
  predicate : String
  /-- Gives the success value. -/
  accessor : String
  /-- Gives the alternate value; empty when the alternate state holds none. -/
  alternateAccessor : String := ""
  alternateFactory : String
  successFactory : String
deriving DecidableEq, Repr, Inhabited

namespace Kind

/-- The member that a usable kind must name. -/
inductive Fault
  | unnamed
  | noPredicate (kind : String)
  | noAccessor (kind : String)
  | noAlternateFactory (kind : String)
  | noSuccessFactory (kind : String)
deriving DecidableEq, Repr

def Fault.message : Fault -> String
  | unnamed => "container kind without name"
  | noPredicate k => "container kind " ++ k ++ ": missing alternate predicate"
  | noAccessor k => "container kind " ++ k ++ ": missing success accessor"
  | noAlternateFactory k => "container kind " ++ k ++ ": missing alternate factory"
  | noSuccessFactory k => "container kind " ++ k ++ ": missing success factory"

def fault? (k : Kind) : Option Fault :=
  if k.name.isEmpty then some .unnamed
  else if k.predicate.isEmpty then some (.noPredicate k.name)
  else if k.accessor.isEmpty then some (.noAccessor k.name)
  else if k.alternateFactory.isEmpty then some (.noAlternateFactory k.name)
  else if k.successFactory.isEmpty then some (.noSuccessFactory k.name)
  else none

/-- Every static type name the kind claims. -/
def claims (k : Kind) : List String :=
  k.name :: k.types

/-! ## Code over a container -/

/-- The test for the alternate state, `t.isLeft()`. -/
def guard (k : Kind) (temp : Expr) (span : Span) : Expr :=
  .call span temp k.predicate [] "boolean"

/-- The success value, `t.get()`. -/
def extract (k : Kind) (temp : Expr) (span : Span) (type : String) : Expr :=
  .call span temp k.accessor [] type

/-- A container with the alternate state of `temp`, `Either.left(t.getLeft())`. -/
def reconstruct (k : Kind) (temp : Expr) (span : Span) : Expr :=
  .call span (.ident span k.name "") k.alternateFactory
    (if k.alternateAccessor.isEmpty then []
     else [.call span temp k.alternateAccessor [] ""]) k.name

end Kind

def beforeFirst (c : Char) (cs : List Char) : List Char :=
  cs.takeWhile (· != c)

def afterLast (c : Char) (cs : List Char) : List Char :=
  (cs.reverse.takeWhile (· != c)).reverse

/-- A type name without type arguments and qualifier: `a.b.Either<S, T>` is `Either`. -/
def baseType (type : String) : String :=
  Text.trim (String.ofList (afterLast '.' (beforeFirst '<' (Text.trim type).toList)))

def Kind.matches (k : Kind) (type : String) : Bool :=
  let base := baseType type
  !base.isEmpty && k.claims.contains base

/-! ## Built-in kinds -/

def Kind.either : Kind where
  name := "Either"
  types := ["Left", "Right"]
  predicate := "isLeft"
  accessor := "get"
  alternateAccessor := "getLeft"
  alternateFactory := "left"
  successFactory := "right"

def Kind.option : Kind where
  name := "Option"
  types := ["Some", "None"]
  predicate := "isEmpty"
  accessor := "get"
  alternateFactory := "none"
  successFactory := "some"

def Kind.try : Kind where
  name := "Try"
  types := ["Success", "Failure"]
  predicate := "isFailure"
  accessor := "get"
  alternateAccessor := "getCause"
  alternateFactory := "failure"
  successFactory := "success"

def Kind.result : Kind where
  name := "Result"
  types := ["Ok", "Err"]
  predicate := "isError"
  accessor := "get"
  alternateAccessor := "getError"
  alternateFactory := "error"
  successFactory := "ok"

def Kind.builtin : List Kind :=
  [.either, .option, .try, .result]

end EarlyExit
