import EarlyExit.Source.Position
import EarlyExit.Syntax.Operator

/-!
# Syntax trees

A small statement-oriented language: methods with block bodies, expressions that
run from left to right, lambdas, switches used as statements and as values,
exceptions and labels.

Trees are values.  A slot that is empty, as the value of `return;` or the
receiver of an unqualified call, holds `missing`; a list slot that is empty is
the empty list.
-/

namespace EarlyExit

/-- A constant as a program means it; how it was spelled is kept beside it. -/
inductive Literal
  | int (value : Int64)
  | float (value : Float)
  | str (value : String)
  | bool (value : Bool)
  | null
deriving Inhabited

/-- A parameter of a method, a lambda or a catch clause; lambdas may leave the type out. -/
structure Param where
  span : Span := .nowhere
  name : String
  type : String := ""
deriving DecidableEq, Repr, Inhabited

mutual

/-- An expression.  `type` is the static type a checker attributed, empty when unknown. -/
inductive Expr
  | missing
  | ident (span : Span) (name type : String)
  | literal (span : Span) (value : Literal) (raw : String)
  | call (span : Span) (receiver : Expr) (name : String) (args : List Expr) (type : String)
  | field (span : Span) (target : Expr) (name type : String)
  | assign (span : Span) (target : Expr) (op : Operator) (value : Expr)
  | binary (span : Span) (left : Expr) (op : Operator) (right : Expr)
  | unary (span : Span) (op : Operator) (operand : Expr) (trailing : Bool)
  | conditional (span : Span) (test onTrue onFalse : Expr) (type : String)
  | index (span : Span) (array position : Expr) (type : String)
  | newArray (span : Span) (elemType : String) (dims elements : List Expr) (listed : Bool)
  | newObject (span : Span) (className : String) (args : List Expr)
  | lambda (span : Span) (params : List Param) (body : Body)
  | switch (span : Span) (selector : Expr) (cases : List Case) (type : String)
  | template (span : Span) (processor : String) (fragments : List String) (values : List Expr)

/-- The body of a lambda: a value, or statements that return one. -/
inductive Body
  | value (e : Expr)
  | block (b : Block)

inductive Block
  | mk (span : Span) (stmts : List Stmt)

inductive Stmt
  | missing
  | block (b : Block)
  | expr (span : Span) (e : Expr)
  | var (span : Span) (name type : String) (value : Expr)
  | ret (span : Span) (value : Expr)
  | throw (span : Span) (value : Expr)
  /-- The value of a switch; `implicit` when it is the bare value after an arrow. -/
  | yield (span : Span) (value : Expr) (implicit : Bool)
  | branch (span : Span) (test : Expr) (onTrue onFalse : Stmt)
  | forLoop (span : Span) (init : List Stmt) (test : Expr) (update : List Expr) (body : Stmt)
  | forEach (span : Span) (name type : String) (iterable : Expr) (body : Stmt)
  | whileLoop (span : Span) (test : Expr) (body : Stmt)
  | doWhile (span : Span) (body : Stmt) (test : Expr)
  | switch (span : Span) (selector : Expr) (cases : List Case)
  | tryCatch (span : Span) (resources : List Stmt) (body : Block) (catches : List Catch)
      (cleanup : Option Block)
  | sync (span : Span) (monitor : Expr) (body : Block)
  | labeled (span : Span) (label : String) (body : Stmt)
  | breakTo (span : Span) (label : String)
  | continueTo (span : Span) (label : String)
  | assert (span : Span) (test message : Expr)

/--
One arm of a switch.  Without labels it is the default arm; without an arrow it
falls through into the next one.
-/
inductive Case
  | mk (span : Span) (labels : List Expr) (arrow : Bool) (body : List Stmt)

inductive Catch
  | mk (span : Span) (param : Option Param) (body : Block)

end

instance : Inhabited Expr := ⟨.missing⟩

instance : Inhabited Stmt := ⟨.missing⟩

instance : Inhabited Block := ⟨.mk .nowhere []⟩

structure Method where
  span : Span := .nowhere
  name : String
  params : List Param := []
  returns : String := ""
  body : Option Block := none
deriving Inhabited

structure CompilationUnit where
  span : Span := .nowhere
  file : String
  package : String := ""
  methods : List Method := []
deriving Inhabited

namespace Block

def span : Block -> Span
  | .mk s _ => s

def stmts : Block -> List Stmt
  | .mk _ ss => ss

end Block

namespace Case

def span : Case -> Span
  | .mk s _ _ _ => s

def labels : Case -> List Expr
  | .mk _ ls _ _ => ls

def arrow : Case -> Bool
  | .mk _ _ a _ => a

def body : Case -> List Stmt
  | .mk _ _ _ b => b

def isDefault (c : Case) : Bool :=
  c.labels.isEmpty

end Case

namespace Catch

def span : Catch -> Span
  | .mk s _ _ => s

def param : Catch -> Option Param
  | .mk _ p _ => p

def body : Catch -> Block
  | .mk _ _ b => b

end Catch

namespace Expr

def span : Expr -> Span
  | missing => .nowhere
  | ident s .. | literal s .. | call s .. | field s .. | assign s .. | binary s ..
  | unary s .. | conditional s .. | index s .. | newArray s .. | newObject s ..
  | lambda s .. | switch s .. | template s .. => s

def isMissing : Expr -> Bool
  | missing => true
  | _ => false

/-- The attributed static type; the type of a `new` expression is its class. -/
def staticType : Expr -> String
  | ident _ _ t | call _ _ _ _ t | field _ _ _ t | conditional _ _ _ _ t | index _ _ _ t
  | switch _ _ _ t => t
  | newObject _ c _ => c
  | _ => ""

end Expr

namespace Stmt

def span : Stmt -> Span
  | missing => .nowhere
  | block b => b.span
  | expr s .. | var s .. | ret s .. | throw s .. | yield s .. | branch s .. | forLoop s ..
  | forEach s .. | whileLoop s .. | doWhile s .. | switch s .. | tryCatch s .. | sync s ..
  | labeled s .. | breakTo s .. | continueTo s .. | assert s .. => s

def isMissing : Stmt -> Bool
  | missing => true
  | _ => false

end Stmt

namespace CompilationUnit

def method? (u : CompilationUnit) (name : String) : Option Method :=
  u.methods.find? fun m => m.name == name

end CompilationUnit

end EarlyExit
