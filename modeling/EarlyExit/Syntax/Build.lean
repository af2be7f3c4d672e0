import EarlyExit.Syntax.Tree

/-!
# Building trees by hand

Short forms of the constructors for trees that stand nowhere in a source file.
-/

namespace EarlyExit

namespace Expr

/-- A variable, or the class of a static call. -/
def named (name : String) (type : String := "") : Expr :=
  .ident .nowhere name type

def ofInt (i : Int64) : Expr :=
  .literal .nowhere (.int i) (toString i.toInt)

def ofFloat (x : Float) : Expr :=
  .literal .nowhere (.float x) ""

def ofString (s : String) : Expr :=
  .literal .nowhere (.str s) ""

def ofBool (b : Bool) : Expr :=
  .literal .nowhere (.bool b) (if b then "true" else "false")

def null : Expr :=
  .literal .nowhere .null ""

/-- `receiver.name(args)`, without a receiver when it is missing. -/
def invoke (receiver : Expr) (name : String) (args : List Expr) (type : String := "") : Expr :=
  .call .nowhere receiver name args type

/-- `Class.name(args)`. -/
def static (className name : String) (args : List Expr) : Expr :=
  invoke (named className) name args

def combine (left : Expr) (op : Operator) (right : Expr) : Expr :=
  .binary .nowhere left op right

def function (params : List Param) (body : Body) : Expr :=
  .lambda .nowhere params body

end Expr

namespace Block

def of (stmts : List Stmt) : Block :=
  .mk .nowhere stmts

end Block

namespace Stmt

def blockOf (stmts : List Stmt) : Stmt :=
  .block (.of stmts)

def returns (value : Expr) : Stmt :=
  .ret .nowhere value

def throws (value : Expr) : Stmt :=
  .throw .nowhere value

def yields (value : Expr) : Stmt :=
  .yield .nowhere value false

def evaluates (e : Expr) : Stmt :=
  .expr .nowhere e

def declares (name type : String) (value : Expr) : Stmt :=
  .var .nowhere name type value

def assigns (target value : Expr) : Stmt :=
  evaluates (.assign .nowhere target .assign value)

def branches (test : Expr) (onTrue onFalse : Stmt) : Stmt :=
  .branch .nowhere test onTrue onFalse

end Stmt

def Method.of (name returns : String) (params : List Param) (stmts : List Stmt) : Method where
  name := name
  params := params
  returns := returns
  body := some (.of stmts)

end EarlyExit
