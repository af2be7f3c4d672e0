import EarlyExit.Expansion.Hoist

/-!
# Lifting

Two changes that give a site a statement of its own: a conditional that is all a
statement evaluates becomes an `if` statement, and the value of a lambda becomes a
block that returns it.
-/

namespace EarlyExit

namespace Stmt

/-- The statement, written out if it was the bare value after an arrow. -/
def explicit : Stmt -> Stmt
  | yield s value _ => yield s value false
  | s => s

end Stmt

namespace Expansion

structure Conditional where
  span : Span
  test : Expr
  onTrue : Expr
  onFalse : Expr
  type : String

def Conditional.ofNode? : Node -> Option Conditional
  | .expr (.conditional s test onTrue onFalse type) => some ⟨s, test, onTrue, onFalse, type⟩
  | _ => none

namespace Conditional

variable (c : Conditional)

def valueType : String :=
  conditionalType c.type c.onTrue c.onFalse

/-- The `if` statement over the same test. -/
def branches (onTrue onFalse : Stmt) : Stmt :=
  .branch c.span c.test onTrue onFalse

/-- The `if` statement that assigns one of the values. -/
def assigning (target : Expr) (op : Operator) : Stmt :=
  let one (value : Expr) : Stmt := .expr value.span (.assign value.span target op value)
  c.branches (one c.onTrue) (one c.onFalse)

end Conditional

/--
Split a statement by a conditional that it evaluates.  Exits and plain expressions
are repeated in both branches; any other statement reads a variable that the
branches assign.
-/
def lift (names : Names) (anchor : Stmt) (c : Conditional) : Except Defect (List Stmt × Names) :=
  match anchor with
  | .ret .. | .throw .. | .yield .. =>
      .ok ([c.branches (anchor.withAnchorExpr c.onTrue).explicit
        (anchor.withAnchorExpr c.onFalse).explicit], names)
  | .var s name type _ =>
      let type := if type.isEmpty then c.valueType else type
      if type.isEmpty then .error (.inconsistentTree s "lifted declaration has no type")
      else .ok ([.var s name type .missing, c.assigning (.ident s name type) .assign], names)
  | .expr _ (.assign _ target op _) => .ok ([c.assigning target op], names)
  | .expr .. =>
      .ok ([c.branches (.expr c.onTrue.span c.onTrue) (.expr c.onFalse.span c.onFalse)], names)
  | .branch .. | .switch .. | .sync .. | .forEach .. =>
      if c.valueType.isEmpty then
        .error (.inconsistentTree c.span "lifted conditional has no type")
      else
        let temp : Expr := .ident c.span names.fresh.1 c.valueType
        .ok ([.var c.span names.fresh.1 c.valueType .missing, c.assigning temp .assign,
          anchor.withAnchorExpr temp], names.fresh.2)
  | _ => .error (.unsupportedNode anchor.span (Node.stmt anchor).qualifiedTypeName)

/-- The lambda with a block that returns its value. -/
def wrapLambda : Expr -> Except Defect Expr
  | .lambda s params (.value e) =>
      if e.isMissing then .error (.inconsistentTree s "lambda body is already a block")
      else .ok (.lambda s params (.block (.mk e.span [.ret e.span e])))
  | e => .error (.inconsistentTree e.span "lambda body is already a block")

end Expansion

end EarlyExit
