import EarlyExit.Document.Schema
import EarlyExit.Document.Version
import EarlyExit.Syntax.Node

/-!
# Writing tree documents

The document of a unit.  Fields that hold nothing are left out, except those that
every record of their sort has.  A tree with an empty place where its kind needs a
node has no document.
-/

namespace EarlyExit.Document

/-- A node that cannot be written, by the name of its kind. -/
structure Unwritable where
  type : String
deriving DecidableEq, Repr

def Unwritable.message (u : Unwritable) : String :=
  "cannot encode " ++ u.type

abbrev Writing := Except Unwritable

abbrev Fields := List (String × Data)

/-! ## Fields -/

def text (key value : String) : Fields :=
  if value.isEmpty then [] else [(key, .str value)]

def flag (key : String) (value : Bool) : Fields :=
  if value then [(key, .bool true)] else []

def whole (key : String) (value : Int) : Fields :=
  if value = 0 then [] else [(key, .ofInt value)]

def items (key : String) (xs : List Data) : Fields :=
  if xs.isEmpty then [] else [(key, .list xs)]

def node (key : String) (d : Data) : Fields :=
  [(key, d)]

def place (span : Span) : Fields :=
  if span.isValid then whole "line" span.start.line ++ whole "col" span.start.column else []

def kind (name : String) (span : Span) : Fields :=
  ("kind", .str name) :: place span

def paramData (p : Param) : Data :=
  .map (("name", .str p.name) :: text "type" p.type)

def paramsField (ps : List Param) : Fields :=
  items "params" (ps.map paramData)

def literalField : Literal -> Fields
  | .int i => [("value", .ofInt i.toInt)]
  | .float x => [("value", .ofFloat x)]
  | .str s => [("value", .str s)]
  | .bool b => [("value", .bool b)]
  | .null => []

def unlessMissing (isMissing : Bool) (key : String) (d : Writing Data) : Writing Fields :=
  if isMissing then return [] else return node key (← d)

mutual

def writeExpr : Expr -> Writing Data
  | .missing => throw ⟨"<nil>"⟩
  | .ident s name type => return .map (kind "ident" s ++ text "name" name ++ text "type" type)
  | .literal s value raw =>
      return .map (kind "lit" s ++ literalField value ++ text "raw" raw)
  | .call s receiver name args type => do
      let receiver ← unlessMissing receiver.isMissing "recv" (writeExpr receiver)
      let args ← writeExprs args
      return .map (kind "call" s ++ text "name" name ++ text "type" type ++ receiver ++
        items "args" args)
  | .field s target name type => do
      let target ← writeExpr target
      return .map (kind "field" s ++ text "name" name ++ text "type" type ++
        node "target" target)
  | .assign s target op value => do
      let target ← writeExpr target
      let value ← writeExpr value
      return .map (kind "assign" s ++ text "op" op.text ++ node "target" target ++
        node "expr" value)
  | .binary s left op right => do
      let left ← writeExpr left
      let right ← writeExpr right
      return .map (kind "binary" s ++ text "op" op.text ++ node "left" left ++
        node "right" right)
  | .unary s op operand trailing => do
      let operand ← writeExpr operand
      return .map (kind "unary" s ++ text "op" op.text ++ flag "postfix" trailing ++
        node "operand" operand)
  | .conditional s test onTrue onFalse type => do
      let test ← writeExpr test
      let onTrue ← writeExpr onTrue
      let onFalse ← writeExpr onFalse
      return .map (kind "cond" s ++ text "type" type ++ node "cond" test ++
        node "then" onTrue ++ node "else" onFalse)
  | .index s array position type => do
      let array ← writeExpr array
      let position ← writeExpr position
      return .map (kind "index" s ++ text "type" type ++ node "array" array ++
        node "index" position)
  | .newArray s elemType dims elements isListed => do
      let dims ← writeExprs dims
      let elements ← writeExprs elements
      return .map (kind "newarray" s ++ text "type" elemType ++ flag "init_list" isListed ++
        items "dims" dims ++ items "elements" elements)
  | .newObject s className args => do
      let args ← writeExprs args
      return .map (kind "new" s ++ text "class" className ++ items "args" args)
  | .lambda s params body => do
      let body ← writeBody body
      return .map (kind "lambda" s ++ body ++ paramsField params)
  | .switch s selector cases type => do
      let selector ← writeExpr selector
      let cases ← writeCases cases
      return .map (kind "switchexpr" s ++ text "type" type ++ node "selector" selector ++
        items "cases" cases)
  | .template s processor fragments values => do
      let values ← writeExprs values
      return .map (kind "template" s ++ text "processor" processor ++ items "values" values ++
        items "fragments" (fragments.map .str))

def writeExprs : List Expr -> Writing (List Data)
  | [] => return []
  | e :: rest => return (← writeExpr e) :: (← writeExprs rest)

def writeBody : Body -> Writing Fields
  | .value .missing => return []
  | .value e => return node "expr" (← writeExpr e)
  | .block (.mk _ stmts) => return items "body" (← writeStmts stmts)

def writeStmt : Stmt -> Writing Data
  | .missing => throw ⟨"<nil>"⟩
  | .block (.mk s stmts) => return .map (kind "block" s ++ items "body" (← writeStmts stmts))
  | .expr s e => return .map (kind "expr" s ++ node "expr" (← writeExpr e))
  | .var s name type value => do
      let value ← unlessMissing value.isMissing "expr" (writeExpr value)
      return .map (kind "var" s ++ text "name" name ++ text "type" type ++ value)
  | .ret s value =>
      return .map (kind "return" s ++
        (← unlessMissing value.isMissing "expr" (writeExpr value)))
  | .throw s value => return .map (kind "throw" s ++ node "expr" (← writeExpr value))
  | .yield s value implicit =>
      return .map (kind "yield" s ++ flag "implicit" implicit ++
        node "expr" (← writeExpr value))
  | .branch s test onTrue onFalse => do
      let test ← writeExpr test
      let onTrue ← writeStmt onTrue
      let onFalse ← unlessMissing onFalse.isMissing "else" (writeStmt onFalse)
      return .map (kind "if" s ++ node "cond" test ++ node "then" onTrue ++ onFalse)
  | .forLoop s init test update body => do
      let init ← writeStmts init
      let test ← unlessMissing test.isMissing "cond" (writeExpr test)
      let update ← writeExprs update
      let body ← writeStmt body
      return .map (kind "for" s ++ test ++ node "stmt" body ++ items "update" update ++
        items "init" init)
  | .forEach s name type iterable body => do
      let iterable ← writeExpr iterable
      let body ← writeStmt body
      return .map (kind "foreach" s ++ text "name" name ++ text "type" type ++
        node "expr" iterable ++ node "stmt" body)
  | .whileLoop s test body => do
      let test ← writeExpr test
      let body ← writeStmt body
      return .map (kind "while" s ++ node "cond" test ++ node "stmt" body)
  | .doWhile s body test => do
      let test ← writeExpr test
      let body ← writeStmt body
      return .map (kind "do" s ++ node "cond" test ++ node "stmt" body)
  | .switch s selector cases => do
      let selector ← writeExpr selector
      let cases ← writeCases cases
      return .map (kind "switch" s ++ node "selector" selector ++ items "cases" cases)
  | .tryCatch s resources (.mk _ body) catches cleanup => do
      let resources ← writeStmts resources
      let body ← writeStmts body
      let catches ← writeCatches catches
      let cleanup ← match cleanup with
        | none => pure []
        | some (.mk fs stmts) => do
            let stmts ← writeStmts stmts
            pure (node "finally" (.map (kind "block" fs ++ items "body" stmts)))
      return .map (kind "try" s ++ items "resources" resources ++ items "body" body ++
        items "catches" catches ++ cleanup)
  | .sync s monitor (.mk _ body) => do
      let monitor ← writeExpr monitor
      let body ← writeStmts body
      return .map (kind "sync" s ++ node "expr" monitor ++ items "body" body)
  | .labeled s label body =>
      return .map (kind "labeled" s ++ text "label" label ++ node "stmt" (← writeStmt body))
  | .breakTo s label => return .map (kind "break" s ++ text "label" label)
  | .continueTo s label => return .map (kind "continue" s ++ text "label" label)
  | .assert s test message => do
      let test ← writeExpr test
      let message ← unlessMissing message.isMissing "message" (writeExpr message)
      return .map (kind "assert" s ++ node "cond" test ++ message)

def writeStmts : List Stmt -> Writing (List Data)
  | [] => return []
  | s :: rest => return (← writeStmt s) :: (← writeStmts rest)

def writeCases : List Case -> Writing (List Data)
  | [] => return []
  | .mk s labels arrow body :: rest => do
      let labels ← writeExprs labels
      let body ← writeStmts body
      let rest ← writeCases rest
      return .map (place s ++ items "labels" labels ++ flag "arrow" arrow ++
        items "body" body) :: rest

def writeCatches : List Catch -> Writing (List Data)
  | [] => return []
  | .mk s param (.mk _ body) :: rest => do
      let body ← writeStmts body
      let param := match param with
        | some p => node "param" (paramData p)
        | none => []
      let rest ← writeCatches rest
      return .map (place s ++ param ++ node "body" (.list body)) :: rest

end

def writeMethod (m : Method) : Writing Data := do
  let body ← writeStmts (m.body.map Block.stmts |>.getD [])
  return .map (("name", .str m.name) :: text "returns" m.returns ++ place m.span ++
    paramsField m.params ++ node "body" (.list body))

def writeMethods : List Method -> Writing (List Data)
  | [] => return []
  | m :: rest => return (← writeMethod m) :: (← writeMethods rest)

def write (u : CompilationUnit) : Writing Data := do
  let methods ← writeMethods u.methods
  return .map [
    ("format", .str currentFormat),
    ("unit", .map (("file", .str u.file) :: text "package" u.package ++
      node "methods" (.list methods)))]

end EarlyExit.Document
