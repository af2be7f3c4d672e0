import EarlyExit.Document.Schema
import EarlyExit.Document.Version
import EarlyExit.Syntax.Tree
import EarlyExit.Text.Quoted

/-!
# Reading tree documents

A document that has the right shape and a format that can be read gives a unit,
unless a node is malformed.  Reading goes on after a malformed node, so that all
of them are reported; an empty place is left where one stood.
-/

namespace EarlyExit.Document

inductive Cause
  | unnamedMethod
  | nullEntry (field : String) (i : Nat)
  | missing (kind field : String)
  | unknownStatement (kind : String)
  | unknownExpression (kind : String)
  | fragmentCount (fragments values : Nat)
  | unsupportedLiteral (type : String)
deriving DecidableEq, Repr

def Cause.text : Cause -> String
  | unnamedMethod => "method without name"
  | nullEntry field i => field ++ "[" ++ toString i ++ "]: null entry"
  | missing kind field => kind ++ ": missing " ++ field
  | unknownStatement kind => "unknown statement kind " ++ Text.quote kind
  | unknownExpression kind => "unknown expression kind " ++ Text.quote kind
  | fragmentCount n m =>
      "template: " ++ toString n ++ " fragments for " ++ toString m ++ " values"
  | unsupportedLiteral type => "literal of unsupported type " ++ type

structure Problem where
  span : Span
  cause : Cause
deriving DecidableEq, Repr

def Problem.text (p : Problem) : String :=
  if p.span.isValid then p.span.text ++ ": " ++ p.cause.text else p.cause.text

/-- A value read, with the problems met on the way in order. -/
structure Reading (α : Type) where
  value : α
  problems : List Problem := []

namespace Reading

instance : Monad Reading where
  pure a := ⟨a, []⟩
  bind x f := ⟨(f x.value).value, x.problems ++ (f x.value).problems⟩

def report (p : Problem) : Reading Unit :=
  ⟨(), [p]⟩

end Reading

/-- The span of a map with `line` and `col`: nowhere without a line, column one without a column. -/
def spanOf (file : String) (d : Data) : Span :=
  let line := wholeField d "line"
  let col := wholeField d "col"
  if line = 0 then .nowhere else .point file line (if col = 0 then 1 else col)

/-- Read an optional field; the reader may use that the field is smaller than the map. -/
def optional (d : Data) (key : String) (empty : α)
    (read : (x : Data) -> sizeOf x < sizeOf d -> Reading α) : Reading α :=
  match h : d.field? key with
  | some x => read x (Data.sizeOf_field? h)
  | none => pure empty

/-- Read a field that must be there. -/
def required (file : String) (d : Data) (key : String) (empty : α)
    (read : (x : Data) -> sizeOf x < sizeOf d -> Reading α) : Reading α :=
  match h : d.field? key with
  | some x => read x (Data.sizeOf_field? h)
  | none => do
      Reading.report ⟨spanOf file d, .missing (textField d "kind") key⟩
      return empty

/-- Read the items of a list field in order, with their numbers. -/
def eachItem (d : Data) (key : String)
    (read : Nat -> (x : Data) -> sizeOf x < sizeOf d -> Reading (Option α)) :
    Reading (List α) :=
  go 0 (d.itemsOf key) fun _ h => Data.sizeOf_mem_itemsOf h
where
  go (i : Nat) (xs : List Data) (small : ∀ x ∈ xs, sizeOf x < sizeOf d) : Reading (List α) :=
    match xs, small with
    | [], _ => pure []
    | x :: rest, small => do
        let a ← read i x (small x (by simp))
        let as ← go (i + 1) rest fun y h => small y (by simp [h])
        return match a with
          | some a => a :: as
          | none => as

def present (e : Expr) : Option Expr :=
  if e.isMissing then none else some e

def presentStmt (s : Stmt) : Option Stmt :=
  if s.isMissing then none else some s

def readParam (d : Data) : Param :=
  { name := textField d "name", type := textField d "type" }

def readParams (d : Data) : List Param :=
  ((d.itemsOf "params").filter fun x => !x.isNull).map readParam

/-- The operator of an assignment is a plain one unless another is given. -/
def assignOperator (text : String) : Operator :=
  if text.isEmpty then .assign else .ofText text

def readLiteral (file : String) (d : Data) : Reading Expr := do
  let span := spanOf file d
  let raw := textField d "raw"
  match d.field? "value" with
  | none => return .literal span .null raw
  | some x =>
      match x.scalar? with
      | some .null => return .literal span .null raw
      | some (.bool b) => return .literal span (.bool b) raw
      | some (.int i) => return .literal span (.int (Int64.ofInt i)) raw
      | some (.float y) => return .literal span (.float y) raw
      | some (.str s) => return .literal span (.str s) raw
      | none =>
          let type := if x.isList then "[]interface \x7b\x7d" else "map[string]interface \x7b\x7d"
          Reading.report ⟨span, .unsupportedLiteral type⟩
          return .literal span .null raw

mutual

def readExpr (file : String) (d : Data) : Reading Expr :=
  let span := spanOf file d
  let name := textField d "name"
  let type := textField d "type"
  match textField d "kind" with
  | "ident" => return .ident span name type
  | "lit" => readLiteral file d
  | "call" => do
      let receiver ← optional d "recv" .missing fun x _h => readExpr file x
      let args ← readExprs file d "args"
      return .call span receiver name args type
  | "field" => do
      let target ← required file d "target" .missing fun x _h => readExpr file x
      return .field span target name type
  | "assign" => do
      let target ← required file d "target" .missing fun x _h => readExpr file x
      let value ← required file d "expr" .missing fun x _h => readExpr file x
      return .assign span target (assignOperator (textField d "op")) value
  | "binary" => do
      let left ← required file d "left" .missing fun x _h => readExpr file x
      let right ← required file d "right" .missing fun x _h => readExpr file x
      return .binary span left (.ofText (textField d "op")) right
  | "unary" => do
      let operand ← required file d "operand" .missing fun x _h => readExpr file x
      return .unary span (.ofText (textField d "op")) operand (flagField d "postfix")
  | "cond" => do
      let test ← required file d "cond" .missing fun x _h => readExpr file x
      let onTrue ← required file d "then" .missing fun x _h => readExpr file x
      let onFalse ← required file d "else" .missing fun x _h => readExpr file x
      return .conditional span test onTrue onFalse type
  | "index" => do
      let array ← required file d "array" .missing fun x _h => readExpr file x
      let position ← required file d "index" .missing fun x _h => readExpr file x
      return .index span array position type
  | "newarray" => do
      let dims ← readExprs file d "dims"
      let elements ← readExprs file d "elements"
      return .newArray span type dims elements (flagField d "init_list")
  | "new" => do
      let args ← readExprs file d "args"
      return .newObject span (textField d "class") args
  | "lambda" => do
      let body ←
        match h : d.field? "expr" with
        | some x => do
            have := Data.sizeOf_field? h
            let e ← readExpr file x
            pure (Body.value e)
        | none => do
            let stmts ← readStmts file d "body"
            pure (.block (.mk span stmts))
      return .lambda span (readParams d) body
  | "switchexpr" => do
      let selector ← required file d "selector" .missing fun x _h => readExpr file x
      let cases ← readCases file d
      return .switch span selector cases type
  | "template" => do
      let fragments := textsField d "fragments"
      let count := (d.itemsOf "values").length
      if fragments.length ≠ count + 1 then
        Reading.report ⟨span, .fragmentCount fragments.length count⟩
      let values ← readExprs file d "values"
      return .template span (textField d "processor") fragments values
  | kind => do
      Reading.report ⟨span, .unknownExpression kind⟩
      return .missing
termination_by (sizeOf d, 1)

/-- The operands of a list field; null entries are reported. -/
def readExprs (file : String) (d : Data) (key : String) : Reading (List Expr) :=
  eachItem d key fun i x _h =>
    if x.isNull then do
      Reading.report ⟨spanOf file d, .nullEntry key i⟩
      return none
    else do
      let e ← readExpr file x
      return present e
termination_by (sizeOf d, 0)

def readStmt (file : String) (d : Data) : Reading Stmt :=
  let span := spanOf file d
  let name := textField d "name"
  let type := textField d "type"
  let label := textField d "label"
  match textField d "kind" with
  | "block" => do
      let stmts ← readStmts file d "body"
      return .block (.mk span stmts)
  | "expr" => do
      let e ← required file d "expr" .missing fun x _h => readExpr file x
      return .expr span e
  | "var" => do
      let value ← optional d "expr" .missing fun x _h => readExpr file x
      return .var span name type value
  | "return" => do
      let value ← optional d "expr" .missing fun x _h => readExpr file x
      return .ret span value
  | "throw" => do
      let value ← required file d "expr" .missing fun x _h => readExpr file x
      return .throw span value
  | "yield" => do
      let value ← required file d "expr" .missing fun x _h => readExpr file x
      return .yield span value (flagField d "implicit")
  | "if" => do
      let test ← required file d "cond" .missing fun x _h => readExpr file x
      let onTrue ← required file d "then" .missing fun x _h => readStmt file x
      let onFalse ← optional d "else" .missing fun x _h => readStmt file x
      return .branch span test onTrue onFalse
  | "for" => do
      let init ← readStmts file d "init"
      let test ← optional d "cond" .missing fun x _h => readExpr file x
      let update ← readExprs file d "update"
      let body ← required file d "stmt" .missing fun x _h => readStmt file x
      return .forLoop span init test update body
  | "foreach" => do
      let iterable ← required file d "expr" .missing fun x _h => readExpr file x
      let body ← required file d "stmt" .missing fun x _h => readStmt file x
      return .forEach span name type iterable body
  | "while" => do
      let test ← required file d "cond" .missing fun x _h => readExpr file x
      let body ← required file d "stmt" .missing fun x _h => readStmt file x
      return .whileLoop span test body
  | "do" => do
      let body ← required file d "stmt" .missing fun x _h => readStmt file x
      let test ← required file d "cond" .missing fun x _h => readExpr file x
      return .doWhile span body test
  | "switch" => do
      let selector ← required file d "selector" .missing fun x _h => readExpr file x
      let cases ← readCases file d
      return .switch span selector cases
  | "try" => do
      let resources ← readStmts file d "resources"
      let body ← readStmts file d "body"
      let catches ← eachItem d "catches" fun _ x _h =>
        if x.isNull then return none
        else do
          let clause ← readStmts file x "body"
          return some (Catch.mk (spanOf file x) ((x.field? "param").map readParam)
            (.mk (spanOf file x) clause))
      let cleanup ← optional d "finally" none fun x _h => do
        let stmts ← readStmts file x "body"
        return some (Block.mk (spanOf file x) stmts)
      return .tryCatch span resources (.mk span body) catches cleanup
  | "sync" => do
      let monitor ← required file d "expr" .missing fun x _h => readExpr file x
      let body ← readStmts file d "body"
      return .sync span monitor (.mk span body)
  | "labeled" => do
      let body ← required file d "stmt" .missing fun x _h => readStmt file x
      return .labeled span label body
  | "break" => return .breakTo span label
  | "continue" => return .continueTo span label
  | "assert" => do
      let test ← required file d "cond" .missing fun x _h => readExpr file x
      let message ← optional d "message" .missing fun x _h => readExpr file x
      return .assert span test message
  | kind => do
      Reading.report ⟨span, .unknownStatement kind⟩
      return .missing
termination_by (sizeOf d, 1)

/-- The statements of a list field; null entries are dropped. -/
def readStmts (file : String) (d : Data) (key : String) : Reading (List Stmt) :=
  eachItem d key fun _ x _h =>
    if x.isNull then return none
    else do
      let s ← readStmt file x
      return presentStmt s
termination_by (sizeOf d, 0)

def readCases (file : String) (d : Data) : Reading (List Case) :=
  eachItem d "cases" fun _ x _h =>
    if x.isNull then return none
    else do
      let labels ← readExprs file x "labels"
      let body ← readStmts file x "body"
      return some (Case.mk (spanOf file x) labels (flagField x "arrow") body)
termination_by (sizeOf d, 0)

end

def readMethod (file : String) (d : Data) : Reading Method := do
  let span := spanOf file d
  let body ← readStmts file d "body"
  let name := textField d "name"
  if name.isEmpty then Reading.report ⟨span, .unnamedMethod⟩
  return { span, name, params := readParams d, returns := textField d "returns",
           body := some (.mk span body) }

inductive Fault
  /-- Some field holds the wrong sort of data. -/
  | shape
  | format (fault : Version.Fault) (text : String)
  | problems (ps : List Problem)

/-- Several messages as one: a count and a line for each. -/
def bulletList (messages : List String) : String :=
  let count :=
    match messages with
    | [_] => "1 error occurred:"
    | _ => toString messages.length ++ " errors occurred:"
  count ++ "\n\t" ++ "\n\t".intercalate (messages.map ("* " ++ ·)) ++ "\n\n"

def Fault.message (name : String) : Fault -> String
  | .shape => "parsing " ++ name ++ ": yaml"
  | .format fault text => name ++ ": " ++ fault.message text
  | .problems ps => "decoding " ++ name ++ ": " ++ bulletList (ps.map Problem.text)

/-- The unit of a document that is called `name` wherever it names no file itself. -/
def read (name : String) (d : Data) : Except Fault CompilationUnit := do
  if !fits (.record .document) d then throw .shape
  let format := textField d "format"
  match checkFormat format with
  | .error fault => throw (.format fault format)
  | .ok () =>
      let unit := (d.field? "unit").getD .null
      let given := textField unit "file"
      let file := if given.isEmpty then name else given
      let methods := ((unit.itemsOf "methods").filter fun x => !x.isNull).map (readMethod file)
      let problems := methods.flatMap (·.problems)
      if problems.isEmpty then
        return { span := .point file 1 1, file, package := textField unit "package",
                 methods := methods.map (·.value) }
      else throw (.problems problems)

end EarlyExit.Document
