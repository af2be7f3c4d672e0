import EarlyExit.Decimal.Notation
import EarlyExit.Syntax.Node
import EarlyExit.Text.Blank
import EarlyExit.Text.Quoted

/-!
# Source text of trees

Trees as source text with two blanks of indentation per level.  Expressions give
the text that stands inside a line; statements and declarations give whole lines,
each with its line end.  Empty operands print as nothing, so that an incomplete
tree can be shown too.
-/

namespace EarlyExit

namespace Printer

def indent (d : Nat) : String :=
  String.ofList (List.replicate (2 * d) ' ')

def line (d : Nat) (text : String) : String :=
  indent d ++ text ++ "\n"

def withoutLineEnds (s : String) : String :=
  Text.trimRight (· == '\n') s

/-- Lines whose first line continues another line. -/
def continued (s : String) : String :=
  Text.trimLeft (· == ' ') (withoutLineEnds s)

def commaList (parts : List String) : String :=
  ", ".intercalate parts

def parens (s : String) : String :=
  "(" ++ s ++ ")"

/-- A header, statements between braces, and what follows the closing brace. -/
def framed (d : Nat) (header inside trailer : String) : String :=
  line d (header ++ "\x7b") ++ inside ++ line d ("\x7d" ++ trailer)

/-- A header over a single statement, and what follows on a line of its own. -/
def loose (d : Nat) (header statement trailer : String) : String :=
  line d (Text.trimRight (· == ' ') header) ++ statement ++
    (if trailer.isEmpty then "" else line d (Text.trim trailer))

/-- A header and its body, which is framed when it is a block. -/
def bodied (d : Nat) (header : String) (inside : Option String) (whole : Unit -> String)
    (trailer : String) : String :=
  match inside with
  | some text => framed d header text trailer
  | none => loose d header (whole ()) trailer

/-- Add a word such as `else` to what was printed: behind a closing brace, or on a new line. -/
def joined (d : Nat) (before text : String) : String :=
  let trimmed := withoutLineEnds before
  if trimmed.endsWith "\x7d" then trimmed ++ " " ++ text ++ "\n" else before ++ line d text

/-- The `else` part after what was printed; `whole` prints the branch at a given depth. -/
def elsePart (d : Nat) (before : String) (branch : Stmt) (inside : Option String)
    (whole : Nat -> String) : String :=
  match branch with
  | .missing => before
  | .branch .. => joined d before ("else " ++ continued (whole d))
  | _ =>
      match inside with
      | some text => joined d before "else \x7b" ++ text ++ line d "\x7d"
      | none => joined d before "else" ++ whole (d + 1)

def orVar (type : String) : String :=
  if type.isEmpty then "var" else type

def declaration (name type : String) (value : Expr) (valueText : String) : String :=
  if value.isMissing then orVar type ++ " " ++ name
  else orVar type ++ " " ++ name ++ " = " ++ valueText

def paramText (p : Param) : String :=
  if p.type.isEmpty then p.name else p.type ++ " " ++ p.name

def paramList (ps : List Param) : String :=
  commaList (ps.map paramText)

def literalText (value : Literal) (raw : String) : String :=
  if !raw.isEmpty then raw
  else
    match value with
    | .int i => toString i.toInt
    | .float x => Decimal.text x
    | .str s => Text.quote s
    | .bool b => if b then "true" else "false"
    | .null => "null"

/-- Compound operands stand in parentheses; a unary one only in front of a suffix. -/
def operand (e : Expr) (suffixed : Bool) (text : String) : String :=
  match e with
  | .binary .. | .conditional .. | .assign .. | .lambda .. => parens text
  | .unary .. => if suffixed then parens text else text
  | _ => text

/-- A side of a binary operator stands in parentheses when it would be regrouped. -/
def side (op : Operator) (isRight : Bool) (e : Expr) (text : String) : String :=
  match e with
  | .binary _ _ inner _ =>
      if inner.precedence < op.precedence || (isRight && inner.precedence == op.precedence) then
        parens text
      else text
  | .conditional .. | .assign .. | .lambda .. => parens text
  | _ => text

/-- Fragments with the values between them. -/
def interleave : List String -> List String -> String
  | [], _ => ""
  | f :: fs, [] => f ++ interleave fs []
  | f :: fs, v :: vs => f ++ "\\\x7b" ++ v ++ "\x7d" ++ interleave fs vs

def jump (word label : String) : String :=
  if label.isEmpty then word ++ ";" else word ++ " " ++ label ++ ";"

/-- A statement in the head of a `for` has no semicolon of its own. -/
def inHead (lines : String) : String :=
  let text := Text.trim lines
  if text.endsWith ";" then (text.dropEnd 1).toString else text

mutual

def exprText (d : Nat) : Expr -> String
  | .missing => ""
  | .ident _ name _ => name
  | .literal _ value raw => literalText value raw
  | .call _ receiver name args _ =>
      let call := name ++ parens (commaList (exprTexts d args))
      if receiver.isMissing then call
      else operand receiver true (exprText d receiver) ++ "." ++ call
  | .field _ target name _ => operand target true (exprText d target) ++ "." ++ name
  | .assign _ target op value =>
      exprText d target ++ " " ++ op.text ++ " " ++ exprText d value
  | .binary _ left op right =>
      side op false left (exprText d left) ++ " " ++ op.text ++ " " ++
        side op true right (exprText d right)
  | .unary _ op e trailing =>
      if trailing then operand e true (exprText d e) ++ op.text
      else op.text ++ operand e false (exprText d e)
  | .conditional _ test onTrue onFalse _ =>
      operand test false (exprText d test) ++ " ? " ++
        operand onTrue false (exprText d onTrue) ++ " : " ++
        operand onFalse false (exprText d onFalse)
  | .index _ array position _ =>
      operand array true (exprText d array) ++ "[" ++ exprText d position ++ "]"
  | .newArray _ elemType dims elements isListed =>
      if isListed then
        "new " ++ elemType ++ "[]\x7b" ++ commaList (exprTexts d elements) ++ "\x7d"
      else
        "new " ++ elemType ++
          String.join ((exprTexts d dims).map fun dim => "[" ++ dim ++ "]")
  | .newObject _ className args =>
      "new " ++ className ++ parens (commaList (exprTexts d args))
  | .lambda _ params body => parens (paramList params) ++ " -> " ++ bodyText d body
  | .switch _ selector cases _ =>
      "switch (" ++ exprText d selector ++ ") \x7b\n" ++
        withoutLineEnds (casesText (d + 1) cases) ++ "\n" ++ indent d ++ "\x7d"
  | .template _ processor fragments values =>
      (if processor.isEmpty then "STR" else processor) ++ ".\"" ++
        interleave fragments (exprTexts d values) ++ "\""

def exprTexts (d : Nat) : List Expr -> List String
  | [] => []
  | e :: rest => exprText d e :: exprTexts d rest

def bodyText (d : Nat) : Body -> String
  | .value .missing => "\x7b\x7d"
  | .value e => exprText d e
  | .block (.mk _ stmts) => continued (framed d "" (stmtsText (d + 1) stmts) "")

def stmtText (d : Nat) : Stmt -> String
  | .missing => ""
  | .block (.mk _ stmts) => framed d "" (stmtsText (d + 1) stmts) ""
  | .expr _ e => line d (exprText d e ++ ";")
  | .var _ name type value => line d (declaration name type value (exprText d value) ++ ";")
  | .ret _ value =>
      if value.isMissing then line d "return;"
      else line d ("return " ++ exprText d value ++ ";")
  | .throw _ value => line d ("throw " ++ exprText d value ++ ";")
  | .yield _ value _ => line d ("yield " ++ exprText d value ++ ";")
  | .branch _ test onTrue onFalse =>
      elsePart d
        (bodied d ("if (" ++ exprText d test ++ ") ") (insideText (d + 1) onTrue)
          (fun _ => stmtText (d + 1) onTrue) "")
        onFalse (insideText (d + 1) onFalse) (fun d => stmtText d onFalse)
  | .forLoop _ init test update body =>
      bodied d
        ("for (" ++ commaList (headTexts d init) ++ "; " ++ exprText d test ++ "; " ++
          commaList (exprTexts d update) ++ ") ")
        (insideText (d + 1) body) (fun _ => stmtText (d + 1) body) ""
  | .forEach _ name type iterable body =>
      bodied d ("for (" ++ orVar type ++ " " ++ name ++ " : " ++ exprText d iterable ++ ") ")
        (insideText (d + 1) body) (fun _ => stmtText (d + 1) body) ""
  | .whileLoop _ test body =>
      bodied d ("while (" ++ exprText d test ++ ") ")
        (insideText (d + 1) body) (fun _ => stmtText (d + 1) body) ""
  | .doWhile _ body test =>
      bodied d "do " (insideText (d + 1) body) (fun _ => stmtText (d + 1) body)
        (" while (" ++ exprText d test ++ ");")
  | .switch _ selector cases =>
      framed d ("switch (" ++ exprText d selector ++ ") ") (casesText (d + 1) cases) ""
  | .tryCatch _ resources (.mk _ stmts) catches cleanup =>
      let header :=
        if resources.isEmpty then "try "
        else "try (" ++ "; ".intercalate (resourceTexts d resources) ++ ") "
      let before := catchesText d (framed d header (stmtsText (d + 1) stmts) "") catches
      match cleanup with
      | none => before
      | some (.mk _ rest) =>
          joined d before "finally \x7b" ++ stmtsText (d + 1) rest ++ line d "\x7d"
  | .sync _ monitor (.mk _ stmts) =>
      framed d ("synchronized (" ++ exprText d monitor ++ ") ") (stmtsText (d + 1) stmts) ""
  | .labeled _ label body => line d (label ++ ":") ++ stmtText d body
  | .breakTo _ label => line d (jump "break" label)
  | .continueTo _ label => line d (jump "continue" label)
  | .assert _ test message =>
      if message.isMissing then line d ("assert " ++ exprText d test ++ ";")
      else line d ("assert " ++ exprText d test ++ " : " ++ exprText d message ++ ";")

def stmtsText (d : Nat) : List Stmt -> String
  | [] => ""
  | s :: rest => stmtText d s ++ stmtsText d rest

/-- The lines inside a block; nothing for any other statement. -/
def insideText (d : Nat) : Stmt -> Option String
  | .block (.mk _ stmts) => some (stmtsText d stmts)
  | _ => none

/-- A declaration or an expression without its semicolon; nothing for any other statement. -/
def bareText (d : Nat) : Stmt -> Option String
  | .var _ name type value => some (declaration name type value (exprText d value))
  | .expr _ e => some (exprText d e)
  | _ => none

def headTexts (d : Nat) : List Stmt -> List String
  | [] => []
  | s :: rest =>
      (match bareText d s with
        | some text => text
        | none => inHead (stmtText d s)) :: headTexts d rest

def resourceTexts (d : Nat) : List Stmt -> List String
  | [] => []
  | s :: rest => (bareText d s).getD "" :: resourceTexts d rest

/-- The body of a rule that fits on the line of its arrow. -/
def ruleText (d : Nat) : List Stmt -> Option String
  | [.yield _ value true] => some (exprText d value)
  | [.expr _ e] => some (exprText d e)
  | [.throw _ value] => some ("throw " ++ exprText d value)
  | _ => none

/-- The lines of a rule's body; a single block is not framed twice. -/
def ruleLines (d : Nat) : List Stmt -> String
  | [] => ""
  | [.block (.mk _ stmts)] => stmtsText d stmts
  | s :: rest => stmtText d s ++ stmtsText d rest

def caseText (d : Nat) : Case -> String
  | .mk _ labels arrow body =>
      let head :=
        if labels.isEmpty then "default" else "case " ++ commaList (exprTexts d labels)
      if arrow then
        match ruleText d body with
        | some text => line d (head ++ " -> " ++ text ++ ";")
        | none => framed d (head ++ " -> ") (ruleLines (d + 1) body) ""
      else line d (head ++ ":") ++ stmtsText (d + 1) body

def casesText (d : Nat) : List Case -> String
  | [] => ""
  | c :: rest => caseText d c ++ casesText d rest

/-- A catch clause joined to what was printed before it. -/
def catchText (d : Nat) (before : String) : Catch -> String
  | .mk _ param (.mk _ stmts) =>
      joined d before ("catch (" ++ (param.map paramText).getD "" ++ ") \x7b") ++
        stmtsText (d + 1) stmts ++ line d "\x7d"

def catchesText (d : Nat) (before : String) : List Catch -> String
  | [] => before
  | c :: rest => catchesText d (catchText d before c) rest

end

def methodText (m : Method) : String :=
  framed 0
    ("static " ++ (if m.returns.isEmpty then "void" else m.returns) ++ " " ++ m.name ++
      parens (paramList m.params) ++ " ")
    (stmtsText 1 (m.body.map Block.stmts |>.getD [])) ""

def unitText (u : CompilationUnit) : String :=
  (if u.package.isEmpty then "" else line 0 ("package " ++ u.package ++ ";") ++ line 0 "") ++
    (line 0 "").intercalate (u.methods.map methodText)

end Printer

/-- The source text of a node.  A parameter alone prints as nothing. -/
def Node.print : Node -> String
  | .unit u => Printer.withoutLineEnds (Printer.unitText u)
  | .method m => Printer.withoutLineEnds (Printer.methodText m)
  | .param _ => ""
  | .stmt .missing | .expr .missing => "<nil>"
  | .stmt s => Printer.withoutLineEnds (Printer.stmtText 0 s)
  | .arm c => Printer.withoutLineEnds (Printer.caseText 0 c)
  | .clause c => Printer.withoutLineEnds (Printer.catchText 0 "" c)
  | .expr e => Printer.exprText 0 e

/-- The text of a node in running text: its source, and a parameter with its type. -/
def Node.text : Node -> String
  | .param p => Printer.paramText p
  | n => n.print

end EarlyExit
