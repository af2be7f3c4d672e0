import EarlyExit.Proofs.Document.Readings
import EarlyExit.Proofs.Tree.Swap

/-!
# Trees that documents can hold

A tree can be stored if every node stands at a point of the file, no place that its kind
needs is empty, and nothing else in it gets lost in a document.
-/

namespace EarlyExit.Document

open Data Node

/-! ## Storable nodes -/

/-- Nothing that an expression needs, apart from its span, is missing or gets lost. -/
def keepsExpr : Expr -> Prop
  | .missing => False
  | .ident .. => True
  | .literal _ value _ => ∀ x, value ≠ .float x
  | .call _ _ _ args _ => ∀ a ∈ args, a.isMissing = false
  | .field _ target _ _ => target.isMissing = false
  | .assign _ target op value =>
      target.isMissing = false ∧ value.isMissing = false ∧ assignOperator op.text = op
  | .binary _ left op right =>
      left.isMissing = false ∧ right.isMissing = false ∧ Operator.ofText op.text = op
  | .unary _ op e _ => e.isMissing = false ∧ Operator.ofText op.text = op
  | .conditional _ test onTrue onFalse _ =>
      test.isMissing = false ∧ onTrue.isMissing = false ∧ onFalse.isMissing = false
  | .index _ array position _ => array.isMissing = false ∧ position.isMissing = false
  | .newArray _ _ dims elements _ =>
      (∀ e ∈ dims, e.isMissing = false) ∧ ∀ e ∈ elements, e.isMissing = false
  | .newObject _ _ args => ∀ a ∈ args, a.isMissing = false
  | .lambda _ _ (.value e) => e.isMissing = false
  | .lambda _ _ (.block _) => True
  | .switch _ selector _ _ => selector.isMissing = false
  | .template _ _ fragments values =>
      fragments.length = values.length + 1 ∧ ∀ e ∈ values, e.isMissing = false

/-- The same of a statement.  Some blocks have no span of their own in a document. -/
def keepsStmt : Stmt -> Prop
  | .missing => False
  | .block b => ∀ s ∈ b.stmts, s.isMissing = false
  | .expr _ e | .throw _ e | .yield _ e _ => e.isMissing = false
  | .var .. | .ret .. | .breakTo .. | .continueTo .. => True
  | .branch _ test onTrue _ => test.isMissing = false ∧ onTrue.isMissing = false
  | .forLoop _ init _ update body =>
      (∀ s ∈ init, s.isMissing = false) ∧ (∀ e ∈ update, e.isMissing = false) ∧
        body.isMissing = false
  | .forEach _ _ _ e body | .whileLoop _ e body | .doWhile _ body e =>
      e.isMissing = false ∧ body.isMissing = false
  | .switch _ selector _ => selector.isMissing = false
  | .tryCatch s resources body _ _ => (∀ r ∈ resources, r.isMissing = false) ∧ body.span = s
  | .sync s monitor body => monitor.isMissing = false ∧ body.span = s
  | .labeled _ _ body => body.isMissing = false
  | .assert _ test _ => test.isMissing = false

/-- A node that a document of a file can hold. -/
def Storable (file : String) : Node -> Prop
  | .unit u => u.span = .point file 1 1 ∧ u.file = file ∧ file ≠ ""
  | .method m => Placed file m.span ∧ m.name ≠ "" ∧ ∃ stmts, m.body = some (.mk m.span stmts)
  | .param p => p.span = .nowhere
  | .arm c => Placed file c.span ∧ (∀ e ∈ c.labels, e.isMissing = false) ∧
      ∀ s ∈ c.body, s.isMissing = false
  | .clause c => Placed file c.span ∧ c.body.span = c.span
  | .expr e => Placed file e.span ∧ keepsExpr e
  | .stmt s => Placed file s.span ∧ keepsStmt s

end EarlyExit.Document
