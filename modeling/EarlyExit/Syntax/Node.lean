import EarlyExit.Syntax.Tree

/-!
# Nodes and places

Every part of a tree seen as a `Node`, with its children in the order they are
evaluated.  A child is reached through a named `Slot`, so a list of slots is an
address that stays valid as long as the tree above it does.  Everything that
looks at trees of any kind (searching, numbering, replacing) goes through
`slots`, `get?` and `set?`.
-/

namespace EarlyExit

inductive Node
  | unit (u : CompilationUnit)
  | method (m : Method)
  | param (p : Param)
  | stmt (s : Stmt)
  | arm (c : Case)
  | clause (c : Catch)
  | expr (e : Expr)
deriving Inhabited

/-- The place of a child under its parent. -/
inductive Slot
  | method (i : Nat) | param (i : Nat) | body | stmt (i : Nat)
  | value | test | onTrue | onFalse
  | init (i : Nat) | update (i : Nat) | iterable
  | selector | arm (i : Nat) | label (i : Nat)
  | resource (i : Nat) | clause (i : Nat) | cleanup | monitor | message
  | receiver | arg (i : Nat) | target | left | right | operand
  | array | position | dim (i : Nat) | element (i : Nat)
deriving DecidableEq, Repr, Inhabited

/-- The address of a node below another one. -/
abbrev Path := List Slot

namespace Node

def span : Node -> Span
  | unit u => u.span
  | method m => m.span
  | param p => p.span
  | stmt s => s.span
  | arm c => c.span
  | clause c => c.span
  | expr e => e.span

/-- The name of the node's kind, as messages and listings show it. -/
def typeName : Node -> String
  | unit _ => "CompilationUnit"
  | method _ => "MethodDeclaration"
  | param _ => "Parameter"
  | arm _ => "Case"
  | clause _ => "CatchClause"
  | stmt s =>
      match s with
      | .missing => "<nil>"
      | .block .. => "BlockStatement"
      | .expr .. => "ExpressionStatement"
      | .var .. => "VariableDeclaration"
      | .ret .. => "ReturnStatement"
      | .throw .. => "ThrowStatement"
      | .yield .. => "YieldStatement"
      | .branch .. => "IfStatement"
      | .forLoop .. => "ForStatement"
      | .forEach .. => "EnhancedForStatement"
      | .whileLoop .. => "WhileStatement"
      | .doWhile .. => "DoWhileStatement"
      | .switch .. => "SwitchStatement"
      | .tryCatch .. => "TryStatement"
      | .sync .. => "SynchronizedStatement"
      | .labeled .. => "LabeledStatement"
      | .breakTo .. => "BreakStatement"
      | .continueTo .. => "ContinueStatement"
      | .assert .. => "AssertStatement"
  | expr e =>
      match e with
      | .missing => "<nil>"
      | .ident .. => "Identifier"
      | .literal .. => "Literal"
      | .call .. => "MethodCall"
      | .field .. => "FieldAccess"
      | .assign .. => "Assignment"
      | .binary .. => "BinaryExpression"
      | .unary .. => "UnaryExpression"
      | .conditional .. => "ConditionalExpression"
      | .index .. => "ArrayAccess"
      | .newArray .. => "NewArray"
      | .newObject .. => "NewClass"
      | .lambda .. => "LambdaExpression"
      | .switch .. => "SwitchExpression"
      | .template .. => "StringTemplate"

/-- The kind's name with its package, as error messages give it. -/
def qualifiedTypeName (n : Node) : String :=
  if n.typeName == "<nil>" then "<nil>" else "*ast." ++ n.typeName

/-! ## Children -/

/-- The node in an expression slot, if the slot is filled. -/
def ofExpr? : Expr -> Option Node
  | .missing => none
  | e => some (.expr e)

def ofStmt? : Stmt -> Option Node
  | .missing => none
  | s => some (.stmt s)

def ofBlock (b : Block) : Node :=
  .stmt (.block b)

/-- The filled entries of a list slot, numbered by their place in the list. -/
def listed (slot : Nat -> Slot) (view : α -> Option Node) : Nat -> List α -> List (Slot × Node)
  | _, [] => []
  | i, a :: rest =>
      match view a with
      | some n => (slot i, n) :: listed slot view (i + 1) rest
      | none => listed slot view (i + 1) rest

def single (slot : Slot) (child : Option Node) : List (Slot × Node) :=
  match child with
  | some n => [(slot, n)]
  | none => []

def bodySlot (slot : Slot) : Body -> List (Slot × Node)
  | .value e => single slot (ofExpr? e)
  | .block b => [(slot, ofBlock b)]

def exprSlots : Expr -> List (Slot × Node)
  | .missing | .ident .. | .literal .. => []
  | .call _ receiver _ args _ =>
      single .receiver (ofExpr? receiver) ++ listed .arg ofExpr? 0 args
  | .field _ target _ _ => single .target (ofExpr? target)
  | .assign _ target _ value =>
      single .target (ofExpr? target) ++ single .value (ofExpr? value)
  | .binary _ left _ right => single .left (ofExpr? left) ++ single .right (ofExpr? right)
  | .unary _ _ operand _ => single .operand (ofExpr? operand)
  | .conditional _ test onTrue onFalse _ =>
      single .test (ofExpr? test) ++ single .onTrue (ofExpr? onTrue) ++
        single .onFalse (ofExpr? onFalse)
  | .index _ array position _ =>
      single .array (ofExpr? array) ++ single .position (ofExpr? position)
  | .newArray _ _ dims elements _ =>
      listed .dim ofExpr? 0 dims ++ listed .element ofExpr? 0 elements
  | .newObject _ _ args => listed .arg ofExpr? 0 args
  | .lambda _ params body => listed .param (some ∘ .param) 0 params ++ bodySlot .body body
  | .switch _ selector cases _ =>
      single .selector (ofExpr? selector) ++ listed .arm (some ∘ .arm) 0 cases
  | .template _ _ _ values => listed .element ofExpr? 0 values

def stmtSlots : Stmt -> List (Slot × Node)
  | .missing | .breakTo .. | .continueTo .. => []
  | .block b => listed .stmt ofStmt? 0 b.stmts
  | .expr _ e => single .value (ofExpr? e)
  | .var _ _ _ value | .ret _ value | .throw _ value | .yield _ value _ =>
      single .value (ofExpr? value)
  | .branch _ test onTrue onFalse =>
      single .test (ofExpr? test) ++ single .onTrue (ofStmt? onTrue) ++
        single .onFalse (ofStmt? onFalse)
  | .forLoop _ init test update body =>
      listed .init ofStmt? 0 init ++ single .test (ofExpr? test) ++
        single .body (ofStmt? body) ++ listed .update ofExpr? 0 update
  | .forEach _ _ _ iterable body =>
      single .iterable (ofExpr? iterable) ++ single .body (ofStmt? body)
  | .whileLoop _ test body => single .test (ofExpr? test) ++ single .body (ofStmt? body)
  | .doWhile _ body test => single .body (ofStmt? body) ++ single .test (ofExpr? test)
  | .switch _ selector cases =>
      single .selector (ofExpr? selector) ++ listed .arm (some ∘ .arm) 0 cases
  | .tryCatch _ resources body catches cleanup =>
      listed .resource ofStmt? 0 resources ++ [(.body, ofBlock body)] ++
        listed .clause (some ∘ .clause) 0 catches ++ single .cleanup (cleanup.map ofBlock)
  | .sync _ monitor body => single .monitor (ofExpr? monitor) ++ [(.body, ofBlock body)]
  | .labeled _ _ body => single .body (ofStmt? body)
  | .assert _ test message => single .test (ofExpr? test) ++ single .message (ofExpr? message)

/-- The filled slots of a node with their children, in evaluation order. -/
def slots : Node -> List (Slot × Node)
  | unit u => listed .method (some ∘ .method) 0 u.methods
  | method m => listed .param (some ∘ .param) 0 m.params ++ single .body (m.body.map ofBlock)
  | param _ => []
  | stmt s => stmtSlots s
  | arm c => listed .label ofExpr? 0 c.labels ++ listed .stmt ofStmt? 0 c.body
  | clause c => single (.param 0) (c.param.map .param) ++ [(.body, ofBlock c.body)]
  | expr e => exprSlots e

def children (n : Node) : List Node :=
  n.slots.map (·.2)

def get? (n : Node) (slot : Slot) : Option Node :=
  n.slots.lookup slot

/-! ## Sizes

A child is smaller than its parent, which is what lets functions recurse through
`slots` without a case for every kind of node.
-/

theorem sizeOf_span_pos (s : Span) : 0 < sizeOf s := by
  cases s
  simp only [Span.mk.sizeOf_spec]
  omega

theorem sizeOf_ofExpr? {e : Expr} {n : Node} (h : ofExpr? e = some n) :
    sizeOf n = 1 + sizeOf e := by
  cases e <;> simp_all [ofExpr?] <;> subst h <;> simp

theorem sizeOf_ofStmt? {s : Stmt} {n : Node} (h : ofStmt? s = some n) :
    sizeOf n = 1 + sizeOf s := by
  cases s <;> simp_all [ofStmt?] <;> subst h <;> simp

/-- Every child of a slot list is smaller than a bound. -/
def Below (l : List (Slot × Node)) (bound : Nat) : Prop :=
  ∀ x ∈ l, sizeOf x.2 < bound

theorem below_nil (bound : Nat) : Below [] bound := by
  simp [Below]

theorem below_append {l r : List (Slot × Node)} {bound : Nat} (hl : Below l bound)
    (hr : Below r bound) : Below (l ++ r) bound := by
  intro x hx
  rcases List.mem_append.1 hx with h | h
  · exact hl x h
  · exact hr x h

theorem below_single {slot : Slot} {child : Option Node} {bound : Nat}
    (h : ∀ n, child = some n -> sizeOf n < bound) : Below (single slot child) bound := by
  cases child <;> simp_all [Below, single]

theorem below_expr (slot : Slot) {e : Expr} {bound : Nat} (h : 1 + sizeOf e < bound) :
    Below (single slot (ofExpr? e)) bound :=
  below_single fun _ hn => sizeOf_ofExpr? hn ▸ h

theorem below_stmt (slot : Slot) {s : Stmt} {bound : Nat} (h : 1 + sizeOf s < bound) :
    Below (single slot (ofStmt? s)) bound :=
  below_single fun _ hn => sizeOf_ofStmt? hn ▸ h

theorem below_block (slot : Slot) {b : Block} {bound : Nat} (h : 2 + sizeOf b < bound) :
    Below [(slot, ofBlock b)] bound := by
  simp [Below, ofBlock]
  omega

theorem below_listed [SizeOf α] {slot : Nat -> Slot} {view : α -> Option Node}
    (hv : ∀ {a n}, view a = some n -> sizeOf n = 1 + sizeOf a) {bound : Nat} :
    {i : Nat} -> {l : List α} -> sizeOf l < bound -> Below (listed slot view i l) bound
  | _, [], _ => below_nil bound
  | i, a :: rest, h => by
      simp at h
      have hrest : Below (listed slot view (i + 1) rest) bound := below_listed hv (by omega)
      simp only [listed]
      split
      next n hn =>
        intro x hx
        rcases List.mem_cons.1 hx with rfl | hx
        · have := hv hn
          simp only
          omega
        · exact hrest x hx
      next => exact hrest

theorem below_exprs (slot : Nat -> Slot) {l : List Expr} {bound : Nat} (h : sizeOf l < bound) :
    Below (listed slot ofExpr? 0 l) bound :=
  below_listed sizeOf_ofExpr? h

theorem below_stmts (slot : Nat -> Slot) {l : List Stmt} {bound : Nat} (h : sizeOf l < bound) :
    Below (listed slot ofStmt? 0 l) bound :=
  below_listed sizeOf_ofStmt? h

theorem below_params (slot : Nat -> Slot) {l : List Param} {bound : Nat} (h : sizeOf l < bound) :
    Below (listed slot (some ∘ .param) 0 l) bound :=
  below_listed (fun h => by cases Option.some.inj h; simp) h

theorem below_arms (slot : Nat -> Slot) {l : List Case} {bound : Nat} (h : sizeOf l < bound) :
    Below (listed slot (some ∘ .arm) 0 l) bound :=
  below_listed (fun h => by cases Option.some.inj h; simp) h

theorem below_clauses (slot : Nat -> Slot) {l : List Catch} {bound : Nat} (h : sizeOf l < bound) :
    Below (listed slot (some ∘ .clause) 0 l) bound :=
  below_listed (fun h => by cases Option.some.inj h; simp) h

theorem below_methods (slot : Nat -> Slot) {l : List Method} {bound : Nat}
    (h : sizeOf l < bound) : Below (listed slot (some ∘ .method) 0 l) bound :=
  below_listed (fun h => by cases Option.some.inj h; simp) h

theorem below_body (slot : Slot) {b : Body} {bound : Nat} (h : 1 + sizeOf b < bound) :
    Below (bodySlot slot b) bound := by
  cases b with
  | value e =>
      simp at h
      exact below_expr slot (by omega)
  | block b =>
      simp at h
      exact below_block slot (by omega)

theorem below_optionBlock (slot : Slot) {b : Option Block} {bound : Nat}
    (h : 1 + sizeOf b < bound) : Below (single slot (b.map ofBlock)) bound := by
  cases b with
  | none => exact below_nil bound
  | some b =>
      simp at h
      exact below_block slot (by omega)

theorem below_exprSlots (e : Expr) : Below (exprSlots e) (1 + sizeOf e) := by
  cases e <;> simp only [exprSlots] <;>
    repeat' (first
      | apply below_append | apply below_expr | apply below_exprs | apply below_params
      | apply below_body | apply below_arms | apply below_nil)
  all_goals simp
  all_goals omega

theorem below_stmtSlots (s : Stmt) : Below (stmtSlots s) (1 + sizeOf s) := by
  cases s with
  | block b =>
      cases b
      apply below_stmts
      simp [Block.stmts]
      omega
  | _ =>
      simp only [stmtSlots]
      repeat' (first
        | apply below_append | apply below_expr | apply below_stmt | apply below_exprs
        | apply below_stmts | apply below_arms | apply below_clauses | apply below_block
        | apply below_optionBlock | apply below_nil)
      all_goals simp
      all_goals
        have := sizeOf_span_pos ‹Span›
        omega

theorem below_slots (n : Node) : Below n.slots (sizeOf n) := by
  cases n with
  | unit u =>
      cases u
      apply below_methods
      simp only [unit.sizeOf_spec, CompilationUnit.mk.sizeOf_spec]
      omega
  | method m =>
      cases m
      apply below_append
      · apply below_params
        simp only [method.sizeOf_spec, Method.mk.sizeOf_spec]
        omega
      · apply below_optionBlock
        simp only [method.sizeOf_spec, Method.mk.sizeOf_spec]
        omega
  | param p => exact below_nil _
  | stmt s =>
      have := below_stmtSlots s
      simpa [slots] using this
  | arm c =>
      cases c
      apply below_append
      · apply below_exprs
        simp [Case.labels]
        omega
      · apply below_stmts
        simp [Case.body]
        omega
  | clause c =>
      obtain ⟨span, param, body⟩ := c
      apply below_append
      · apply below_single
        intro n hn
        cases param <;> simp [Catch.param] at hn
        subst hn
        simp
        omega
      · apply below_block
        have := sizeOf_span_pos span
        simp [Catch.body]
        omega
  | expr e =>
      have := below_exprSlots e
      simpa [slots] using this

/-- A child is smaller than its parent. -/
theorem sizeOf_lt_of_mem_slots {n : Node} {x : Slot × Node} (h : x ∈ n.slots) :
    sizeOf x.2 < sizeOf n :=
  below_slots n x h

end Node

end EarlyExit
