import EarlyExit.Syntax.Printer

/-!
# Spans of lambda bodies

Documents have no room for the span of a lambda's block: it is read as the span of the
lambda.  A tree is seated if all its lambdas have their blocks there; seating a tree
changes nothing that is printed.
-/

namespace EarlyExit

mutual

/-- The expression with the block of every lambda at the span of the lambda. -/
def Expr.seated : Expr -> Expr
  | .missing => .missing
  | .ident s name type => .ident s name type
  | .literal s value raw => .literal s value raw
  | .call s receiver name args type => .call s receiver.seated name (seatedExprs args) type
  | .field s target name type => .field s target.seated name type
  | .assign s target op value => .assign s target.seated op value.seated
  | .binary s left op right => .binary s left.seated op right.seated
  | .unary s op e trailing => .unary s op e.seated trailing
  | .conditional s test onTrue onFalse type =>
      .conditional s test.seated onTrue.seated onFalse.seated type
  | .index s array position type => .index s array.seated position.seated type
  | .newArray s elemType dims elements listed =>
      .newArray s elemType (seatedExprs dims) (seatedExprs elements) listed
  | .newObject s className args => .newObject s className (seatedExprs args)
  | .lambda s params body => .lambda s params (body.seatedAt s)
  | .switch s selector cases type => .switch s selector.seated (seatedCases cases) type
  | .template s processor fragments values =>
      .template s processor fragments (seatedExprs values)

def seatedExprs : List Expr -> List Expr
  | [] => []
  | e :: rest => e.seated :: seatedExprs rest

def Body.seatedAt (s : Span) : Body -> Body
  | .value e => .value e.seated
  | .block (.mk _ stmts) => .block (.mk s (seatedStmts stmts))

def Stmt.seated : Stmt -> Stmt
  | .missing => .missing
  | .block (.mk s stmts) => .block (.mk s (seatedStmts stmts))
  | .expr s e => .expr s e.seated
  | .var s name type value => .var s name type value.seated
  | .ret s value => .ret s value.seated
  | .throw s value => .throw s value.seated
  | .yield s value implicit => .yield s value.seated implicit
  | .branch s test onTrue onFalse => .branch s test.seated onTrue.seated onFalse.seated
  | .forLoop s init test update body =>
      .forLoop s (seatedStmts init) test.seated (seatedExprs update) body.seated
  | .forEach s name type iterable body => .forEach s name type iterable.seated body.seated
  | .whileLoop s test body => .whileLoop s test.seated body.seated
  | .doWhile s body test => .doWhile s body.seated test.seated
  | .switch s selector cases => .switch s selector.seated (seatedCases cases)
  | .tryCatch s resources (.mk bs stmts) catches none =>
      .tryCatch s (seatedStmts resources) (.mk bs (seatedStmts stmts)) (seatedCatches catches) none
  | .tryCatch s resources (.mk bs stmts) catches (some (.mk fs rest)) =>
      .tryCatch s (seatedStmts resources) (.mk bs (seatedStmts stmts)) (seatedCatches catches)
        (some (.mk fs (seatedStmts rest)))
  | .sync s monitor (.mk bs stmts) => .sync s monitor.seated (.mk bs (seatedStmts stmts))
  | .labeled s label body => .labeled s label body.seated
  | .breakTo s label => .breakTo s label
  | .continueTo s label => .continueTo s label
  | .assert s test message => .assert s test.seated message.seated

def seatedStmts : List Stmt -> List Stmt
  | [] => []
  | s :: rest => s.seated :: seatedStmts rest

def Case.seated : Case -> Case
  | .mk s labels arrow body => .mk s (seatedExprs labels) arrow (seatedStmts body)

def seatedCases : List Case -> List Case
  | [] => []
  | c :: rest => c.seated :: seatedCases rest

def Catch.seated : Catch -> Catch
  | .mk s param (.mk bs stmts) => .mk s param (.mk bs (seatedStmts stmts))

def seatedCatches : List Catch -> List Catch
  | [] => []
  | c :: rest => c.seated :: seatedCatches rest

end

def Method.seated (m : Method) : Method :=
  { m with body := m.body.map fun b => .mk b.span (seatedStmts b.stmts) }

def CompilationUnit.seated (u : CompilationUnit) : CompilationUnit :=
  { u with methods := u.methods.map Method.seated }

@[simp] theorem Expr.isMissing_seated (e : Expr) : e.seated.isMissing = e.isMissing := by
  cases e <;> rfl

@[simp] theorem Stmt.isMissing_seated (s : Stmt) : s.seated.isMissing = s.isMissing := by
  cases s with
  | block b => cases b; rfl
  | sync _ _ b => cases b; rfl
  | tryCatch s resources b catches cleanup =>
      cases b
      cases cleanup with
      | none => rfl
      | some c => cases c; rfl
  | _ => rfl

theorem seatedExprs_eq (l : List Expr) : seatedExprs l = l.map Expr.seated := by
  induction l with
  | nil => rfl
  | cons e l ih => rw [seatedExprs, ih, List.map_cons]

theorem seatedStmts_eq (l : List Stmt) : seatedStmts l = l.map Stmt.seated := by
  induction l with
  | nil => rfl
  | cons s l ih => rw [seatedStmts, ih, List.map_cons]

theorem seatedCases_eq (l : List Case) : seatedCases l = l.map Case.seated := by
  induction l with
  | nil => rfl
  | cons c l ih => rw [seatedCases, ih, List.map_cons]

theorem seatedCatches_eq (l : List Catch) : seatedCatches l = l.map Catch.seated := by
  induction l with
  | nil => rfl
  | cons c l ih => rw [seatedCatches, ih, List.map_cons]

/-! ## Printing -/

namespace Printer

@[simp] theorem operand_seated (e : Expr) (suffixed : Bool) (text : String) :
    operand e.seated suffixed text = operand e suffixed text := by
  cases e <;> rfl

@[simp] theorem side_seated (op : Operator) (isRight : Bool) (e : Expr) (text : String) :
    side op isRight e.seated text = side op isRight e text := by
  cases e <;> rfl

@[simp] theorem declaration_seated (name type : String) (value : Expr) (text : String) :
    declaration name type value.seated text = declaration name type value text := by
  simp [declaration]

@[simp] theorem elsePart_seated (d : Nat) (before : String) (s : Stmt) (inside : Option String)
    (whole : Nat -> String) :
    elsePart d before s.seated inside whole = elsePart d before s inside whole := by
  cases s with
  | block b => cases b; rfl
  | sync _ _ b => cases b; rfl
  | tryCatch s resources b catches cleanup =>
      cases b
      cases cleanup with
      | none => rfl
      | some c => cases c; rfl
  | _ => rfl

theorem ruleText_several (d : Nat) (s t : Stmt) (rest : List Stmt) :
    ruleText d (s :: t :: rest) = none := by
  rw [ruleText]
  all_goals
    intro _ _ h
    cases h

theorem ruleLines_single (d : Nat) (s : Stmt) :
    ruleLines d [s] = (insideText d s).getD (stmtText d s) := by
  cases s with
  | block b => cases b; rfl
  | _ => simp [ruleLines, insideText, stmtsText]

theorem ruleLines_several (d : Nat) (s t : Stmt) (rest : List Stmt) :
    ruleLines d (s :: t :: rest) = stmtText d s ++ stmtsText d (t :: rest) := by
  rw [ruleLines]
  intro _ _ _ h
  cases h

mutual

theorem exprText_seated (d : Nat) : (e : Expr) -> exprText d e.seated = exprText d e
  | .missing | .ident .. | .literal .. => rfl
  | .call _ receiver _ args _ => by
      simp [Expr.seated, exprText, exprText_seated d receiver, exprTexts_seated d args]
  | .field _ target _ _ => by simp [Expr.seated, exprText, exprText_seated d target]
  | .assign _ target _ value => by
      simp [Expr.seated, exprText, exprText_seated d target, exprText_seated d value]
  | .binary _ left _ right => by
      simp [Expr.seated, exprText, exprText_seated d left, exprText_seated d right]
  | .unary _ _ e _ => by simp [Expr.seated, exprText, exprText_seated d e]
  | .conditional _ test onTrue onFalse _ => by
      simp [Expr.seated, exprText, exprText_seated d test, exprText_seated d onTrue,
        exprText_seated d onFalse]
  | .index _ array position _ => by
      simp [Expr.seated, exprText, exprText_seated d array, exprText_seated d position]
  | .newArray _ _ dims elements _ => by
      simp [Expr.seated, exprText, exprTexts_seated d dims, exprTexts_seated d elements]
  | .newObject _ _ args => by simp [Expr.seated, exprText, exprTexts_seated d args]
  | .lambda s _ body => by simp [Expr.seated, exprText, bodyText_seated d s body]
  | .switch _ selector cases _ => by
      simp [Expr.seated, exprText, exprText_seated d selector, casesText_seated (d + 1) cases]
  | .template _ _ _ values => by simp [Expr.seated, exprText, exprTexts_seated d values]

theorem exprTexts_seated (d : Nat) : (es : List Expr) ->
    exprTexts d (seatedExprs es) = exprTexts d es
  | [] => rfl
  | e :: rest => by
      simp [seatedExprs, exprTexts, exprText_seated d e, exprTexts_seated d rest]

theorem bodyText_seated (d : Nat) (s : Span) : (b : Body) -> bodyText d (b.seatedAt s) = bodyText d b
  | .value e => by
      have he := exprText_seated d e
      cases e <;> first | rfl | exact he
  | .block (.mk _ stmts) => by
      simp [Body.seatedAt, bodyText, stmtsText_seated (d + 1) stmts]

theorem stmtText_seated (d : Nat) : (s : Stmt) -> stmtText d s.seated = stmtText d s
  | .missing | .breakTo .. | .continueTo .. => rfl
  | .block (.mk _ stmts) => by simp [Stmt.seated, stmtText, stmtsText_seated (d + 1) stmts]
  | .expr _ e => by simp [Stmt.seated, stmtText, exprText_seated d e]
  | .var _ _ _ value => by simp [Stmt.seated, stmtText, exprText_seated d value]
  | .ret _ value => by simp [Stmt.seated, stmtText, exprText_seated d value]
  | .throw _ value => by simp [Stmt.seated, stmtText, exprText_seated d value]
  | .yield _ value _ => by simp [Stmt.seated, stmtText, exprText_seated d value]
  | .branch _ test onTrue onFalse => by
      have hwhole : (fun d => stmtText d onFalse.seated) = fun d => stmtText d onFalse :=
        funext fun d => stmtText_seated d onFalse
      simp [Stmt.seated, stmtText, exprText_seated d test, insideText_seated (d + 1) onTrue,
        stmtText_seated (d + 1) onTrue, insideText_seated (d + 1) onFalse, hwhole]
  | .forLoop _ init test update body => by
      simp [Stmt.seated, stmtText, headTexts_seated d init, exprText_seated d test,
        exprTexts_seated d update, insideText_seated (d + 1) body, stmtText_seated (d + 1) body]
  | .forEach _ _ _ iterable body => by
      simp [Stmt.seated, stmtText, exprText_seated d iterable, insideText_seated (d + 1) body,
        stmtText_seated (d + 1) body]
  | .whileLoop _ test body => by
      simp [Stmt.seated, stmtText, exprText_seated d test, insideText_seated (d + 1) body,
        stmtText_seated (d + 1) body]
  | .doWhile _ body test => by
      simp [Stmt.seated, stmtText, exprText_seated d test, insideText_seated (d + 1) body,
        stmtText_seated (d + 1) body]
  | .switch _ selector cases => by
      simp [Stmt.seated, stmtText, exprText_seated d selector, casesText_seated (d + 1) cases]
  | .tryCatch _ resources (.mk _ stmts) catches none => by
      have hresources : (seatedStmts resources).isEmpty = resources.isEmpty := by
        cases resources <;> rfl
      simp [Stmt.seated, stmtText, hresources, resourceTexts_seated d resources,
        stmtsText_seated (d + 1) stmts, catchesText_seated d _ catches]
  | .tryCatch _ resources (.mk _ stmts) catches (some (.mk _ rest)) => by
      have hresources : (seatedStmts resources).isEmpty = resources.isEmpty := by
        cases resources <;> rfl
      simp [Stmt.seated, stmtText, hresources, resourceTexts_seated d resources,
        stmtsText_seated (d + 1) stmts, catchesText_seated d _ catches,
        stmtsText_seated (d + 1) rest]
  | .sync _ monitor (.mk _ stmts) => by
      simp [Stmt.seated, stmtText, exprText_seated d monitor, stmtsText_seated (d + 1) stmts]
  | .labeled _ _ body => by simp [Stmt.seated, stmtText, stmtText_seated d body]
  | .assert _ test message => by
      simp [Stmt.seated, stmtText, exprText_seated d test, exprText_seated d message]

theorem stmtsText_seated (d : Nat) : (ss : List Stmt) ->
    stmtsText d (seatedStmts ss) = stmtsText d ss
  | [] => rfl
  | s :: rest => by
      simp [seatedStmts, stmtsText, stmtText_seated d s, stmtsText_seated d rest]

theorem insideText_seated (d : Nat) : (s : Stmt) -> insideText d s.seated = insideText d s
  | .block (.mk _ stmts) => by simp [Stmt.seated, insideText, stmtsText_seated d stmts]
  | .sync _ _ (.mk ..) | .tryCatch _ _ (.mk ..) _ none
  | .tryCatch _ _ (.mk ..) _ (some (.mk ..)) => rfl
  | .missing | .expr .. | .var .. | .ret .. | .throw .. | .yield .. | .branch .. | .forLoop ..
  | .forEach .. | .whileLoop .. | .doWhile .. | .switch .. | .labeled .. | .breakTo ..
  | .continueTo .. | .assert .. => rfl

theorem bareText_seated (d : Nat) : (s : Stmt) -> bareText d s.seated = bareText d s
  | .var _ _ _ value => by simp [Stmt.seated, bareText, exprText_seated d value]
  | .expr _ e => by simp [Stmt.seated, bareText, exprText_seated d e]
  | .block (.mk ..) | .sync _ _ (.mk ..) | .tryCatch _ _ (.mk ..) _ none
  | .tryCatch _ _ (.mk ..) _ (some (.mk ..)) => rfl
  | .missing | .ret .. | .throw .. | .yield .. | .branch .. | .forLoop ..
  | .forEach .. | .whileLoop .. | .doWhile .. | .switch .. | .labeled .. | .breakTo ..
  | .continueTo .. | .assert .. => rfl

theorem headTexts_seated (d : Nat) : (ss : List Stmt) ->
    headTexts d (seatedStmts ss) = headTexts d ss
  | [] => rfl
  | s :: rest => by
      simp [seatedStmts, headTexts, bareText_seated d s, stmtText_seated d s,
        headTexts_seated d rest]

theorem resourceTexts_seated (d : Nat) : (ss : List Stmt) ->
    resourceTexts d (seatedStmts ss) = resourceTexts d ss
  | [] => rfl
  | s :: rest => by
      simp [seatedStmts, resourceTexts, bareText_seated d s, resourceTexts_seated d rest]

theorem ruleText_seated (d : Nat) : (ss : List Stmt) ->
    ruleText d (seatedStmts ss) = ruleText d ss
  | [] => rfl
  | [.yield _ value true] => by
      simp [seatedStmts, Stmt.seated, ruleText, exprText_seated d value]
  | [.expr _ e] => by simp [seatedStmts, Stmt.seated, ruleText, exprText_seated d e]
  | [.throw _ value] => by simp [seatedStmts, Stmt.seated, ruleText, exprText_seated d value]
  | [.block (.mk ..)] | [.sync _ _ (.mk ..)] | [.tryCatch _ _ (.mk ..) _ none]
  | [.tryCatch _ _ (.mk ..) _ (some (.mk ..))] => rfl
  | [.missing] | [.var ..] | [.ret ..] | [.yield _ _ false] | [.branch ..] | [.forLoop ..]
  | [.forEach ..] | [.whileLoop ..] | [.doWhile ..] | [.switch ..] | [.labeled ..]
  | [.breakTo ..] | [.continueTo ..] | [.assert ..] => rfl
  | s :: t :: rest => by
      rw [seatedStmts, seatedStmts, ruleText_several, ruleText_several]

theorem ruleLines_seated (d : Nat) : (ss : List Stmt) ->
    ruleLines d (seatedStmts ss) = ruleLines d ss
  | [] => rfl
  | [s] => by
      rw [seatedStmts, seatedStmts, ruleLines_single, ruleLines_single, insideText_seated d s,
        stmtText_seated d s]
  | s :: t :: rest => by
      rw [seatedStmts, seatedStmts, ruleLines_several, ruleLines_several, stmtText_seated d s,
        ← seatedStmts, stmtsText_seated d (t :: rest)]

theorem casesText_seated (d : Nat) : (cs : List Case) ->
    casesText d (seatedCases cs) = casesText d cs
  | [] => rfl
  | .mk _ labels arrow body :: rest => by
      have hlabels : (seatedExprs labels).isEmpty = labels.isEmpty := by cases labels <;> rfl
      simp [seatedCases, Case.seated, casesText, caseText, hlabels, exprTexts_seated d labels,
        ruleText_seated d body, ruleLines_seated (d + 1) body, stmtsText_seated (d + 1) body,
        casesText_seated d rest]

theorem catchesText_seated (d : Nat) (before : String) : (cs : List Catch) ->
    catchesText d before (seatedCatches cs) = catchesText d before cs
  | [] => rfl
  | .mk _ param (.mk _ stmts) :: rest => by
      simp [seatedCatches, Catch.seated, catchesText, catchText, stmtsText_seated (d + 1) stmts,
        catchesText_seated d _ rest]

end

theorem unitText_seated (u : CompilationUnit) : unitText u.seated = unitText u := by
  have hmethod : ∀ m : Method, methodText m.seated = methodText m := by
    intro m
    cases hbody : m.body with
    | none => simp [methodText, Method.seated, hbody]
    | some b =>
        obtain ⟨s, stmts⟩ := b
        simp [methodText, Method.seated, hbody, Block.stmts, stmtsText_seated 1 stmts]
  simp [unitText, CompilationUnit.seated, Function.comp_def, hmethod]

end Printer

/-- Seating changes nothing that is printed. -/
theorem Node.print_seated (u : CompilationUnit) :
    (Node.unit u.seated).print = (Node.unit u).print := by
  simp only [Node.print, Printer.unitText_seated]

end EarlyExit
