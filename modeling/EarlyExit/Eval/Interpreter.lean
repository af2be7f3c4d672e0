import EarlyExit.Container.Registry
import EarlyExit.Eval.Operation

/-!
# The interpreter

Programs run by evaluating expressions and executing statements with a bounded
number of steps.  One step of either may evaluate and execute what is below it
through an `Inner` interpreter with less fuel; `eval` and `exec` tie the knot.

With `native` set, a call of the sentinel on a container is run directly: a success
gives its value, an alternate leaves the innermost method, lambda or arm of a switch
expression with the container, or is thrown where the call is the value of a throw
statement.
-/

namespace EarlyExit.Eval

abbrev HostFunction := List Value -> Run Value

structure Machine where
  unit : CompilationUnit
  registry : Registry := .standard
  /-- Called by name, or as `Class.name`. -/
  hosts : String -> Option HostFunction := fun _ => none
  native : Bool := false
  sentinel : String := "unwrap"
  assertions : Bool := false
  /-- How many calls may be under way at once. -/
  maxDepth : Nat := 256

structure Frame where
  scope : Nat

/-- The interpreter for the parts of a construct. -/
structure Inner where
  fuel : Nat
  eval : Frame -> Expr -> Run Value
  exec : Frame -> Stmt -> Run Completion

namespace Inner

variable (r : Inner)

def evalAll (f : Frame) : List Expr -> Run (List Value)
  | [] => return []
  | e :: rest => do
      let v ← r.eval f e
      let vs ← evalAll f rest
      return v :: vs

def test (f : Frame) (e : Expr) : Run Bool := do
  truth (← r.eval f e)

/-- Statements in order, up to the first that does not complete normally. -/
def execAll (f : Frame) : List Stmt -> Run Completion
  | [] => return .normal
  | s :: rest => do
      match ← r.exec f s with
      | .normal => execAll f rest
      | c => return c

/-- Statements in a scope of their own. -/
def execBlock (f : Frame) (b : Block) : Run Completion := do
  let scope ← Run.push (some f.scope)
  r.execAll { scope } b.stmts

end Inner

/-! ## Calls -/

/-- Run a call, which counts as under way until it ends in any way. -/
def counted (m : Machine) (call : Run Value) : Run Value := do
  try
    modify Store.enter
    if m.maxDepth < (← get).depth then
      Run.raise "StackOverflowError" "call depth exceeded"
    call
  finally
    modify Store.leave

/-- Give an early exit out of a computation as its value. -/
def catchExit (x : Run Value) : Run Value :=
  tryCatch x fun stop =>
    match stop with
    | .exit container => return container
    | stop => throw stop

def bodyValue (name : String) : Completion -> Run Value
  | .normal => return .null
  | .returned v => return v
  | _ => Run.fail (.escapesBody name)

def bindParams (scope : Nat) (ps : List Param) (vs : List Value) : Run Unit :=
  (ps.zip vs).forM fun x => Run.define scope x.1.name x.2

def invoke (m : Machine) (r : Inner) (callee : Method) (args : List Value) : Run Value := do
  if args.length ≠ callee.params.length then
    Run.fail (.methodArity callee.span callee.name callee.params.length args.length)
  counted m do
    let scope ← Run.push none
    bindParams scope callee.params args
    catchExit do
      bodyValue callee.name (← r.execBlock { scope } (callee.body.getD default))

def apply (m : Machine) (r : Inner) (params : List Param) (body : Body) (outer : Nat)
    (args : List Value) : Run Value := do
  if args.length ≠ params.length then
    Run.fail (.lambdaArity params.length args.length)
  counted m do
    let scope ← Run.push (some outer)
    bindParams scope params args
    match body with
    | .value .missing => Run.fail .emptyLambda
    | .value e => catchExit (r.eval { scope } e)
    | .block b => catchExit do bodyValue "lambda" (← r.execBlock { scope } b)

/-- Run a host function and log the call. -/
def callHost (name : String) (fn : HostFunction) (args : List Value) : Run Value := do
  let texts ← Run.texts args
  modify fun st =>
    { st with calls := st.calls.push (name ++ "(" ++ ", ".intercalate texts ++ ")") }
  fn args

/-- A call without a receiver: a method of the unit, else a host function. -/
def callPlain (m : Machine) (r : Inner) (f : Frame) (span : Span) (name : String)
    (args : List Expr) : Run Value := do
  let vs ← r.evalAll f args
  match m.unit.method? name with
  | some callee => invoke m r callee vs
  | none =>
      match m.hosts name with
      | some fn => callHost name fn vs
      | none => Run.fail (.undefinedMethod span name)

/-- A call on a class: a factory of a container kind, else a host function. -/
def callStatic (m : Machine) (r : Inner) (f : Frame) (span : Span) (className name : String)
    (args : List Expr) : Run Value := do
  let vs ← r.evalAll f args
  match m.registry.byName? className with
  | some k =>
      if name = k.alternateFactory then return .alternate k (vs.headD .null)
      else if name = k.successFactory then return .success k (vs.headD .null)
      else Run.fail (.noFactory span name className)
  | none =>
      let full := className ++ "." ++ name
      match m.hosts full with
      | some fn => callHost full fn vs
      | none => Run.fail (.undefined span full)

def callMember (m : Machine) (r : Inner) (f : Frame) (span : Span) (receiver : Value)
    (name : String) (args : List Expr) : Run Value := do
  match receiver, args with
  | .container k alternate held, [] =>
      if name = m.sentinel then
        if !m.native then Run.fail (.unexpanded span name)
        if alternate then throw (.exit (.alternate k held))
        return held
      containerMember k alternate held name []
  | receiver, args =>
      let vs ← r.evalAll f args
      let noMember : Run Value := do Run.fail (.noMember span name (← Run.text receiver))
      match receiver with
      | .null => Run.raise "NullPointerException" (name ++ " on null")
      | .container k alternate held => containerMember k alternate held name vs
      | .closure _ params body scope => apply m r params body scope vs
      | .str s => stringMember s name vs
      | .object c fields =>
          match objectMember? c fields name vs with
          | some v => return v
          | none => noMember
      | _ => noMember

def call (m : Machine) (r : Inner) (f : Frame) (span : Span) (receiver : Expr) (name : String)
    (args : List Expr) : Run Value := do
  match receiver with
  | .missing => callPlain m r f span name args
  | .ident _ className _ =>
      match (← get).get? f.scope className with
      | some v => callMember m r f span v name args
      | none => callStatic m r f span className name args
  | receiver => callMember m r f span (← r.eval f receiver) name args

/-! ## Assignments -/

def lookup (f : Frame) (span : Span) (name : String) : Run Value := do
  match (← get).get? f.scope name with
  | some v => return v
  | none => Run.fail (.undefined span name)

def rebind (f : Frame) (span : Span) (name : String) (v : Value) : Run Unit := do
  match (← get).find? f.scope name with
  | some (scope, _) => Run.define scope name v
  | none => Run.fail (.undefined span name)

/-- The value an assignment stores: a compound one applies its operator first. -/
def combine (op : Operator) (old v : Value) : Run Value :=
  match op.applied? with
  | some applied => binary applied old v
  | none => return v

/-- A compound assignment reads its target before it evaluates its value. -/
def assign (r : Inner) (f : Frame) (span : Span) (target : Expr) (op : Operator)
    (value : Expr) : Run Value := do
  match target with
  | .ident s name _ =>
      let old ← if op.isCompound then lookup f s name else pure .null
      let v ← combine op old (← r.eval f value)
      rebind f s name v
      return v
  | .index _ array position _ =>
      let a ← r.eval f array
      let i ← r.eval f position
      let old ← if op.isCompound then do
          let (ref, n) ← element a i
          readElement ref n
        else pure .null
      let v ← combine op old (← r.eval f value)
      let (ref, n) ← element a i
      writeElement ref n v
      return v
  | target => Run.fail (.cannotAssign span (Node.expr target).qualifiedTypeName)

/-- Increment or decrement a variable or an element. -/
def step (r : Inner) (f : Frame) (span : Span) (delta : Int64) (operand : Expr)
    (trailing : Bool) : Run Value := do
  match operand with
  | .ident s name _ =>
      let old ← lookup f s name
      let new ← binary .add old (.int delta)
      rebind f s name new
      return if trailing then old else new
  | .index _ array position _ =>
      let a ← r.eval f array
      let i ← r.eval f position
      let (ref, n) ← element a i
      let old ← readElement ref n
      let new ← binary .add old (.int delta)
      writeElement ref n new
      return if trailing then old else new
  | operand => Run.fail (.cannotStep span (Node.expr operand).qualifiedTypeName)

/-! ## Switches -/

/-- Whether one of the labels of an arm equals the selector; labels are evaluated in order. -/
def matchesLabel (r : Inner) (f : Frame) (sel : Value) : List Expr -> Run Bool
  | [] => return false
  | l :: rest => do
      if sel.equal true (← r.eval f l) then return true
      matchesLabel r f sel rest

/-- The arms from the selected one on; the default arm is taken when no label fits. -/
def select (r : Inner) (f : Frame) (sel : Value) (fallback : List Case) :
    List Case -> Run (List Case)
  | [] => return fallback
  | c :: rest =>
      if c.isDefault then select r f sel (c :: rest) rest
      else do
        if ← matchesLabel r f sel c.labels then return c :: rest
        select r f sel fallback rest

/-- The arms of a switch statement, falling through. -/
def runArms (r : Inner) (f : Frame) : List Case -> Run Completion
  | [] => return .normal
  | c :: rest => do
      match ← r.execAll f c.body with
      | .normal => if c.arrow then return .normal else runArms r f rest
      | .broke "" => return .normal
      | other => return other

def yieldArms (r : Inner) (f : Frame) (span : Span) : List Case -> Run Value
  | [] => Run.fail (.switchWithoutValue span)
  | c :: rest => do
      match ← r.execAll f c.body with
      | .yielded v => return v
      | .normal => if c.arrow then Run.fail (.ruleWithoutValue c.span) else yieldArms r f span rest
      | _ => Run.fail (.escapesSwitch c.span)

def switchExpr (r : Inner) (f : Frame) (span : Span) (selector : Expr) (cases : List Case) :
    Run Value := do
  let sel ← r.eval f selector
  match ← select r f sel [] cases with
  | [] => Run.raise "MatchException" (← Run.text sel)
  | arms =>
      let scope ← Run.push (some f.scope)
      catchExit (yieldArms r { scope } span arms)

def switchStmt (r : Inner) (f : Frame) (selector : Expr) (cases : List Case) :
    Run Completion := do
  let sel ← r.eval f selector
  let arms ← select r f sel [] cases
  if arms.isEmpty then return .normal
  let scope ← Run.push (some f.scope)
  runArms r { scope } arms

/-! ## Expressions -/

def template (r : Inner) (f : Frame) (done : String) : List String -> List Expr -> Run Value
  | [], _ => return .str done
  | t :: ts, [] => template r f (done ++ t) ts []
  | t :: ts, v :: vs => do
      let v ← r.eval f v
      template r f (done ++ t ++ (← Run.text v)) ts vs

def field (span : Span) (name : String) (target : Value) : Run Value := do
  match target, name with
  | .array ref, "length" => return .int (Int64.ofNat ((← get).elems ref).size)
  | .null, name => Run.raise "NullPointerException" ("field " ++ name ++ " of null")
  | target, name => Run.fail (.noField span name (← Run.text target))

def evalStep (m : Machine) (r : Inner) (f : Frame) : Expr -> Run Value
  | .missing => Run.fail (.cannotEvaluate .nowhere "<nil>")
  | .ident span name _ => lookup f span name
  | .literal _ value _ => return .ofLiteral value
  | .call span receiver name args _ => call m r f span receiver name args
  | .field span target name _ => do field span name (← r.eval f target)
  | .assign span target op value => assign r f span target op value
  | .binary _ left op right => do
      let l ← r.eval f left
      if op.isShortCircuit then
        let b ← truth l
        if b == (op == .or) then return .bool b
        return .bool (← r.test f right)
      binary op l (← r.eval f right)
  | .unary span op operand trailing =>
      match op with
      | .inc => step r f span 1 operand trailing
      | .dec => step r f span (-1) operand trailing
      | op => do unary span op (← r.eval f operand)
  | .conditional _ test onTrue onFalse _ => do
      if ← r.test f test then r.eval f onTrue else r.eval f onFalse
  | .index _ array position _ => do
      let a ← r.eval f array
      let i ← r.eval f position
      let (ref, n) ← element a i
      readElement ref n
  | .newArray _ elemType dims elements isListed => do
      if isListed || dims.isEmpty then Run.alloc (← r.evalAll f elements)
      else makeArray elemType (← r.evalAll f dims)
  | .newObject _ className args => return .object className (← r.evalAll f args)
  | .lambda _ params body =>
      modifyGet fun st =>
        (.closure st.closures params body f.scope, { st with closures := st.closures + 1 })
  | .switch span selector cases _ => switchExpr r f span selector cases
  | .template _ _ fragments values => template r f "" fragments values

/-! ## Statements -/

/-- What a loop does after its body: stop with a completion, or go on. -/
def afterBody (label : String) : Completion -> Option Completion
  | .normal => none
  | .broke l => if l.isEmpty || l = label then some .normal else some (.broke l)
  | .continued l => if l.isEmpty || l = label then none else some (.continued l)
  | c => some c

def runWhile (r : Inner) (f : Frame) (label : String) (test : Run Bool) (body : Stmt)
    (update : List Expr) : Nat -> Run Completion
  | 0 => throw .outOfFuel
  | fuel + 1 => do
      if !(← test) then return .normal
      match afterBody label (← r.exec f body) with
      | some c => return c
      | none =>
          let _ ← r.evalAll f update
          runWhile r f label test body update fuel

def runDoWhile (r : Inner) (f : Frame) (label : String) (test : Run Bool) (body : Stmt) :
    Nat -> Run Completion
  | 0 => throw .outOfFuel
  | fuel + 1 => do
      match afterBody label (← r.exec f body) with
      | some c => return c
      | none => if ← test then runDoWhile r f label test body fuel else return .normal

/-- A loop over the places of an array, `left` of which are still to come. -/
def runForEach (r : Inner) (f : Frame) (label name : String) (body : Stmt) (ref i : Nat) :
    Nat -> Run Completion
  | 0 => return .normal
  | left + 1 => do
      let v ← readElement ref i
      let scope ← Run.push (some f.scope)
      Run.define scope name v
      match afterBody label (← r.exec { scope } body) with
      | some c => return c
      | none => runForEach r f label name body ref (i + 1) left

/-- A loop under a label, if the statement is one. -/
def loop? (r : Inner) (f : Frame) (label : String) : Stmt -> Option (Run Completion)
  | .forLoop _ init test update body => some do
      let scope ← Run.push (some f.scope)
      let f : Frame := { scope }
      match ← r.execAll f init with
      | .normal =>
          let test := if test.isMissing then pure true else r.test f test
          runWhile r f label test body update r.fuel
      | c => return c
  | .forEach span name _ iterable body => some do
      match ← r.eval f iterable with
      | .array ref =>
          let count := ((← get).elems ref).size
          runForEach r f label name body ref 0 count
      | .null => Run.raise "NullPointerException" "iterate over null"
      | v => Run.fail (.cannotIterate span (← Run.text v))
  | .whileLoop _ test body => some (runWhile r f label (r.test f test) body [] r.fuel)
  | .doWhile _ body test => some (runDoWhile r f label (r.test f test) body r.fuel)
  | _ => none

/-- The first catch clause that takes a value, run with the value bound. -/
def handle (r : Inner) (f : Frame) (v : Value) : List Catch -> Option (Run Completion)
  | [] => none
  | c :: rest =>
      if catches c.param v then some do
        let scope ← Run.push (some f.scope)
        match c.param with
        | some p => Run.define scope p.name v
        | none => pure ()
        r.execBlock { scope } c.body
      else handle r f v rest

/-- Resources and body in one scope, with a thrown value handed to the catch clauses. -/
def guarded (r : Inner) (f : Frame) (resources : List Stmt) (body : Block)
    (clauses : List Catch) : Run Completion :=
  tryCatch
    (do
      let scope ← Run.push (some f.scope)
      match ← r.execAll { scope } resources with
      | .normal => r.execBlock { scope } body
      | c => return c)
    fun stop =>
      match stop with
      | .thrown v => (handle r f v clauses).getD (throw stop)
      | stop => throw stop

/-- Run cleanup code after a computation however it ended; what the cleanup does instead wins. -/
def withCleanup (cleanup : Run Completion) (x : Run Completion) : Run Completion := do
  let ending : Except Stop Completion ← tryCatch (.ok <$> x) fun stop => pure (.error stop)
  match ending with
  | .error .outOfFuel => throw .outOfFuel
  | ending =>
      match ← cleanup with
      | .normal =>
          match ending with
          | .ok c => return c
          | .error stop => throw stop
      | c => return c

/-- A throw statement throws the container of an early exit in its value. -/
def throwing (x : Run Value) : Run Completion := do
  let v ← tryCatch x fun stop =>
    match stop with
    | .exit container => throw (.thrown container)
    | stop => throw stop
  match v with
  | .null => Run.raise "NullPointerException" "throw null"
  | v => throw (.thrown v)

def execAssert (m : Machine) (r : Inner) (f : Frame) (test message : Expr) :
    Run Completion := do
  if !m.assertions then return .normal
  if ← r.test f test then return .normal
  let text ← if message.isMissing then pure "" else do Run.text (← r.eval f message)
  Run.raise "AssertionError" text

def execStep (m : Machine) (r : Inner) (f : Frame) (s : Stmt) : Run Completion := do
  match s with
  | .missing => Run.fail (.cannotExecute .nowhere "<nil>")
  | .block b => r.execBlock f b
  | .expr _ e =>
      let _ ← r.eval f e
      return .normal
  | .var _ name _ value =>
      let v ← if value.isMissing then pure .null else r.eval f value
      Run.define f.scope name v
      return .normal
  | .ret _ value =>
      if value.isMissing then return .returned .null
      return .returned (← r.eval f value)
  | .yield _ value _ => return .yielded (← r.eval f value)
  | .throw _ value => throwing (r.eval f value)
  | .branch _ test onTrue onFalse =>
      if ← r.test f test then r.exec f onTrue
      else if onFalse.isMissing then return .normal
      else r.exec f onFalse
  | .labeled _ label body =>
      match loop? r f label body with
      | some run => run
      | none =>
          match ← r.exec f body with
          | .broke l => if l = label then return .normal else return .broke l
          | c => return c
  | .breakTo _ label => return .broke label
  | .continueTo _ label => return .continued label
  | .switch _ selector cases => switchStmt r f selector cases
  | .tryCatch _ resources body clauses cleanup =>
      let x := guarded r f resources body clauses
      match cleanup with
      | none => x
      | some b => withCleanup (r.execBlock f b) x
  | .sync _ monitor body =>
      match ← r.eval f monitor with
      | .null => Run.raise "NullPointerException" "synchronized on null"
      | _ => r.execBlock f body
  | .assert _ test message => execAssert m r f test message
  | .forLoop .. | .forEach .. | .whileLoop .. | .doWhile .. =>
      (loop? r f "" s).getD (return .normal)

mutual

/-- Evaluate an expression with a bounded number of steps. -/
def eval (m : Machine) : Nat -> Frame -> Expr -> Run Value
  | 0, _, _ => throw .outOfFuel
  | fuel + 1, f, e => evalStep m ⟨fuel, eval m fuel, exec m fuel⟩ f e

def exec (m : Machine) : Nat -> Frame -> Stmt -> Run Completion
  | 0, _, _ => throw .outOfFuel
  | fuel + 1, f, s => execStep m ⟨fuel, eval m fuel, exec m fuel⟩ f s

end

/-- Call a method of the unit, within the calls that are under way. -/
def callMethod (m : Machine) (fuel : Nat) (name : String) (args : List Value) : Run Value :=
  match m.unit.method? name with
  | some callee => invoke m ⟨fuel, eval m fuel, exec m fuel⟩ callee args
  | none => Run.fail (.noMethod name m.unit.file)

end EarlyExit.Eval
