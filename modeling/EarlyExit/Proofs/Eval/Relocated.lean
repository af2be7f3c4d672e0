import EarlyExit.Proofs.Eval.Renaming

/-!
# Runs at new addresses

Interpreters that do the same at new addresses on the parts of a construct do so on the
construct, and a run with any fuel does.  Nothing is asked of the code; statements run in
scopes that code may declare variables in.
-/

namespace EarlyExit.Eval.Renaming

open Addresses Relocation Run

variable {ρ : Renaming} {m : Machine}

/-- Interpreters of which the second does at the new addresses what the first does. -/
structure Follows (ρ : Renaming) (r r' : Inner) : Prop where
  fuel : r'.fuel = r.fuel
  eval : ∀ f e, ρ.Carries ρ.value (r.eval f e) (r'.eval (ρ.frame f) e)
  exec : ∀ f t, ρ.Own f.scope -> ρ.Carries ρ.completion (r.exec f t) (r'.exec (ρ.frame f) t)

theorem carries_counted {x y : Run Value} (h : ρ.Carries ρ.value x y) :
    ρ.Carries ρ.value (counted m x) (counted m y) := by
  intro st hst
  by_cases hdepth : st.depth < m.maxDepth
  · have hentered : ρ.Covers st.enter :=
      ρ.covers_of_le hst rfl (Nat.le_refl _) (Nat.le_refl _) (Nat.le_refl _)
    obtain ⟨ending, st', hx, hst', hy⟩ := h st.enter hentered
    rw [← ρ.enter hst] at hy
    refine ⟨ending, st'.leave, counted_ended hdepth hx, ?_, fun hexact => ?_⟩
    · exact ρ.covers_of_le hst' rfl (Nat.le_refl _) (Nat.le_refl _) (Nat.le_refl _)
    · rw [counted_ended ((ρ.depth hst).symm ▸ hdepth) (hy hexact), ρ.leave hst']
  · exact ⟨_, st, counted_over hdepth x, hst, fun _ =>
      counted_over ((ρ.depth hst).symm ▸ hdepth) y⟩

theorem carries_catchExit {x y : Run Value} (h : ρ.Carries ρ.value x y) :
    ρ.Carries ρ.value (catchExit x) (catchExit y) := by
  unfold catchExit
  simp only [tryCatch_eq]
  refine h.attempt fun ending => ?_
  cases ending with
  | ok v => exact carries_pure v
  | error stop =>
      cases stop with
      | exit container => exact carries_pure container
      | thrown v => exact carries_stop (.thrown v)
      | failed f => exact carries_stop (.failed f)
      | outOfFuel => exact carries_stop .outOfFuel

theorem carries_bodyValue (name : String) (c : Completion) :
    ρ.Carries ρ.value (bodyValue name c) (bodyValue name (ρ.completion c)) := by
  cases c with
  | normal => exact carries_pure Value.null
  | returned v => exact carries_pure v
  | _ => exact carries_fail _

/-- What is done after a computation that completes normally. -/
def normally (x rest : Run Completion) : Run Completion := do
  match ← x with
  | .normal => rest
  | c => return c

theorem carries_normally {x y rest rest' : Run Completion} (h : ρ.Carries ρ.completion x y)
    (hrest : ρ.Carries ρ.completion rest rest') :
    ρ.Carries ρ.completion (normally x rest) (normally y rest') := by
  refine h.bind fun c => ?_
  cases c with
  | normal => exact hrest
  | returned v => exact carries_pure (Completion.returned v)
  | yielded v => exact carries_pure (Completion.yielded v)
  | broke l => exact carries_pure (Completion.broke l)
  | continued l => exact carries_pure (Completion.continued l)

theorem carries_bindParams {s : Nat} (hs : ρ.Own s) (ps : List Param) (vs : List Value) :
    ρ.Carries id (bindParams s ps vs) (bindParams (ρ.scope s) ps (ρ.values vs)) := by
  unfold bindParams
  induction ps generalizing vs with
  | nil => exact carries_pure ()
  | cons p ps ih =>
      cases vs with
      | nil => exact carries_pure ()
      | cons v vs => exact (carries_define hs p.name v).bind fun _ => ih vs

theorem carries_lookup (f : Frame) (span : Span) (x : String) :
    ρ.Carries ρ.value (lookup f span x) (lookup (ρ.frame f) span x) := by
  rw [lookup_eq, lookup_eq]
  refine (carries_find f.scope x).bind fun found => ?_
  cases found with
  | some v => exact carries_pure v
  | none => exact carries_fail _

namespace Follows

variable {r r' : Inner} (hr : ρ.Follows r r') (f : Frame)

include hr

theorem evalAll (es : List Expr) :
    ρ.Carries ρ.values (r.evalAll f es) (r'.evalAll (ρ.frame f) es) := by
  induction es with
  | nil => exact carries_pure []
  | cons e rest ih =>
      exact (hr.eval f e).bind fun v => ih.bind fun vs => carries_pure (v :: vs)

theorem test (e : Expr) : ρ.Carries id (r.test f e) (r'.test (ρ.frame f) e) :=
  (hr.eval f e).bind carries_truth

variable {f} in
theorem execAll (hf : ρ.Own f.scope) (ts : List Stmt) :
    ρ.Carries ρ.completion (r.execAll f ts) (r'.execAll (ρ.frame f) ts) := by
  induction ts with
  | nil => exact carries_pure Completion.normal
  | cons t rest ih => exact carries_normally (hr.exec f t hf) ih

theorem execBlock (b : Block) :
    ρ.Carries ρ.completion (r.execBlock f b) (r'.execBlock (ρ.frame f) b) :=
  carries_push (some f.scope) fun s hs => hr.execAll (f := ⟨s⟩) hs b.stmts

/-! ## Calls -/

theorem invoke (callee : Method) (args : List Value) :
    ρ.Carries ρ.value (Eval.invoke m r callee args) (Eval.invoke m r' callee (ρ.values args)) := by
  unfold Eval.invoke
  rw [values_eq_map, List.length_map, ← values_eq_map]
  split
  · exact carries_fail_bind _ _ _
  · refine carries_counted (carries_push none fun s hs => ?_)
    refine (carries_bindParams hs callee.params args).bind fun _ => carries_catchExit ?_
    exact (hr.execBlock ⟨s⟩ _).bind (carries_bodyValue callee.name)

theorem apply (params : List Param) (body : Body) (outer : Nat) (args : List Value) :
    ρ.Carries ρ.value (Eval.apply m r params body outer args)
      (Eval.apply m r' params body (ρ.scope outer) (ρ.values args)) := by
  unfold Eval.apply
  rw [values_eq_map, List.length_map, ← values_eq_map]
  by_cases harity : args.length ≠ params.length
  · simp only [if_pos harity]
    exact carries_fail_bind _ _ _
  · simp only [if_neg harity]
    refine carries_counted (carries_push (some outer) fun s hs => ?_)
    refine (carries_bindParams hs params args).bind fun _ => ?_
    cases body with
    | value e =>
        cases e with
        | missing => exact carries_fail _
        | _ => exact carries_catchExit (hr.eval ⟨s⟩ _)
    | block b =>
        exact carries_catchExit ((hr.execBlock ⟨s⟩ b).bind (carries_bodyValue "lambda"))

variable (hm : ∀ name fn, m.hosts name = some fn -> ρ.Serves fn) (span : Span) (name : String)

include hm

theorem callPlain (args : List Expr) :
    ρ.Carries ρ.value (Eval.callPlain m r f span name args)
      (Eval.callPlain m r' (ρ.frame f) span name args) := by
  refine (hr.evalAll f args).bind fun vs => ?_
  split
  · exact hr.invoke _ vs
  · split
    next fn hfn => exact carries_callHost (hm name fn hfn) name vs
    next => exact carries_fail _

theorem callStatic (className : String) (args : List Expr) :
    ρ.Carries ρ.value (Eval.callStatic m r f span className name args)
      (Eval.callStatic m r' (ρ.frame f) span className name args) := by
  refine (hr.evalAll f args).bind fun vs => ?_
  rw [value_headD]
  split
  next k _ =>
    split
    · rw [← value_alternate]
      exact carries_pure _
    · split
      · exact carries_pure (Value.success k (vs.headD .null))
      · exact carries_fail _
  next =>
    dsimp only
    split
    next fn hfn => exact carries_callHost (hm _ fn hfn) _ vs
    next => exact carries_fail _

omit hm in
theorem memberCall (receiver : Value) (vs : List Value) :
    ρ.Carries ρ.value (Eval.memberCall m r span receiver name vs)
      (Eval.memberCall m r' span (ρ.value receiver) name (ρ.values vs)) := by
  cases receiver with
  | container k alternate held =>
      have hempty : (ρ.values vs).isEmpty = vs.isEmpty := by
        cases vs <;> rfl
      unfold Eval.memberCall
      dsimp only [Addresses.value]
      rw [hempty]
      split
      · unfold unwrapped
        split
        · split
          · rw [← value_alternate]
            exact carries_stop (.exit (.alternate k held))
          · exact carries_pure held
        · exact carries_fail _
      · exact carries_containerMember k alternate held name vs
  | closure id params body s => exact hr.apply params body s vs
  | object c fields =>
      show ρ.Carries _ ((objectMember? c fields name vs).elim _ _)
        ((objectMember? c (ρ.values fields) name (ρ.values vs)).elim _ _)
      rw [objectMember?_values]
      cases objectMember? c fields name vs with
      | some v => exact carries_pure v
      | none => exact carries_fail_text (.object c fields) _
  | str s => exact carries_stringMember s name vs
  | null => exact carries_raise _ _
  | _ => exact carries_fail_text _ _

omit hm in
theorem callMember (receiver : Value) (args : List Expr) :
    ρ.Carries ρ.value (Eval.callMember m r f span receiver name args)
      (Eval.callMember m r' (ρ.frame f) span (ρ.value receiver) name args) := by
  rw [callMember_eq, callMember_eq]
  exact (hr.evalAll f args).bind (hr.memberCall span name receiver)

theorem call (receiver : Expr) (args : List Expr) :
    ρ.Carries ρ.value (Eval.call m r f span receiver name args)
      (Eval.call m r' (ρ.frame f) span receiver name args) := by
  cases receiver with
  | missing => exact hr.callPlain f hm span name args
  | ident s className t =>
      rw [call_ident, call_ident]
      refine (carries_find f.scope className).bind fun found => ?_
      cases found with
      | some v => exact hr.callMember f span name v args
      | none => exact hr.callStatic f hm span name className args
  | _ => exact (hr.eval f _).bind fun v => hr.callMember f span name v args

omit hm

/-! ## Assignments -/

omit hr in
theorem oldValue (x : String) (op : Operator) :
    ρ.Carries ρ.value (Eval.oldValue f span x op) (Eval.oldValue (ρ.frame f) span x op) := by
  unfold Eval.oldValue
  split
  · exact carries_lookup f span x
  · exact carries_pure Value.null

omit hr in
theorem oldElement (a i : Value) (op : Operator) :
    ρ.Carries ρ.value (Eval.oldElement a i op) (Eval.oldElement (ρ.value a) (ρ.value i) op) := by
  unfold Eval.oldElement
  split
  · exact (carries_element a i).bind fun place => carries_readElement place.1 place.2
  · exact carries_pure Value.null

omit hr in
theorem putElement (a i v : Value) :
    ρ.Carries ρ.value (Eval.putElement a i v)
      (Eval.putElement (ρ.value a) (ρ.value i) (ρ.value v)) :=
  (carries_element a i).bind fun place =>
    (carries_writeElement place.1 place.2 v).bind fun _ => carries_pure v

omit hr in
theorem putVariable (x : String) (v : Value) :
    ρ.Carries ρ.value (Eval.putVariable f span x v)
      (Eval.putVariable (ρ.frame f) span x (ρ.value v)) :=
  (carries_rebind f span x v).bind fun _ => carries_pure v

theorem assign (target : Expr) (op : Operator) (value : Expr) :
    ρ.Carries ρ.value (Eval.assign r f span target op value)
      (Eval.assign r' (ρ.frame f) span target op value) := by
  cases target with
  | ident s x t =>
      rw [assign_ident, assign_ident]
      refine (oldValue f s x op).bind fun old => (hr.eval f value).bind fun v => ?_
      exact (carries_combine op old v).bind (putVariable f s x)
  | index s array position t =>
      rw [assign_index, assign_index]
      refine (hr.eval f array).bind fun a => (hr.eval f position).bind fun i => ?_
      refine (oldElement a i op).bind fun old => (hr.eval f value).bind fun v => ?_
      exact (carries_combine op old v).bind (putElement a i)
  | _ => exact carries_fail _

omit hr in
theorem carries_stepped (trailing : Bool) (old new : Value) :
    ρ.Carries ρ.value (pure (if trailing then old else new))
      (pure (if trailing then ρ.value old else ρ.value new)) := by
  cases trailing
  · exact carries_pure new
  · exact carries_pure old

theorem step (delta : Int64) (operand : Expr) (trailing : Bool) :
    ρ.Carries ρ.value (Eval.step r f span delta operand trailing)
      (Eval.step r' (ρ.frame f) span delta operand trailing) := by
  cases operand with
  | ident s x t =>
      refine (carries_lookup f s x).bind fun old => ?_
      refine (carries_binary .add old (.int delta)).bind fun new => ?_
      exact (carries_rebind f s x new).bind fun _ => carries_stepped trailing old new
  | index s array position t =>
      refine (hr.eval f array).bind fun a => (hr.eval f position).bind fun i => ?_
      refine (carries_element a i).bind fun place => ?_
      refine (carries_readElement place.1 place.2).bind fun old => ?_
      refine (carries_binary .add old (.int delta)).bind fun new => ?_
      exact (carries_writeElement place.1 place.2 new).bind fun _ =>
        carries_stepped trailing old new
  | _ => exact carries_fail _

/-! ## Switches -/

theorem matchesLabel (sel : Value) (labels : List Expr) :
    ρ.Carries id (Eval.matchesLabel r f sel labels)
      (Eval.matchesLabel r' (ρ.frame f) (ρ.value sel) labels) := by
  induction labels with
  | nil => exact carries_pure false
  | cons e rest ih =>
      refine (hr.eval f e).bind fun v => ?_
      rw [equal_value]
      split
      · exact carries_pure true
      · exact ih

theorem select (sel : Value) (fallback cases : List Case) :
    ρ.Carries id (Eval.select r f sel fallback cases)
      (Eval.select r' (ρ.frame f) (ρ.value sel) fallback cases) := by
  induction cases generalizing fallback with
  | nil => exact carries_pure fallback
  | cons c rest ih =>
      unfold Eval.select
      split
      · exact ih (c :: rest)
      · refine (hr.matchesLabel f sel c.labels).bind fun b => ?_
        cases b with
        | true => exact carries_pure (c :: rest)
        | false => exact ih fallback

variable {f}

theorem runArms (hf : ρ.Own f.scope) (cases : List Case) :
    ρ.Carries ρ.completion (Eval.runArms r f cases) (Eval.runArms r' (ρ.frame f) cases) := by
  induction cases with
  | nil => exact carries_pure Completion.normal
  | cons c rest ih =>
      refine (hr.execAll hf c.body).bind fun ending => ?_
      cases ending with
      | normal =>
          dsimp only [Addresses.completion]
          split
          · exact carries_pure Completion.normal
          · exact ih
      | broke l =>
          dsimp only [Addresses.completion]
          split
          · contradiction
          · exact carries_pure Completion.normal
          · exact carries_pure (Completion.broke l)
      | returned v => exact carries_pure (Completion.returned v)
      | yielded v => exact carries_pure (Completion.yielded v)
      | continued l => exact carries_pure (Completion.continued l)

theorem yieldArms (hf : ρ.Own f.scope) (cases : List Case) :
    ρ.Carries ρ.value (Eval.yieldArms r f span cases)
      (Eval.yieldArms r' (ρ.frame f) span cases) := by
  induction cases with
  | nil => exact carries_fail _
  | cons c rest ih =>
      refine (hr.execAll hf c.body).bind fun ending => ?_
      cases ending with
      | yielded v => exact carries_pure v
      | normal =>
          dsimp only [Addresses.completion]
          split
          · exact carries_fail _
          · exact ih
      | _ => exact carries_fail _

variable (f)

theorem yieldOn (cases : List Case) (sel : Value) :
    ρ.Carries ρ.value (Eval.yieldOn r f span cases sel)
      (Eval.yieldOn r' (ρ.frame f) span cases (ρ.value sel)) := by
  refine (hr.select f sel [] cases).bind fun arms => ?_
  have harms : ρ.Carries ρ.value
      (Run.push (some f.scope) >>= fun scope =>
        catchExit (Eval.yieldArms r { f with scope } span arms))
      (Run.push (some (ρ.scope f.scope)) >>= fun scope =>
        catchExit (Eval.yieldArms r' { ρ.frame f with scope } span arms)) :=
    carries_push (some f.scope) fun s hs =>
      carries_catchExit (hr.yieldArms (f := ⟨s⟩) span hs arms)
  dsimp only [id]
  split
  · refine (carries_text sel).bind fun text => ?_
    exact carries_raise_bind _ _ _ _
  · exact harms

theorem switchOn (sel : Value) (cases : List Case) :
    ρ.Carries ρ.completion (Eval.switchOn r f sel cases)
      (Eval.switchOn r' (ρ.frame f) (ρ.value sel) cases) := by
  refine (hr.select f sel [] cases).bind fun arms => ?_
  dsimp only [id]
  split
  · exact carries_pure Completion.normal
  · exact carries_push (some f.scope) fun s hs =>
      hr.runArms (f := ⟨s⟩) hs arms

/-! ## Expressions -/

theorem template (done : String) (fragments : List String) (values : List Expr) :
    ρ.Carries ρ.value (Eval.template r f done fragments values)
      (Eval.template r' (ρ.frame f) done fragments values) := by
  induction fragments generalizing done values with
  | nil => exact carries_pure (Value.str done)
  | cons t ts ih =>
      cases values with
      | nil => exact ih (done ++ t) []
      | cons e rest =>
          refine (hr.eval f e).bind fun v => ?_
          exact (carries_text v).bind fun text => ih (done ++ t ++ text) rest

theorem evalStep (hm : ∀ name fn, m.hosts name = some fn -> ρ.Serves fn) (e : Expr) :
    ρ.Carries ρ.value (Eval.evalStep m r f e) (Eval.evalStep m r' (ρ.frame f) e) := by
  cases e with
  | missing => exact carries_fail _
  | ident s x t => exact carries_lookup f s x
  | literal s value raw => exact carries_same (value_ofLiteral _ value)
  | call s receiver name args t => exact hr.call f hm s name receiver args
  | field s target name t => exact (hr.eval f target).bind (carries_field s name)
  | assign s target op value => exact hr.assign f s target op value
  | binary s left op right =>
      refine (hr.eval f left).bind fun l => ?_
      cases op.isShortCircuit with
      | true =>
          refine (carries_truth l).bind fun b => ?_
          dsimp only [id]
          split
          · exact carries_pure (Value.bool b)
          · exact (hr.test f right).bind fun b => carries_pure (Value.bool b)
      | false => exact (hr.eval f right).bind (carries_binary op l)
  | unary s op operand trailing =>
      cases op with
      | inc => exact hr.step f s 1 operand trailing
      | dec => exact hr.step f s (-1) operand trailing
      | _ => exact (hr.eval f operand).bind (carries_unary s _)
  | conditional s test onTrue onFalse t =>
      refine (hr.test f test).bind fun b => ?_
      cases b with
      | true => exact hr.eval f onTrue
      | false => exact hr.eval f onFalse
  | index s array position t =>
      refine (hr.eval f array).bind fun a => (hr.eval f position).bind fun i => ?_
      exact (carries_element a i).bind fun place => carries_readElement place.1 place.2
  | newArray s elemType dims elements listed =>
      unfold Eval.evalStep
      dsimp only
      split
      · exact (hr.evalAll f elements).bind carries_alloc
      · exact (hr.evalAll f dims).bind (carries_makeArray elemType)
  | newObject s className args =>
      exact (hr.evalAll f args).bind fun vs => carries_pure (Value.object className vs)
  | lambda s params body => exact carries_close params body f.scope
  | switch s selector cases t =>
      show ρ.Carries _ (switchExpr r f s selector cases) (switchExpr r' (ρ.frame f) s selector cases)
      rw [switchExpr_eq, switchExpr_eq]
      exact (hr.eval f selector).bind (hr.yieldOn f s cases)
  | template s processor fragments values => exact hr.template f "" fragments values

/-! ## Loops -/

omit hr in
theorem afterBody_completion (label : String) (c : Completion) :
    afterBody label (ρ.completion c) = (afterBody label c).map ρ.completion := by
  cases c with
  | broke l | continued l =>
      simp only [Addresses.completion, afterBody]
      split <;> rfl
  | _ => rfl

variable {f} (label : String)

theorem runWhile (hf : ρ.Own f.scope) {test test' : Run Bool} (htest : ρ.Carries id test test')
    (body : Stmt) (update : List Expr) (fuel : Nat) :
    ρ.Carries ρ.completion (Eval.runWhile r f label test body update fuel)
      (Eval.runWhile r' (ρ.frame f) label test' body update fuel) := by
  induction fuel with
  | zero => exact carries_stop .outOfFuel
  | succ fuel ih =>
      refine htest.bind fun b => ?_
      cases b with
      | false => exact carries_pure Completion.normal
      | true =>
          refine (hr.exec f body hf).bind fun c => ?_
          rw [afterBody_completion]
          cases afterBody label c with
          | some c => exact carries_pure c
          | none => exact (hr.evalAll f update).bind fun _ => ih

theorem runDoWhile (hf : ρ.Own f.scope) (test : Expr) (body : Stmt) (fuel : Nat) :
    ρ.Carries ρ.completion (Eval.runDoWhile r f label (r.test f test) body fuel)
      (Eval.runDoWhile r' (ρ.frame f) label (r'.test (ρ.frame f) test) body fuel) := by
  induction fuel with
  | zero => exact carries_stop .outOfFuel
  | succ fuel ih =>
      refine (hr.exec f body hf).bind fun c => ?_
      rw [afterBody_completion]
      cases afterBody label c with
      | some c => exact carries_pure c
      | none =>
          refine (hr.test f test).bind fun b => ?_
          cases b with
          | true => exact ih
          | false => exact carries_pure Completion.normal

variable (f)

theorem runForEach (body : Stmt) (ref i left : Nat) :
    ρ.Carries ρ.completion (Eval.runForEach r f label name body ref i left)
      (Eval.runForEach r' (ρ.frame f) label name body (ρ.array ref) i left) := by
  induction left generalizing i with
  | zero => exact carries_pure Completion.normal
  | succ left ih =>
      refine (carries_readElement ref i).bind fun v => ?_
      refine carries_push (some f.scope) fun s hs => ?_
      refine (carries_define hs name v).bind fun _ => ?_
      refine (hr.exec { f with scope := s } body hs).bind fun c => ?_
      rw [afterBody_completion]
      cases afterBody label c with
      | some c => exact carries_pure c
      | none => exact ih (i + 1)

theorem overArray (body : Stmt) (v : Value) :
    ρ.Carries ρ.completion (Eval.overArray r f label span name body v)
      (Eval.overArray r' (ρ.frame f) label span name body (ρ.value v)) := by
  cases v with
  | array ref =>
      exact (carries_size ref).bind fun count => hr.runForEach f name label body ref 0 count
  | null => exact carries_raise _ _
  | _ => exact carries_fail_text _ _

variable {f}

/-- A loop under a label, or what is done with another statement. -/
theorem loop (hf : ρ.Own f.scope) (t : Stmt) {x y : Run Completion}
    (h : ρ.Carries ρ.completion x y) :
    ρ.Carries ρ.completion ((loop? r f label t).getD x)
      ((loop? r' (ρ.frame f) label t).getD y) := by
  cases t with
  | forLoop s init test update body =>
      refine carries_push (some f.scope) fun s hs => ?_
      have hs : ρ.Own (Frame.mk s).scope := hs
      refine carries_normally (hr.execAll hs init) ?_
      dsimp only
      rw [hr.fuel]
      refine hr.runWhile label hs ?_ body update r.fuel
      split
      · exact carries_pure true
      · exact hr.test ⟨s⟩ test
  | forEach s name type iterable body =>
      exact (hr.eval f iterable).bind (hr.overArray f s name label body)
  | whileLoop s test body =>
      simp only [loop?, hr.fuel]
      exact hr.runWhile label hf (hr.test f test) body [] r.fuel
  | doWhile s body test =>
      simp only [loop?, hr.fuel]
      exact hr.runDoWhile label hf test body r.fuel
  | _ => exact h

/-! ## Statements -/

variable (f)

theorem handle (v : Value) (clauses : List Catch) {x y : Run Completion}
    (h : ρ.Carries ρ.completion x y) :
    ρ.Carries ρ.completion ((Eval.handle r f v clauses).getD x)
      ((Eval.handle r' (ρ.frame f) (ρ.value v) clauses).getD y) := by
  induction clauses with
  | nil => exact h
  | cons c rest ih =>
      unfold Eval.handle
      rw [catches_value]
      split
      · refine carries_push (some f.scope) fun s hs => ?_
        cases c.param with
        | none => exact hr.execBlock { f with scope := s } c.body
        | some p =>
            exact (carries_define hs p.name v).bind fun _ =>
              hr.execBlock { f with scope := s } c.body
      · exact ih

theorem guarded (resources : List Stmt) (body : Block) (clauses : List Catch) :
    ρ.Carries ρ.completion (Eval.guarded r f resources body clauses)
      (Eval.guarded r' (ρ.frame f) resources body clauses) := by
  unfold Eval.guarded
  simp only [tryCatch_eq]
  have hopened (s : Nat) (hs : ρ.Own s) : ρ.Carries ρ.completion
      (normally (r.execAll ⟨s⟩ resources) (r.execBlock ⟨s⟩ body))
      (normally (r'.execAll ⟨ρ.scope s⟩ resources)
        (r'.execBlock ⟨ρ.scope s⟩ body)) :=
    carries_normally (hr.execAll (f := ⟨s⟩) hs resources) (hr.execBlock ⟨s⟩ body)
  refine (carries_push (some f.scope) hopened).attempt fun ending => ?_
  cases ending with
  | ok c => exact carries_pure c
  | error stop =>
      cases stop with
      | thrown v => exact hr.handle f v clauses (carries_stop (.thrown v))
      | exit v => exact carries_stop (.exit v)
      | failed e => exact carries_stop (.failed e)
      | outOfFuel => exact carries_stop .outOfFuel

omit hr in
theorem withCleanup {cleanup cleanup' x y : Run Completion}
    (hcleanup : ρ.Carries ρ.completion cleanup cleanup') (hx : ρ.Carries ρ.completion x y) :
    ρ.Carries ρ.completion (Eval.withCleanup cleanup x) (Eval.withCleanup cleanup' y) := by
  rw [withCleanup_eq, withCleanup_eq]
  refine hx.attempt fun ending => carries_normally hcleanup ?_
  cases ending with
  | ok c => exact carries_pure c
  | error stop => exact carries_stop stop

theorem given (e : Expr) :
    ρ.Carries ρ.value (Eval.given r f e) (Eval.given r' (ρ.frame f) e) := by
  unfold Eval.given
  split
  · exact carries_pure Value.null
  · exact hr.eval f e

theorem anchorValue (s : Stmt) :
    ρ.Carries ρ.value (Eval.anchorValue r f s) (Eval.anchorValue r' (ρ.frame f) s) := by
  cases s with
  | ret s e => exact hr.given f e
  | var s name type e => exact hr.given f e
  | throw s e =>
      unfold Eval.anchorValue
      simp only [tryCatch_eq]
      refine (hr.eval f e).attempt fun ending => ?_
      cases ending with
      | ok v => exact carries_pure v
      | error stop =>
          cases stop with
          | exit v => exact carries_stop (.thrown v)
          | thrown v => exact carries_stop (.thrown v)
          | failed e => exact carries_stop (.failed e)
          | outOfFuel => exact carries_stop .outOfFuel
  | _ => exact hr.eval f _

variable {f}

theorem proceed (hf : ρ.Own f.scope) (s : Stmt) (v : Value) :
    ρ.Carries ρ.completion (Eval.proceed r f s v) (Eval.proceed r' (ρ.frame f) s (ρ.value v)) := by
  cases s with
  | ret => exact carries_pure (Completion.returned v)
  | yield => exact carries_pure (Completion.yielded v)
  | throw =>
      cases v with
      | null => exact carries_raise _ _
      | _ => exact carries_stop (.thrown _)
  | var s name type value =>
      exact (carries_define hf name v).bind fun _ => carries_pure Completion.normal
  | branch s test onTrue onFalse =>
      refine (carries_truth v).bind fun b => ?_
      cases b with
      | true => exact hr.exec f onTrue hf
      | false =>
          dsimp only [id]
          split
          · contradiction
          · split
            · exact carries_pure Completion.normal
            · exact hr.exec f onFalse hf
  | switch s selector cases => exact hr.switchOn f v cases
  | sync s monitor body =>
      cases v with
      | null => exact carries_raise _ _
      | _ => exact hr.execBlock f body
  | forEach s name type iterable body => exact hr.overArray f s name "" body v
  | _ => exact carries_pure Completion.normal

variable (f)

theorem execAssert (test message : Expr) :
    ρ.Carries ρ.completion (Eval.execAssert m r f test message)
      (Eval.execAssert m r' (ρ.frame f) test message) := by
  unfold Eval.execAssert
  cases m.assertions with
  | false => exact carries_pure Completion.normal
  | true =>
      refine (hr.test f test).bind fun b => ?_
      cases b with
      | true => exact carries_pure Completion.normal
      | false =>
          cases message.isMissing with
          | true => exact carries_raise _ _
          | false =>
              exact (hr.eval f message).bind fun v => (carries_text v).bind fun _ =>
                carries_raise _ _

variable {f}

/-- How a statement under a label completes that is not a loop. -/
def underLabel (label : String) : Completion -> Run Completion
  | .broke l => if l = label then return .normal else return .broke l
  | c => return c

omit hr in
theorem execStep_labeled (r : Inner) (f : Frame) (s : Span) (label : String) (body : Stmt) :
    Eval.execStep m r f (.labeled s label body) =
      (loop? r f label body).getD (r.exec f body >>= underLabel label) := by
  unfold Eval.execStep
  dsimp only
  cases loop? r f label body with
  | some run => rfl
  | none => rfl

theorem execStep (hf : ρ.Own f.scope) (t : Stmt) :
    ρ.Carries ρ.completion (Eval.execStep m r f t) (Eval.execStep m r' (ρ.frame f) t) := by
  cases t with
  | missing => exact carries_fail _
  | block b => exact hr.execBlock f b
  | expr | var | ret | yield | throw | branch | switch | sync =>
      rw [execStep_anchor rfl, execStep_anchor rfl]
      exact (hr.anchorValue f _).bind (hr.proceed hf _)
  | labeled s label body =>
      rw [execStep_labeled, execStep_labeled]
      refine hr.loop label hf body ((hr.exec f body hf).bind fun c => ?_)
      cases c with
      | broke l =>
          dsimp only [Addresses.completion, underLabel]
          split
          · exact carries_pure Completion.normal
          · exact carries_pure (Completion.broke l)
      | normal => exact carries_pure Completion.normal
      | returned v => exact carries_pure (Completion.returned v)
      | yielded v => exact carries_pure (Completion.yielded v)
      | continued l => exact carries_pure (Completion.continued l)
  | breakTo s label => exact carries_pure (Completion.broke label)
  | continueTo s label => exact carries_pure (Completion.continued label)
  | tryCatch s resources body clauses cleanup =>
      have hguarded := hr.guarded f resources body clauses
      cases cleanup with
      | none => exact hguarded
      | some b => exact withCleanup (hr.execBlock f b) hguarded
  | assert s test message => exact hr.execAssert f test message
  | forLoop s init test update body =>
      exact hr.loop "" hf (.forLoop s init test update body) (carries_pure Completion.normal)
  | forEach s name type iterable body =>
      exact hr.loop "" hf (.forEach s name type iterable body) (carries_pure Completion.normal)
  | whileLoop s test body =>
      exact hr.loop "" hf (.whileLoop s test body) (carries_pure Completion.normal)
  | doWhile s body test =>
      exact hr.loop "" hf (.doWhile s body test) (carries_pure Completion.normal)

end Follows

/-! ## Runs -/

/-- With any fuel, a machine does the same at new addresses. -/
theorem follows (ρ : Renaming) (hm : ∀ name fn, m.hosts name = some fn -> ρ.Serves fn)
    (fuel : Nat) :
    ρ.Follows ⟨fuel, eval m fuel, exec m fuel⟩ ⟨fuel, eval m fuel, exec m fuel⟩ := by
  induction fuel with
  | zero =>
      exact ⟨rfl, fun _ _ => carries_stop .outOfFuel, fun _ _ _ => carries_stop .outOfFuel⟩
  | succ fuel ih => exact ⟨rfl, fun f e => ih.evalStep f hm e, fun f t hf => ih.execStep hf t⟩

end EarlyExit.Eval.Renaming
