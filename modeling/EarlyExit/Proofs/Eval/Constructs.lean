import EarlyExit.Proofs.Eval.Logic

/-!
# Constructs in related runs

Interpreters that are related on the parts of a construct are related on the construct:
one statement for each operation, expression and statement of the language, from the rules
of a logic alone.
-/

namespace EarlyExit.Eval

open Node Expansion Realm Run

/-! ## Variables -/

section Variables

variable {f : Frame} {x : String} {st : Store}

theorem get_bind {α : Type} (g : Store -> Run α) (st : Store) : (get >>= g) st = g st st :=
  rfl

theorem lookup_some {v : Value} (h : st.get? f.scope x = some v) (span : Span) :
    lookup f span x st = ended (.ok v) st := by
  simp only [lookup, get_bind, h]
  rfl

theorem lookup_none (h : st.get? f.scope x = none)
    (span : Span) : lookup f span x st = ended (.error (.failed (.undefined span x))) st := by
  simp only [lookup, get_bind, h]
  rfl

theorem rebind_some {t : Nat} {u : Value}
    (h : st.find? f.scope x = some (t, u)) (span : Span) (v : Value) :
    rebind f span x v st = ended (.ok ()) (st.define t x v) := by
  simp only [rebind, get_bind, h]
  rfl

theorem rebind_none (h : st.find? f.scope x = none)
    (span : Span) (v : Value) :
    rebind f span x v st = ended (.error (.failed (.undefined span x))) st := by
  simp only [rebind, get_bind, h]
  rfl

/-- A variable has the value that is found for it. -/
theorem lookup_eq (f : Frame) (span : Span) (x : String) :
    lookup f span x = Run.find f.scope x >>= fun found =>
      found.elim (Run.fail (.undefined span x)) pure := by
  funext st
  show _ = (Option.elim (st.get? f.scope x) (Run.fail (.undefined span x)) pure : Run Value) st
  cases h : st.get? f.scope x with
  | none => exact lookup_none h span
  | some v => exact lookup_some h span

/-- A call on a name is one on the value of a variable, or on a class. -/
theorem call_ident (m : Machine) (r : Inner) (f : Frame) (span s : Span) (x t name : String)
    (args : List Expr) : call m r f span (.ident s x t) name args =
      Run.find f.scope x >>= fun found => found.elim (callStatic m r f span x name args)
        fun v => callMember m r f span v name args := by
  funext st
  show _ = (Option.elim (st.get? f.scope x) (callStatic m r f span x name args)
    fun v => callMember m r f span v name args) st
  simp only [Eval.call, get_bind]
  cases st.get? f.scope x <;> rfl

end Variables

/-! ## Statements in order -/

theorem execAll_normal {r : Inner} {f : Frame} {t : Stmt} {ts : List Stmt} {st st' : Store}
    (h : r.exec f t st = ended (.ok .normal) st') : r.execAll f (t :: ts) st = r.execAll f ts st' := by
  show EStateM.bind _ _ st = _
  simp only [EStateM.bind, h]
  rfl

theorem execAll_stopped {r : Inner} {f : Frame} {t : Stmt} {ts : List Stmt} {st st' : Store}
    {ending : Except Stop Completion} (h : r.exec f t st = ended ending st')
    (hends : ending ≠ .ok .normal) : r.execAll f (t :: ts) st = ended ending st' := by
  show EStateM.bind _ _ st = _
  simp only [EStateM.bind, h]
  cases ending with
  | error stop => rfl
  | ok c => cases c <;> first | rfl | exact absurd rfl hends

theorem execAll_single (r : Inner) (f : Frame) (t : Stmt) : r.execAll f [t] = r.exec f t := by
  funext st
  obtain ⟨ending, st', h⟩ := exists_ended (r.exec f t st)
  by_cases hends : ending = .ok .normal
  · subst hends
    rw [execAll_normal h, h]
    rfl
  · rw [execAll_stopped h hends, h]

/-! ## Calls on the values of their arguments -/

def plainCall (m : Machine) (r : Inner) (span : Span) (name : String) (vs : List Value) :
    Run Value :=
  (m.unit.method? name).elim
    ((m.hosts name).elim (Run.fail (.undefinedMethod span name)) fun fn => callHost name fn vs)
    fun callee => invoke m r callee vs

def staticCall (m : Machine) (span : Span) (className name : String) (vs : List Value) :
    Run Value :=
  let full := className ++ "." ++ name
  (m.registry.byName? className).elim
    ((m.hosts full).elim (Run.fail (.undefined span full)) fun fn => callHost full fn vs)
    fun k =>
      if name = k.alternateFactory then pure (.alternate k (vs.headD .null))
      else if name = k.successFactory then pure (.success k (vs.headD .null))
      else Run.fail (.noFactory span name className)

def unwrapped (m : Machine) (span : Span) (name : String) (k : Kind) (alternate : Bool)
    (held : Value) : Run Value :=
  if m.native then
    if alternate then throw (.exit (.alternate k held)) else pure held
  else Run.fail (.unexpanded span name)

def memberCall (m : Machine) (r : Inner) (span : Span) (receiver : Value)
    (name : String) (vs : List Value) : Run Value :=
  let noMember : Run Value := do Run.fail (.noMember span name (← Run.text receiver))
  match receiver with
  | .container k alternate held =>
      if vs.isEmpty ∧ name = m.sentinel then unwrapped m span name k alternate held
      else containerMember k alternate held name vs
  | .closure _ params body scope => apply m r params body scope vs
  | .object c fields => (objectMember? c fields name vs).elim noMember pure
  | .str s => stringMember s name vs
  | .null => Run.raise "NullPointerException" (name ++ " on null")
  | _ => noMember

theorem callPlain_eq (m : Machine) (r : Inner) (f : Frame) (span : Span) (name : String)
    (args : List Expr) :
    callPlain m r f span name args = r.evalAll f args >>= plainCall m r span name := by
  unfold callPlain plainCall
  congr 1
  funext vs
  cases m.unit.method? name with
  | some callee => rfl
  | none => cases m.hosts name <;> rfl

theorem callStatic_eq (m : Machine) (r : Inner) (f : Frame) (span : Span)
    (className name : String) (args : List Expr) :
    callStatic m r f span className name args =
      r.evalAll f args >>= staticCall m span className name := by
  unfold callStatic staticCall
  congr 1
  funext vs
  cases m.registry.byName? className with
  | some k => rfl
  | none => cases h : m.hosts (className ++ "." ++ name) <;> simp only [h] <;> rfl

theorem callMember_eq (m : Machine) (r : Inner) (f : Frame) (span : Span) (receiver : Value)
    (name : String) (args : List Expr) :
    callMember m r f span receiver name args =
      r.evalAll f args >>= memberCall m r span receiver name := by
  unfold callMember
  split
  next k alternate held =>
    show _ = memberCall m r span (.container k alternate held) name []
    by_cases hname : name = m.sentinel
    · simp only [memberCall, hname, unwrapped]
      cases m.native <;> cases alternate <;> rfl
    · simp only [memberCall, hname]
      rfl
  next hargs =>
    cases receiver with
    | container k alternate held =>
        cases args with
        | nil => exact absurd rfl (hargs k alternate held rfl)
        | cons e rest =>
            simp only [Inner.evalAll, bind_assoc, pure_bind]
            rfl
    | object c fields =>
        congr 1
        funext vs
        unfold memberCall
        cases h : objectMember? c fields name vs <;> simp only [h] <;> rfl
    | _ => rfl

/-! ## Assignments by their old value -/

def oldValue (f : Frame) (span : Span) (x : String) (op : Operator) : Run Value :=
  if op.isCompound then lookup f span x else pure .null

def oldElement (a i : Value) (op : Operator) : Run Value :=
  if op.isCompound then element a i >>= fun place => readElement place.1 place.2 else pure .null

def putVariable (f : Frame) (span : Span) (x : String) (v : Value) : Run Value := do
  rebind f span x v
  return v

def putElement (a i v : Value) : Run Value := do
  let place ← element a i
  writeElement place.1 place.2 v
  return v

def amendElement (r : Inner) (f : Frame) (op : Operator) (value : Expr) (a i : Value) :
    Run Value := do
  let old ← oldElement a i op
  let v ← combine op old (← r.eval f value)
  putElement a i v

def stepElement (delta : Int64) (trailing : Bool) (a i : Value) : Run Value := do
  let place ← element a i
  let old ← readElement place.1 place.2
  let new ← binary .add old (.int delta)
  writeElement place.1 place.2 new
  return if trailing then old else new

theorem assign_ident (r : Inner) (f : Frame) (span s : Span) (x type : String) (op : Operator)
    (value : Expr) : assign r f span (.ident s x type) op value =
      oldValue f s x op >>= fun old => r.eval f value >>= fun v =>
        combine op old v >>= putVariable f s x := by
  unfold assign oldValue
  cases op.isCompound <;> rfl

theorem assign_index (r : Inner) (f : Frame) (span s : Span) (array position : Expr)
    (type : String) (op : Operator) (value : Expr) :
    assign r f span (.index s array position type) op value =
      r.eval f array >>= fun a => r.eval f position >>= amendElement r f op value a := by
  unfold assign amendElement oldElement
  cases op.isCompound with
  | false => rfl
  | true =>
      simp only [if_true, bind_assoc]
      rfl

/-! ## Operands that decide what runs -/

/-- An operator whose right operand may not run, by its left operand. -/
def shortCircuit (r : Inner) (f : Frame) (op : Operator) (right : Expr) (l : Value) :
    Run Value := do
  let b ← truth l
  if b == (op == .or) then return .bool b
  return .bool (← r.test f right)

/-- A switch expression over the value of its selector. -/
def yieldOn (r : Inner) (f : Frame) (span : Span) (cases : List Case) (sel : Value) :
    Run Value := do
  let arms ← select r f sel [] cases
  if arms.isEmpty then Run.raise "MatchException" (← Run.text sel)
  let scope ← Run.push (some f.scope)
  catchExit (yieldArms r { f with scope } span arms)

theorem switchExpr_eq (r : Inner) (f : Frame) (span : Span) (selector : Expr)
    (cases : List Case) :
    switchExpr r f span selector cases = r.eval f selector >>= yieldOn r f span cases := by
  unfold switchExpr yieldOn
  congr 1
  funext sel
  congr 1
  funext arms
  cases arms with
  | nil => rfl
  | cons => rfl

/-- The value of an expression that may be left out. -/
def given (r : Inner) (f : Frame) (e : Expr) : Run Value :=
  if e.isMissing then pure .null else r.eval f e

def switchOn (r : Inner) (f : Frame) (sel : Value) (cases : List Case) : Run Completion := do
  let arms ← select r f sel [] cases
  if arms.isEmpty then return .normal
  let scope ← Run.push (some f.scope)
  runArms r { f with scope } arms

/-- A loop over an array, which counts its rounds before the first. -/
def overArray (r : Inner) (f : Frame) (label : String) (span : Span) (name : String) (body : Stmt) :
    Value -> Run Completion
  | .array ref => Run.size ref >>= fun count => runForEach r f label name body ref 0 count
  | .null => Run.raise "NullPointerException" "iterate over null"
  | v => do Run.fail (.cannotIterate span (← Run.text v))

theorem loop?_forEach (r : Inner) (f : Frame) (label : String) (s : Span) (name type : String)
    (iterable : Expr) (body : Stmt) : loop? r f label (.forEach s name type iterable body) =
      some (r.eval f iterable >>= overArray r f label s name body) :=
  rfl

def anchorValue (r : Inner) (f : Frame) : Stmt -> Run Value
  | .ret _ e | .var _ _ _ e => given r f e
  | .throw _ e => tryCatch (r.eval f e) fun stop =>
      match stop with
      | .exit container => throw (.thrown container)
      | stop => throw stop
  | s => r.eval f s.anchorExpr

/-- What an anchor does with the value of its expression. -/
def proceed (r : Inner) (f : Frame) (s : Stmt) (v : Value) : Run Completion :=
  match s with
  | .ret .. => return .returned v
  | .yield .. => return .yielded v
  | .throw .. =>
      match v with
      | .null => Run.raise "NullPointerException" "throw null"
      | v => throw (.thrown v)
  | .var _ name _ _ => do
      Run.define f.scope name v
      return .normal
  | .branch _ _ onTrue onFalse => do
      if ← truth v then r.exec f onTrue
      else if onFalse.isMissing then return .normal
      else r.exec f onFalse
  | .switch _ _ cases => switchOn r f v cases
  | .sync _ _ body =>
      match v with
      | .null => Run.raise "NullPointerException" "synchronized on null"
      | _ => r.execBlock f body
  | .forEach s name _ _ body => overArray r f "" s name body v
  | _ => return .normal

/-- An anchor evaluates its expression and goes on with its value. -/
theorem execStep_anchor {s : Stmt} (h : s.anchorSlot?.isSome = true) (m : Machine) (r : Inner)
    (f : Frame) : execStep m r f s = anchorValue r f s >>= proceed r f s := by
  cases s with
  | var s name type value =>
      show execStep m r f _ = given r f value >>= fun v => do
        Run.define f.scope name v
        return .normal
      cases hmissing : value.isMissing <;> simp [execStep, given, hmissing]
  | ret s value =>
      show execStep m r f _ = given r f value >>= fun v => return .returned v
      cases hmissing : value.isMissing <;> simp [execStep, given, hmissing]
  | branch s test onTrue onFalse =>
      show r.test f test >>= _ = _
      rw [Inner.test, bind_assoc]
      rfl
  | expr | yield | throw | switch | sync | forEach => rfl
  | _ => simp [Stmt.anchorSlot?] at h

namespace Logic

variable {R : Realm} {ι : Type} {L : Logic R ι} {w : R.World}

/-! ## Operations -/

theorem truth {v : Value} (hv : R.Val w v) : L.Self w (Eval.truth v) fun _ _ => True := by
  unfold Eval.truth
  split
  · exact L.pure trivial
  · exact L.fail_text hv

theorem val_arithmetic {op : Operator} {l r v : Value} (h : arithmetic op l r = some v) :
    R.Val w v := by
  unfold arithmetic at h
  split at h
  · unfold boolOp at h
    split at h <;> cases h <;> trivial
  · unfold intOp at h
    split at h <;> cases h <;> trivial
  · split at h
    · unfold floatOp at h
      split at h <;> cases h <;> trivial
    · cases h

theorem binary {op : Operator} {l r : Value} (hl : R.Val w l) (hr : R.Val w r) :
    L.Self w (Eval.binary op l r) R.Val := by
  unfold Eval.binary
  split
  · exact L.bind (L.text hl) fun _ _ hlater _ => L.bind (L.text (hr.later hlater))
      fun _ _ _ _ => L.pure trivial
  · split
    · exact L.pure trivial
    · exact L.pure trivial
    · split
      · split
        · exact L.raise
        · exact L.pure trivial
      · split
        · exact L.raise
        · exact L.pure trivial
      · split
        next h => exact L.pure (val_arithmetic h)
        next =>
          exact L.bind (L.text hl) fun _ _ hlater _ => L.bind (L.text (hr.later hlater))
            fun _ _ _ _ => L.fail

theorem unary {span : Span} {op : Operator} {v : Value} (hv : R.Val w v) :
    L.Self w (Eval.unary span op v) R.Val := by
  unfold Eval.unary
  split
  · exact L.bind (L.truth hv) fun _ _ _ _ => L.pure trivial
  all_goals first
    | exact L.pure trivial
    | exact L.fail_text hv

theorem collect {x : Run Value} (hx : ∀ w, R.Later w₀ w -> L.Self w x R.Val) (n : Nat)
    (hw : R.Later w₀ w) {done : List Value} (hdone : R.Vals w done) :
    L.Self w (Eval.collect x n done) R.Vals := by
  induction n generalizing w done with
  | zero => exact L.pure (vals_iff.2 fun v hv => vals_iff.1 hdone v (List.mem_reverse.1 hv))
  | succ n ih =>
      exact L.bind (hx w hw) fun _ _ hlater ha => ih (R.trans hw hlater) ⟨ha, hdone.later hlater⟩

/-- An array of some length, of zeros or of further arrays. -/
theorem makeRow {elemType : String} {inner : List Value} {row : Run Value} (count : Nat)
    (hrow : ∀ w', R.Later w w' -> L.Self w' row R.Val) :
    L.Self w (if inner.isEmpty then Run.alloc (List.replicate count (.zero elemType))
      else do Run.alloc (← Eval.collect row count [])) R.Val := by
  split
  · exact L.alloc (vals_iff.2 fun v hv => val_zero (List.eq_of_mem_replicate hv))
  · exact L.bind (L.collect hrow count (R.refl w) trivial) fun _ _ _ hvs => L.alloc hvs

theorem makeArray {elemType : String} {dims : List Value} (hdims : R.Vals w dims) :
    L.Self w (Eval.makeArray elemType dims) R.Val := by
  induction dims generalizing w with
  | nil => exact L.alloc trivial
  | cons dim inner ih =>
      have hrow : ∀ w', R.Later w w' -> L.Self w' (Eval.makeArray elemType inner) R.Val :=
        fun w' hlater => ih (hdims.2.later hlater)
      cases dim with
      | int n =>
          rw [Eval.makeArray]
          split
          · exact L.bind L.raise fun _ _ _ (h : False) => h.elim
          · exact L.makeRow _ hrow
      | _ => exact L.fail_text hdims.1

theorem containerMember {k : Kind} {alternate : Bool} {held : Value} {name : String}
    {args : List Value} (hheld : R.Val w held) :
    L.Self w (Eval.containerMember k alternate held name args) R.Val := by
  have habsent : L.Self w (do
      Run.raise "NoSuchElementException"
        (name ++ " on " ++ (← Run.text (.container k alternate held)))) R.Val :=
    L.bind (L.text hheld) fun _ _ _ _ => L.raise
  unfold Eval.containerMember
  split
  · exact L.pure trivial
  · split
    · split
      · exact habsent
      · exact L.pure hheld
    · split
      · exact L.pure trivial
      · split
        · split
          · exact L.pure hheld
          · exact habsent
        · exact L.fail

theorem stringMember {s name : String} {args : List Value} (hargs : R.Vals w args) :
    L.Self w (Eval.stringMember s name args) R.Val := by
  unfold Eval.stringMember
  split
  all_goals first
    | exact L.pure trivial
    | exact L.fail
    | exact L.bind (L.text hargs.1) fun _ _ _ _ => L.pure trivial

theorem val_objectMember {c name : String} {fields args : List Value} {v : Value}
    (hfields : R.Vals w fields) (h : objectMember? c fields name args = some v) : R.Val w v := by
  unfold objectMember? at h
  split at h
  · cases h
    exact val_headD hfields
  · cases h
    trivial
  · cases h

theorem combine {op : Operator} {old v : Value} (hold : R.Val w old) (hv : R.Val w v) :
    L.Self w (Eval.combine op old v) R.Val := by
  unfold Eval.combine
  split
  · exact L.binary hold hv
  · exact L.pure hv

theorem field {span : Span} {name : String} {target : Value} (h : R.Val w target) :
    L.Self w (Eval.field span name target) R.Val := by
  unfold Eval.field
  split
  next ref =>
    show L.Self w (do return .int (Int64.ofNat (← Run.size ref))) R.Val
    exact L.bind (L.size h) fun _ _ _ _ => L.pure trivial
  next => exact L.raise
  next => exact L.fail_text h

/-! ## Parts -/

/-- Interpreters that are related on all code. -/
structure Alike (L : Logic R ι) (r : ι -> Inner) (r' : Inner) : Prop where
  eval : ∀ {w f e}, R.Here w f.scope -> R.Code w f.scope e ->
    L.Rel w (fun i => (r i).eval f e) (r'.eval f e) R.Val
  exec : ∀ {w f t}, R.Here w f.scope -> R.Script w f.scope t ->
    L.Rel w (fun i => (r i).exec f t) (r'.exec f t) R.Done

namespace Alike

variable {r : ι -> Inner} {r' : Inner} (hr : L.Alike r r') {f : Frame}

include hr

theorem evalAll (hf : R.Here w f.scope) {es : List Expr} (hes : ∀ e ∈ es, R.Code w f.scope e) :
    L.Rel w (fun i => (r i).evalAll f es) (r'.evalAll f es) R.Vals := by
  induction es generalizing w with
  | nil => exact L.pure trivial
  | cons e rest ih =>
      refine L.bind (hr.eval hf (hes e (by simp))) fun w₁ v hw₁ hv => ?_
      refine L.bind (ih (R.here_later hw₁ hf) fun a ha => (hes a (by simp [ha])).later hw₁ hf)
        fun w₂ vs hw₂ hvs => ?_
      exact L.pure ⟨hv.later hw₂, hvs⟩

theorem test (hf : R.Here w f.scope) {e : Expr} (he : R.Code w f.scope e) :
    L.Rel w (fun i => (r i).test f e) (r'.test f e) fun _ _ => True :=
  L.bind (hr.eval hf he) fun _ _ _ hv => L.truth hv

theorem execAll (hf : R.Here w f.scope) {ts : List Stmt} (hts : ∀ t ∈ ts, R.Script w f.scope t) :
    L.Rel w (fun i => (r i).execAll f ts) (r'.execAll f ts) R.Done := by
  induction ts generalizing w with
  | nil => exact L.pure trivial
  | cons t rest ih =>
      refine L.bind (hr.exec hf (hts t (by simp))) fun w₁ c hw₁ hc => ?_
      cases c with
      | normal =>
          exact ih (R.here_later hw₁ hf) fun t ht => (hts t (by simp [ht])).later hw₁ hf
      | _ => exact L.pure hc

theorem execBlock (hf : R.Here w f.scope) {b : Block}
    (hb : Everywhere (R.Admits w f.scope) (ofBlock b)) :
    L.Rel w (fun i => (r i).execBlock f b) (r'.execBlock f b) R.Done := by
  have hbelow := (everywhere_iff.1 hb).2
  simp only [ofBlock, slots, stmtSlots, forall_listed] at hbelow
  exact L.bind (L.push hf) fun _ _ _ hs => hr.execAll hs.here fun t ht => hs.script (hbelow t ht)

/-! ## Calls -/

omit hr in
theorem catchExit {x : ι -> Run Value} {y : Run Value} (h : L.Rel w x y R.Val) :
    L.Rel w (fun i => Eval.catchExit (x i)) (Eval.catchExit y) R.Val := by
  unfold Eval.catchExit
  simp only [Run.tryCatch_eq]
  refine L.attempt h fun w' ending _ hends => ?_
  cases ending with
  | ok v => exact L.pure hends
  | error stop =>
      cases stop with
      | exit container => exact L.pure hends
      | _ => exact L.stop hends

omit hr in
theorem bodyValue {name : String} {c : Completion} (hc : R.Done w c) :
    L.Self w (Eval.bodyValue name c) R.Val := by
  cases c with
  | normal => exact L.pure trivial
  | returned v => exact L.pure hc
  | _ => exact L.fail

omit hr in
theorem bindParams {s : Nat} {ps : List Param} {vs : List Value} (hs : R.Here w s)
    (hdeclares : ∀ x, R.Declares w s x) (hvs : R.Vals w vs) :
    L.Self w (Eval.bindParams s ps vs) fun _ _ => True := by
  unfold Eval.bindParams
  induction ps generalizing w vs with
  | nil => exact L.pure trivial
  | cons p ps ih =>
      cases vs with
      | nil => exact L.pure trivial
      | cons v vs =>
          refine L.bind (L.define hs (hdeclares p.name) hvs.1) fun w' _ hw' _ => ?_
          exact ih (R.here_later hw' hs) (fun x => R.declares_later hw' hs (hdeclares x))
            (hvs.2.later hw')

theorem invoke {m : Machine} {callee : Method} {args : List Value} (hargs : R.Vals w args) :
    L.Rel w (fun i => Eval.invoke m (r i) callee args) (Eval.invoke m r' callee args) R.Val := by
  unfold Eval.invoke
  split
  · exact L.bind L.fail fun _ _ _ (h : False) => h.elim
  · refine L.counted (L.bind L.root fun w₁ s hw₁ hs => ?_)
    refine L.bind (bindParams hs.here hs.declares (hargs.later hw₁)) fun w₂ _ hw₂ _ => ?_
    have hs₂ := R.here_later hw₂ hs.here
    refine catchExit (L.bind (hr.execBlock hs₂ fun n _ => ?_) fun _ _ _ hc => bodyValue hc)
    exact ((hs.runs n).later hw₂ hs.here).1

theorem apply {m : Machine} {params : List Param} {body : Body} {outer : Nat}
    {args : List Value} (houter : R.Here w outer) (hbody : R.Inside w outer body)
    (hargs : R.Vals w args) :
    L.Rel w (fun i => Eval.apply m (r i) params body outer args)
      (Eval.apply m r' params body outer args) R.Val := by
  unfold Eval.apply
  by_cases harity : args.length ≠ params.length
  · simp only [if_pos harity]
    exact L.bind L.fail fun _ _ _ (h : False) => h.elim
  · simp only [if_neg harity]
    refine L.counted (L.bind (L.push houter) fun w₁ s hw₁ hs => ?_)
    refine L.bind (bindParams hs.here hs.declares (hargs.later hw₁)) fun w₂ _ hw₂ _ => ?_
    have hs₂ := R.here_later hw₂ hs.here
    have hcode : ∀ x ∈ bodySlot .body body, Everywhere (R.Admits w₂ s) x.2 := fun x hx =>
      admits_of_sealed hs₂ ((hs.inside hbody).later hw₂ hs.here x hx)
    cases body with
    | value e =>
        simp only [bodySlot, forall_single] at hcode
        cases e with
        | missing => exact L.fail
        | _ => exact catchExit (hr.eval hs₂ (code_of_inExpr hcode))
    | block b =>
        simp only [bodySlot, List.forall_mem_singleton] at hcode
        exact catchExit (L.bind (hr.execBlock hs₂ hcode) fun _ _ _ hc => bodyValue hc)

theorem plainCall {m : Machine} (hm : ∀ name fn, m.hosts name = some fn -> L.Hosts fn)
    {span : Span} {name : String} {vs : List Value} (hvs : R.Vals w vs) :
    L.Rel w (fun i => Eval.plainCall m (r i) span name vs) (Eval.plainCall m r' span name vs)
      R.Val := by
  unfold Eval.plainCall
  cases m.unit.method? name with
  | some callee => exact hr.invoke hvs
  | none =>
      cases hfn : m.hosts name with
      | some fn => exact L.host (hm name fn hfn) hvs
      | none => exact L.fail

omit hr in
theorem staticCall {m : Machine} (hm : ∀ name fn, m.hosts name = some fn -> L.Hosts fn)
    {span : Span} {className name : String} {vs : List Value} (hvs : R.Vals w vs) :
    L.Self w (Eval.staticCall m span className name vs) R.Val := by
  unfold Eval.staticCall
  cases m.registry.byName? className with
  | some k =>
      simp only [Option.elim_some]
      split
      · exact L.pure (val_alternate (val_headD hvs))
      · split
        · exact L.pure (val_success (val_headD hvs))
        · exact L.fail
  | none =>
      cases hfn : m.hosts (className ++ "." ++ name) with
      | some fn =>
          simp only [Option.elim_none, hfn, Option.elim_some]
          exact L.host (hm _ fn hfn) hvs
      | none =>
          simp only [Option.elim_none, hfn]
          exact L.fail

theorem memberCall {m : Machine} {span : Span} {receiver : Value} {name : String}
    {vs : List Value} (hreceiver : R.Val w receiver) (hvs : R.Vals w vs) :
    L.Rel w (fun i => Eval.memberCall m (r i) span receiver name vs)
      (Eval.memberCall m r' span receiver name vs) R.Val := by
  unfold Eval.memberCall
  cases receiver with
  | container k alternate held =>
      dsimp only
      split
      · unfold unwrapped
        cases m.native with
        | false => exact L.fail
        | true =>
            cases alternate with
            | true => exact L.stop (val_alternate hreceiver)
            | false => exact L.pure hreceiver
      · exact containerMember hreceiver
  | closure => exact hr.apply hreceiver.1 hreceiver.2 hvs
  | object c fields =>
      dsimp only
      cases h : objectMember? c fields name vs with
      | some v => exact L.pure (val_objectMember hreceiver h)
      | none => exact L.fail_text hreceiver
  | str => exact stringMember hvs
  | null => exact L.raise
  | _ => exact L.fail_text hreceiver

theorem callPlain {m : Machine} (hm : ∀ name fn, m.hosts name = some fn -> L.Hosts fn)
    (hf : R.Here w f.scope) {span : Span} {name : String} {args : List Expr}
    (hargs : ∀ e ∈ args, R.Code w f.scope e) :
    L.Rel w (fun i => Eval.callPlain m (r i) f span name args)
      (Eval.callPlain m r' f span name args) R.Val := by
  simp only [callPlain_eq]
  exact L.bind (hr.evalAll hf hargs) fun _ _ _ hvs => hr.plainCall hm hvs

theorem callStatic {m : Machine} (hm : ∀ name fn, m.hosts name = some fn -> L.Hosts fn)
    (hf : R.Here w f.scope) {span : Span} {className name : String} {args : List Expr}
    (hargs : ∀ e ∈ args, R.Code w f.scope e) :
    L.Rel w (fun i => Eval.callStatic m (r i) f span className name args)
      (Eval.callStatic m r' f span className name args) R.Val := by
  simp only [callStatic_eq]
  exact L.bind (hr.evalAll hf hargs) fun _ _ _ hvs => staticCall hm hvs

/-- A call on a value that is evaluated after its receiver. -/
theorem callMember {m : Machine} (hf : R.Here w f.scope) {span : Span} {receiver : Value}
    {name : String} {args : List Expr} (hreceiver : R.Val w receiver)
    (hargs : ∀ e ∈ args, R.Code w f.scope e) :
    L.Rel w (fun i => Eval.callMember m (r i) f span receiver name args)
      (Eval.callMember m r' f span receiver name args) R.Val := by
  simp only [callMember_eq]
  exact L.bind (hr.evalAll hf hargs) fun _ _ hw hvs => hr.memberCall (hreceiver.later hw) hvs

theorem call {m : Machine} (hm : ∀ name fn, m.hosts name = some fn -> L.Hosts fn)
    (hf : R.Here w f.scope) {span s : Span} {receiver : Expr} {name type : String}
    {args : List Expr} (hcode : R.Code w f.scope (.call s receiver name args type)) :
    L.Rel w (fun i => Eval.call m (r i) f span receiver name args)
      (Eval.call m r' f span receiver name args) R.Val := by
  have hbelow := (everywhere_iff.1 hcode).2
  simp only [slots, exprSlots, List.forall_mem_append, forall_single, forall_listed] at hbelow
  have hreceiver : R.Code w f.scope receiver := code_of_inExpr hbelow.1
  have hargs : ∀ e ∈ args, R.Code w f.scope e := fun e he => code_of_inExpr (hbelow.2 e he)
  have hlater {w'} (hw : R.Later w w') : ∀ e ∈ args, R.Code w' f.scope e :=
    fun e he => (hargs e he).later hw hf
  cases receiver with
  | missing => exact hr.callPlain hm hf hargs
  | ident s' className t =>
      have hreads := hreceiver.self.reads className rfl
      simp only [call_ident]
      refine L.bind (L.find hf hreads) fun w₁ found hw₁ hfound => ?_
      cases found with
      | some v => exact hr.callMember (R.here_later hw₁ hf) (hfound v rfl) (hlater hw₁)
      | none => exact hr.callStatic hm (R.here_later hw₁ hf) (hlater hw₁)
  | _ =>
      exact L.bind (hr.eval hf hreceiver) fun w₁ v hw₁ hv =>
        hr.callMember (R.here_later hw₁ hf) hv (hlater hw₁)

/-! ## Assignments -/

omit hr in
theorem lookup (hf : R.Here w f.scope) {span : Span} {x : String} (hx : R.Reads w f.scope x) :
    L.Self w (Eval.lookup f span x) R.Val := by
  rw [lookup_eq]
  refine L.bind (L.find hf hx) fun w₁ found _ hfound => ?_
  cases found with
  | some v => exact L.pure (hfound v rfl)
  | none => exact L.fail

omit hr in
theorem oldValue (hf : R.Here w f.scope) {span : Span} {x : String} (hx : R.Reads w f.scope x)
    {op : Operator} : L.Self w (Eval.oldValue f span x op) R.Val := by
  unfold Eval.oldValue
  split
  · exact lookup hf hx
  · exact L.pure trivial

omit hr in
theorem oldElement {a i : Value} (ha : R.Val w a) {op : Operator} :
    L.Self w (Eval.oldElement a i op) R.Val := by
  unfold Eval.oldElement
  split
  · exact L.bind (L.element ha) fun _ _ _ href => L.readElement href
  · exact L.pure trivial

omit hr in
theorem putVariable (hf : R.Here w f.scope) {span : Span} {x : String}
    (hx : R.Writes w f.scope x) {v : Value} (hv : R.Val w v) :
    L.Self w (Eval.putVariable f span x v) R.Val :=
  L.bind (L.rebind hf hx hv) fun _ _ hw _ => L.pure (hv.later hw)

omit hr in
theorem putElement {a i v : Value} (ha : R.Val w a) (hv : R.Val w v) :
    L.Self w (Eval.putElement a i v) R.Val := by
  refine L.bind (L.element ha) fun w₁ place hw₁ href => ?_
  refine L.bind (L.writeElement href (hv.later hw₁)) fun w₂ _ hw₂ _ => ?_
  exact L.pure (hv.later (R.trans hw₁ hw₂))

theorem amendElement (hf : R.Here w f.scope) {op : Operator} {value : Expr}
    (hvalue : R.Code w f.scope value) {a i : Value} (ha : R.Val w a) :
    L.Rel w (fun j => Eval.amendElement (r j) f op value a i)
      (Eval.amendElement r' f op value a i) R.Val := by
  refine L.bind (oldElement ha) fun w₁ old hw₁ hold => ?_
  refine L.bind (hr.eval (R.here_later hw₁ hf) (hvalue.later hw₁ hf)) fun w₂ v hw₂ hv => ?_
  refine L.bind (combine (hold.later hw₂) hv) fun w₃ v hw₃ hv => ?_
  exact putElement (ha.later (R.trans (R.trans hw₁ hw₂) hw₃)) hv

theorem assign (hf : R.Here w f.scope) {span s : Span} {target value : Expr} {op : Operator}
    (hcode : R.Code w f.scope (.assign s target op value)) :
    L.Rel w (fun i => Eval.assign (r i) f span target op value)
      (Eval.assign r' f span target op value) R.Val := by
  have hbelow := (everywhere_iff.1 hcode).2
  simp only [slots, exprSlots, List.forall_mem_append, forall_single] at hbelow
  have htarget : R.Code w f.scope target := code_of_inExpr hbelow.1
  have hvalue : R.Code w f.scope value := code_of_inExpr hbelow.2
  cases target with
  | ident s' x t =>
      have hreads := htarget.self.1 x rfl
      have hwrites := hcode.self.2 x rfl
      simp only [assign_ident]
      refine L.bind (oldValue hf hreads) fun w₁ old hw₁ hold => ?_
      have hf₁ := R.here_later hw₁ hf
      refine L.bind (hr.eval hf₁ (hvalue.later hw₁ hf)) fun w₂ v hw₂ hv => ?_
      refine L.bind (combine (hold.later hw₂) hv) fun w₃ v hw₃ hv => ?_
      have hw : R.Later w w₃ := R.trans (R.trans hw₁ hw₂) hw₃
      exact putVariable (R.here_later hw hf) (R.writes_later hw hf hwrites) hv
  | index s' array position t =>
      have hplace := (everywhere_iff.1 htarget).2
      simp only [slots, exprSlots, List.forall_mem_append, forall_single] at hplace
      have harray : R.Code w f.scope array := code_of_inExpr hplace.1
      have hposition : R.Code w f.scope position := code_of_inExpr hplace.2
      simp only [assign_index]
      refine L.bind (hr.eval hf harray) fun w₁ a hw₁ ha => ?_
      have hf₁ := R.here_later hw₁ hf
      refine L.bind (hr.eval hf₁ (hposition.later hw₁ hf)) fun w₂ i hw₂ hi => ?_
      exact hr.amendElement (R.here_later hw₂ hf₁) (hvalue.later (R.trans hw₁ hw₂) hf)
        (ha.later hw₂)
  | _ => exact L.fail

omit hr in
theorem val_stepped {trailing : Bool} {old new : Value} (hold : R.Val w old)
    (hnew : R.Val w new) : R.Val w (if trailing then old else new) := by
  split
  · exact hold
  · exact hnew

omit hr in
theorem stepElement {delta : Int64} {trailing : Bool} {a i : Value} (ha : R.Val w a) :
    L.Self w (Eval.stepElement delta trailing a i) R.Val := by
  refine L.bind (L.element ha) fun w₁ place hw₁ href => ?_
  refine L.bind (L.readElement href) fun w₂ old hw₂ hold => ?_
  refine L.bind (binary hold trivial) fun w₃ new hw₃ hnew => ?_
  have href₃ := R.refers_later (R.trans hw₂ hw₃) href
  refine L.bind (L.writeElement href₃ hnew) fun w₄ _ hw₄ _ => ?_
  exact L.pure (val_stepped (hold.later (R.trans hw₃ hw₄)) (hnew.later hw₄))

theorem step (hf : R.Here w f.scope) {span s : Span} {op : Operator} {delta : Int64}
    {operand : Expr} {trailing : Bool} (hop : op.isStep = true)
    (hcode : R.Code w f.scope (.unary s op operand trailing)) :
    L.Rel w (fun i => Eval.step (r i) f span delta operand trailing)
      (Eval.step r' f span delta operand trailing) R.Val := by
  have hbelow := (everywhere_iff.1 hcode).2
  simp only [slots, exprSlots, forall_single] at hbelow
  have hoperand : R.Code w f.scope operand := code_of_inExpr hbelow
  cases operand with
  | ident s' x t =>
      have hreads := hoperand.self.1 x rfl
      have hwrites := hcode.self.2 x (by simp [writtenName?, hop])
      refine L.bind (lookup hf hreads) fun w₁ old hw₁ hold => ?_
      refine L.bind (binary hold trivial) fun w₂ new hw₂ hnew => ?_
      have hw : R.Later w w₂ := R.trans hw₁ hw₂
      refine L.bind (L.rebind (R.here_later hw hf) (R.writes_later hw hf hwrites) hnew)
        fun w₃ _ hw₃ _ => ?_
      exact L.pure (val_stepped (hold.later (R.trans hw₂ hw₃)) (hnew.later hw₃))
  | index s' array position t =>
      have hplace := (everywhere_iff.1 hoperand).2
      simp only [slots, exprSlots, List.forall_mem_append, forall_single] at hplace
      have harray : R.Code w f.scope array := code_of_inExpr hplace.1
      have hposition : R.Code w f.scope position := code_of_inExpr hplace.2
      refine L.bind (hr.eval hf harray) fun w₁ a hw₁ ha => ?_
      have hf₁ := R.here_later hw₁ hf
      refine L.bind (hr.eval hf₁ (hposition.later hw₁ hf)) fun w₂ i hw₂ _ => ?_
      exact stepElement (ha.later hw₂)
  | _ => exact L.fail

/-! ## Switches -/

theorem matchesLabel (hf : R.Here w f.scope) {sel : Value} {labels : List Expr}
    (hlabels : ∀ e ∈ labels, R.Code w f.scope e) :
    L.Rel w (fun i => Eval.matchesLabel (r i) f sel labels) (Eval.matchesLabel r' f sel labels)
      fun _ _ => True := by
  induction labels generalizing w with
  | nil => exact L.pure trivial
  | cons e rest ih =>
      refine L.bind (hr.eval hf (hlabels e (by simp))) fun w₁ v hw₁ _ => ?_
      split
      · exact L.pure trivial
      · exact ih (R.here_later hw₁ hf) fun a ha => (hlabels a (by simp [ha])).later hw₁ hf

theorem select (hf : R.Here w f.scope) {sel : Value} {fallback cases : List Case}
    (hfallback : ∀ c ∈ fallback, R.Arm w f.scope c) (hcases : ∀ c ∈ cases, R.Arm w f.scope c) :
    L.Rel w (fun i => Eval.select (r i) f sel fallback cases)
      (Eval.select r' f sel fallback cases) fun w arms => ∀ c ∈ arms, R.Arm w f.scope c := by
  induction cases generalizing w fallback with
  | nil => exact L.pure hfallback
  | cons c rest ih =>
      unfold Eval.select
      by_cases hdefault : c.isDefault = true
      · simp only [if_pos hdefault]
        exact ih hf hcases fun c hc => hcases c (by simp [hc])
      · simp only [if_neg hdefault]
        refine L.bind (hr.matchesLabel hf (hcases c (by simp)).labels) fun w₁ b hw₁ _ => ?_
        have hlater : ∀ c' ∈ c :: rest, R.Arm w₁ f.scope c' := fun c' hc' =>
          (hcases c' hc').later hw₁ hf
        cases b with
        | true => exact L.pure hlater
        | false =>
            exact ih (R.here_later hw₁ hf) (fun c hc => (hfallback c hc).later hw₁ hf)
              fun c hc => hlater c (by simp [hc])

/-- The statements of arms, in a scope where they may be executed. -/
theorem runArms (hf : R.Here w f.scope) {cases : List Case}
    (hcases : ∀ c ∈ cases, ∀ t ∈ c.body, R.Script w f.scope t) :
    L.Rel w (fun i => Eval.runArms (r i) f cases) (Eval.runArms r' f cases) R.Done := by
  induction cases generalizing w with
  | nil => exact L.pure trivial
  | cons c rest ih =>
      refine L.bind (hr.execAll hf (hcases c (by simp))) fun w₁ ending hw₁ hending => ?_
      have hrest := ih (R.here_later hw₁ hf) fun c hc t ht =>
        (hcases c (by simp [hc]) t ht).later hw₁ hf
      split
      · split
        · exact L.pure trivial
        · exact hrest
      · exact L.pure trivial
      · exact L.pure hending

theorem yieldArms (hf : R.Here w f.scope) {span : Span} {cases : List Case}
    (hcases : ∀ c ∈ cases, ∀ t ∈ c.body, R.Script w f.scope t) :
    L.Rel w (fun i => Eval.yieldArms (r i) f span cases) (Eval.yieldArms r' f span cases)
      R.Val := by
  induction cases generalizing w with
  | nil => exact L.fail
  | cons c rest ih =>
      refine L.bind (hr.execAll hf (hcases c (by simp))) fun w₁ ending hw₁ hending => ?_
      have hrest := ih (R.here_later hw₁ hf) fun c hc t ht =>
        (hcases c (by simp [hc]) t ht).later hw₁ hf
      split
      · exact L.pure hending
      · split
        · exact L.fail
        · exact hrest
      · exact L.fail

theorem yieldOn (hf : R.Here w f.scope) {span : Span} {cases : List Case}
    (hcases : ∀ c ∈ cases, R.Arm w f.scope c) {sel : Value} (hsel : R.Val w sel) :
    L.Rel w (fun i => Eval.yieldOn (r i) f span cases sel) (Eval.yieldOn r' f span cases sel)
      R.Val := by
  refine L.bind (hr.select hf (by simp) hcases) fun w₁ arms hw₁ harms => ?_
  cases arms with
  | nil =>
      exact L.bind (L.text (hsel.later hw₁)) fun _ _ _ _ =>
        L.bind L.raise fun _ _ _ (h : False) => h.elim
  | cons c rest =>
      refine L.bind (L.push (R.here_later hw₁ hf)) fun w₂ s hw₂ hs => catchExit ?_
      exact hr.yieldArms hs.here fun c hc t ht => hs.script ((harms c hc).body t ht)

theorem switchExpr (hf : R.Here w f.scope) {span : Span} {selector : Expr} {cases : List Case}
    (hselector : R.Code w f.scope selector) (hcases : ∀ c ∈ cases, R.Arm w f.scope c) :
    L.Rel w (fun i => Eval.switchExpr (r i) f span selector cases)
      (Eval.switchExpr r' f span selector cases) R.Val := by
  simp only [switchExpr_eq]
  exact L.bind (hr.eval hf hselector) fun _ _ hw₁ hsel =>
    hr.yieldOn (R.here_later hw₁ hf) (fun c hc => (hcases c hc).later hw₁ hf) hsel

theorem switchOn (hf : R.Here w f.scope) {sel : Value} {cases : List Case}
    (hcases : ∀ c ∈ cases, R.Arm w f.scope c) :
    L.Rel w (fun i => Eval.switchOn (r i) f sel cases) (Eval.switchOn r' f sel cases) R.Done := by
  refine L.bind (hr.select hf (by simp) hcases) fun w₁ arms hw₁ harms => ?_
  split
  · exact L.pure trivial
  · refine L.bind (L.push (R.here_later hw₁ hf)) fun w₂ s hw₂ hs => ?_
    exact hr.runArms hs.here fun c hc t ht => hs.script ((harms c hc).body t ht)

/-! ## Expressions -/

theorem template (hf : R.Here w f.scope) {done : String} {fragments : List String}
    {values : List Expr} (hvalues : ∀ e ∈ values, R.Code w f.scope e) :
    L.Rel w (fun i => Eval.template (r i) f done fragments values)
      (Eval.template r' f done fragments values) R.Val := by
  induction fragments generalizing w done values with
  | nil => exact L.pure trivial
  | cons t ts ih =>
      cases values with
      | nil => exact ih hf (by simp)
      | cons e rest =>
          refine L.bind (hr.eval hf (hvalues e (by simp))) fun w₁ v hw₁ hv => ?_
          refine L.bind (L.text hv) fun w₂ text hw₂ _ => ?_
          have hw : R.Later w w₂ := R.trans hw₁ hw₂
          exact ih (R.here_later hw hf) fun e he => (hvalues e (by simp [he])).later hw hf

theorem shortCircuit (hf : R.Here w f.scope) {op : Operator} {right : Expr}
    (hright : R.Code w f.scope right) {l : Value} (hl : R.Val w l) :
    L.Rel w (fun i => Eval.shortCircuit (r i) f op right l) (Eval.shortCircuit r' f op right l)
      R.Val := by
  refine L.bind (truth hl) fun w₁ b hw₁ _ => ?_
  split
  · exact L.pure trivial
  · exact L.bind (hr.test (R.here_later hw₁ hf) (hright.later hw₁ hf))
      fun _ _ _ _ => L.pure trivial

theorem binaryExpr (hf : R.Here w f.scope) {left right : Expr} {op : Operator}
    (hleft : R.Code w f.scope left) (hright : R.Code w f.scope right) {m : Machine} {s : Span} :
    L.Rel w (fun i => evalStep m (r i) f (.binary s left op right))
      (evalStep m r' f (.binary s left op right)) R.Val := by
  refine L.bind (hr.eval hf hleft) fun w₁ l hw₁ hl => ?_
  have hf₁ := R.here_later hw₁ hf
  have hright₁ := hright.later hw₁ hf
  cases op.isShortCircuit with
  | true => exact hr.shortCircuit hf₁ hright₁ hl
  | false => exact L.bind (hr.eval hf₁ hright₁) fun _ _ hw₂ hv => binary (hl.later hw₂) hv

/-- Interpreters that are alike on the parts of an expression are alike on it. -/
theorem evalStep {m : Machine} (hm : ∀ name fn, m.hosts name = some fn -> L.Hosts fn)
    (hf : R.Here w f.scope) {e : Expr} (he : R.Code w f.scope e) :
    L.Rel w (fun i => evalStep m (r i) f e) (Eval.evalStep m r' f e) R.Val := by
  have hbelow := (everywhere_iff.1 he).2
  cases e with
  | missing => exact L.fail
  | ident s x t => exact lookup hf (he.self.1 x rfl)
  | literal s value raw => exact L.pure (val_ofLiteral value)
  | call s receiver name args t => exact hr.call hm hf he
  | field s target name t =>
      simp only [slots, exprSlots, forall_single] at hbelow
      exact L.bind (hr.eval hf (code_of_inExpr hbelow)) fun _ _ _ hv => field hv
  | assign s target op value => exact hr.assign hf he
  | binary s left op right =>
      simp only [slots, exprSlots, List.forall_mem_append, forall_single] at hbelow
      exact hr.binaryExpr hf (code_of_inExpr hbelow.1) (code_of_inExpr hbelow.2)
  | unary s op operand trailing =>
      simp only [slots, exprSlots, forall_single] at hbelow
      cases op with
      | inc => exact hr.step hf rfl he
      | dec => exact hr.step hf rfl he
      | _ => exact L.bind (hr.eval hf (code_of_inExpr hbelow)) fun _ _ _ hv => unary hv
  | conditional s test onTrue onFalse t =>
      simp only [slots, exprSlots, List.forall_mem_append, forall_single] at hbelow
      refine L.bind (hr.test hf (code_of_inExpr hbelow.1.1)) fun w₁ b hw₁ _ => ?_
      have hf₁ := R.here_later hw₁ hf
      cases b with
      | true => exact hr.eval hf₁ ((code_of_inExpr hbelow.1.2).later hw₁ hf)
      | false => exact hr.eval hf₁ ((code_of_inExpr hbelow.2).later hw₁ hf)
  | index s array position t =>
      simp only [slots, exprSlots, List.forall_mem_append, forall_single] at hbelow
      refine L.bind (hr.eval hf (code_of_inExpr hbelow.1)) fun w₁ a hw₁ ha => ?_
      have hf₁ := R.here_later hw₁ hf
      refine L.bind (hr.eval hf₁ ((code_of_inExpr hbelow.2).later hw₁ hf)) fun w₂ i hw₂ _ => ?_
      exact L.bind (L.element (ha.later hw₂)) fun _ _ _ href => L.readElement href
  | newArray s elemType dims elements listed =>
      simp only [slots, exprSlots, List.forall_mem_append, forall_listed] at hbelow
      unfold Eval.evalStep
      dsimp only
      split
      · exact L.bind (hr.evalAll hf fun e he => code_of_inExpr (hbelow.2 e he))
          fun _ _ _ hvs => L.alloc hvs
      · exact L.bind (hr.evalAll hf fun e he => code_of_inExpr (hbelow.1 e he))
          fun _ _ _ hvs => makeArray hvs
  | newObject s className args =>
      simp only [slots, exprSlots, forall_listed] at hbelow
      exact L.bind (hr.evalAll hf fun e he => code_of_inExpr (hbelow e he))
        fun _ _ _ hvs => L.pure hvs
  | lambda s params body =>
      exact L.close hf (he.self.makes s params body rfl)
  | switch s selector cases t =>
      simp only [slots, exprSlots, List.forall_mem_append, forall_single, forall_listed] at hbelow
      exact hr.switchExpr hf (code_of_inExpr hbelow.1) fun c hc => hbelow.2 c hc _ rfl
  | template s processor fragments values =>
      simp only [slots, exprSlots, forall_listed] at hbelow
      exact hr.template hf fun e he => code_of_inExpr (hbelow e he)

/-! ## Loops -/

/-- Numbers of rounds that the sides of a comparison may have. -/
def Rounds (L : Logic R ι) (k k' : Nat) : Prop :=
  k = k' ∨ L.lax ∧ k ≤ k'

omit hr in
theorem rounds_succ {k k' : Nat} (h : Rounds L (k + 1) k') :
    ∃ k'', k' = k'' + 1 ∧ Rounds L k k'' := by
  rcases h with rfl | ⟨hlax, hle⟩
  · exact ⟨k, rfl, .inl rfl⟩
  · exact ⟨k' - 1, by omega, .inr ⟨hlax, by omega⟩⟩

omit hr in
theorem noRounds {α : Type} {k' : Nat} (h : Rounds L 0 k') {y : Run α}
    (hy : k' = 0 -> y = throw .outOfFuel) {Q : R.World -> α -> Prop} :
    L.Rel w (fun _ => throw .outOfFuel) y Q := by
  rcases h with heq | ⟨hlax, _⟩
  · rw [hy heq.symm]
    exact L.stop trivial
  · exact L.below hlax

omit hr in
theorem done_afterBody {label : String} {c c' : Completion} (hc : R.Done w c)
    (h : afterBody label c = some c') : R.Done w c' := by
  cases c with
  | normal => cases h
  | returned | yielded =>
      cases h
      exact hc
  | broke | continued =>
      simp only [afterBody] at h
      split at h
      all_goals cases h
      all_goals trivial

theorem runWhile {k k' : Nat} (hk : Rounds L k k') (hf : R.Here w f.scope) {label : String}
    {test : ι -> Run Bool} {test' : Run Bool}
    (htest : ∀ w', R.Later w w' -> L.Rel w' test test' fun _ _ => True) {body : Stmt}
    (hbody : R.Script w f.scope body) {update : List Expr}
    (hupdate : ∀ e ∈ update, R.Code w f.scope e) :
    L.Rel w (fun i => Eval.runWhile (r i) f label (test i) body update k)
      (Eval.runWhile r' f label test' body update k') R.Done := by
  induction k generalizing w k' with
  | zero => exact noRounds hk fun h => by rw [h]; rfl
  | succ k ih =>
      obtain ⟨k'', rfl, hrounds⟩ := rounds_succ hk
      refine L.bind (htest w (R.refl w)) fun w₁ b hw₁ _ => ?_
      have hf₁ := R.here_later hw₁ hf
      cases b with
      | false => exact L.pure trivial
      | true =>
          refine L.bind (hr.exec hf₁ (hbody.later hw₁ hf)) fun w₂ c hw₂ hc => ?_
          split
          next h => exact L.pure (done_afterBody hc h)
          next =>
            have hf₂ := R.here_later hw₂ hf₁
            have hw₂ := R.trans hw₁ hw₂
            refine L.bind (hr.evalAll hf₂ fun e he => (hupdate e he).later hw₂ hf)
              fun w₃ _ hw₃ _ => ?_
            have hw := R.trans hw₂ hw₃
            exact ih hrounds (R.here_later hw hf) (fun w' hw' => htest w' (R.trans hw hw'))
              (hbody.later hw hf) fun e he => (hupdate e he).later hw hf

theorem runDoWhile {k k' : Nat} (hk : Rounds L k k') (hf : R.Here w f.scope) {label : String}
    {test : Expr} (htest : R.Code w f.scope test) {body : Stmt}
    (hbody : R.Script w f.scope body) :
    L.Rel w (fun i => Eval.runDoWhile (r i) f label ((r i).test f test) body k)
      (Eval.runDoWhile r' f label (r'.test f test) body k') R.Done := by
  induction k generalizing w k' with
  | zero => exact noRounds hk fun h => by rw [h]; rfl
  | succ k ih =>
      obtain ⟨k'', rfl, hrounds⟩ := rounds_succ hk
      refine L.bind (hr.exec hf hbody) fun w₁ c hw₁ hc => ?_
      split
      next h => exact L.pure (done_afterBody hc h)
      next =>
        have hf₁ := R.here_later hw₁ hf
        refine L.bind (hr.test hf₁ (htest.later hw₁ hf)) fun w₂ b hw₂ _ => ?_
        have hw := R.trans hw₁ hw₂
        cases b with
        | true => exact ih hrounds (R.here_later hw hf) (htest.later hw hf) (hbody.later hw hf)
        | false => exact L.pure trivial

theorem runForEach (hf : R.Here w f.scope) {label name : String} {body : Stmt}
    (hbody : InStmt (R.Admits w f.scope) body) {ref i left : Nat} (href : R.Refers w ref) :
    L.Rel w (fun j => Eval.runForEach (r j) f label name body ref i left)
      (Eval.runForEach r' f label name body ref i left) R.Done := by
  induction left generalizing w i with
  | zero => exact L.pure trivial
  | succ left ih =>
      refine L.bind (L.readElement href) fun w₁ v hw₁ hv => ?_
      have hf₁ := R.here_later hw₁ hf
      have hbody₁ : InStmt (R.Admits w₁ f.scope) body := fun n hn =>
        (hbody n hn).imp fun _ hc => hc.later hw₁ hf
      refine L.bind (L.push hf₁) fun w₂ s hw₂ hs => ?_
      refine L.bind (L.define hs.here (hs.declares name) (hv.later hw₂)) fun w₃ _ hw₃ _ => ?_
      refine L.bind (hr.exec (R.here_later hw₃ hs.here) ((hs.script hbody₁).later hw₃ hs.here))
        fun w₄ c hw₄ hc => ?_
      split
      next h => exact L.pure (done_afterBody hc h)
      next =>
        have hw : R.Later w w₄ := R.trans (R.trans (R.trans hw₁ hw₂) hw₃) hw₄
        exact ih (R.here_later hw hf) (fun n hn => (hbody n hn).imp fun _ hc => hc.later hw hf)
          (R.refers_later hw href)

theorem overArray (hf : R.Here w f.scope) {label name : String} {span : Span} {body : Stmt}
    (hbody : InStmt (R.Admits w f.scope) body) {v : Value} (hv : R.Val w v) :
    L.Rel w (fun i => Eval.overArray (r i) f label span name body v)
      (Eval.overArray r' f label span name body v) R.Done := by
  cases v with
  | array ref =>
      refine L.bind (L.size hv) fun w₁ count hw₁ _ => ?_
      exact hr.runForEach (R.here_later hw₁ hf)
        (fun n hn => (hbody n hn).imp fun _ hc => hc.later hw₁ hf) (R.refers_later hw₁ hv)
  | null => exact L.raise
  | _ => exact L.fail_text hv

def countsRounds : Stmt -> Bool
  | .forLoop .. | .whileLoop .. | .doWhile .. => true
  | _ => false

/-- Whether a statement or the one under its label counts the rounds of a loop. -/
def isRepeating : Stmt -> Bool
  | .labeled _ _ body => countsRounds body
  | t => countsRounds t

/-- The interpreters have the same fuel for loops, or the second more where that is allowed. -/
def Fuelled (L : Logic R ι) (r : ι -> Inner) (r' : Inner) : Prop :=
  ∃ k, (∀ i, (r i).fuel = k) ∧ Rounds L k r'.fuel

omit hr in
theorem inStmt_admits {s : Nat} {t : Stmt} (h : InStmt (R.Runs w s) t) :
    InStmt (R.Admits w s) t :=
  fun n hn => (h n hn).imp fun _ hc => hc.1

theorem loop (label : String) {t : Stmt} (hf : R.Here w f.scope) (ht : R.Script w f.scope t)
    (hfuel : countsRounds t = true -> Fuelled L r r') :
    (∀ i, loop? (r i) f label t = none) ∧ loop? r' f label t = none ∨
      ∃ x y, (∀ i, loop? (r i) f label t = some (x i)) ∧ loop? r' f label t = some y ∧
        L.Rel w x y R.Done := by
  have hbelow := (everywhere_iff.1 ht).2
  cases t with
  | forLoop s init test update body =>
      simp only [slots, stmtSlots, List.forall_mem_append, forall_single, forall_listed] at hbelow
      obtain ⟨⟨⟨hinit, htest⟩, hbody⟩, hupdate⟩ := hbelow
      obtain ⟨k, hk, hrounds⟩ := hfuel rfl
      refine .inr ⟨_, _, fun i => rfl, rfl, ?_⟩
      refine L.bind (L.push hf) fun w₁ s hw₁ hs => ?_
      refine L.bind (hr.execAll hs.here fun t ht => hs.script (inStmt_admits (hinit t ht)))
        fun w₂ c hw₂ hc => ?_
      cases c with
      | normal =>
          simp only [hk]
          have hf₂ := R.here_later hw₂ hs.here
          have htest₂ := (hs.code (code_of_script htest)).later hw₂ hs.here
          refine hr.runWhile hrounds hf₂ (fun w₃ hw₃ => ?_)
            ((hs.script (inStmt_admits hbody)).later hw₂ hs.here)
            fun e he => (hs.code (code_of_script (hupdate e he))).later hw₂ hs.here
          split
          · exact L.pure trivial
          · exact hr.test (R.here_later hw₃ hf₂) (htest₂.later hw₃ hf₂)
      | _ => exact L.pure hc
  | forEach s name type iterable body =>
      simp only [slots, stmtSlots, List.forall_mem_append, forall_single] at hbelow
      refine .inr ⟨_, _, fun i => loop?_forEach .., loop?_forEach .., ?_⟩
      refine L.bind (hr.eval hf (code_of_script hbelow.1)) fun w₁ v hw₁ hv => ?_
      exact hr.overArray (R.here_later hw₁ hf)
        (fun n hn => (hbelow.2 n hn).imp fun _ hc => hc.1.later hw₁ hf) hv
  | whileLoop s test body =>
      simp only [slots, stmtSlots, List.forall_mem_append, forall_single] at hbelow
      obtain ⟨k, hk, hrounds⟩ := hfuel rfl
      refine .inr ⟨_, _, fun i => rfl, rfl, ?_⟩
      simp only [hk]
      have htest := code_of_script hbelow.1
      exact hr.runWhile hrounds hf
        (fun w₁ hw₁ => hr.test (R.here_later hw₁ hf) (htest.later hw₁ hf))
        (script_of_inStmt hbelow.2) (by simp)
  | doWhile s body test =>
      simp only [slots, stmtSlots, List.forall_mem_append, forall_single] at hbelow
      obtain ⟨k, hk, hrounds⟩ := hfuel rfl
      refine .inr ⟨_, _, fun i => rfl, rfl, ?_⟩
      simp only [hk]
      exact hr.runDoWhile hrounds hf (code_of_script hbelow.2) (script_of_inStmt hbelow.1)
  | _ => exact .inl ⟨fun i => rfl, rfl⟩

/-! ## Statements -/

/-- A catch clause that may be run in a scope inside the one its statement is executed in. -/
theorem handle (hf : R.Here w f.scope) {v : Value} (hv : R.Val w v) {clauses : List Catch}
    (hclauses : ∀ c ∈ clauses, Everywhere (R.Admits w f.scope) (.clause c)) {stop : Stop}
    (hstop : R.Carries w stop) :
    L.Rel w (fun i => (Eval.handle (r i) f v clauses).getD (throw stop))
      ((Eval.handle r' f v clauses).getD (throw stop)) R.Done := by
  induction clauses with
  | nil => exact L.stop hstop
  | cons c rest ih =>
      unfold Eval.handle
      by_cases hcatches : catches c.param v = true
      · simp only [if_pos hcatches, Option.getD_some]
        have hbelow := (everywhere_iff.1 (hclauses c (by simp))).2
        simp only [slots, List.forall_mem_append, List.forall_mem_singleton] at hbelow
        refine L.bind (L.push hf) fun w₁ s hw₁ hs => ?_
        have hbody : Everywhere (R.Admits w₁ s) (ofBlock c.body) :=
          hbelow.2.imp fun _ hc => (hs.runs hc).1
        cases c.param with
        | none => exact hr.execBlock (f := ⟨s⟩) hs.here hbody
        | some p =>
            refine L.bind (L.define hs.here (hs.declares p.name) (hv.later hw₁))
              fun w₂ _ hw₂ _ => ?_
            exact hr.execBlock (f := ⟨s⟩) (R.here_later hw₂ hs.here)
              (hbody.imp fun _ hc => hc.later hw₂ hs.here)
      · simp only [if_neg hcatches]
        exact ih fun c hc => hclauses c (by simp [hc])

theorem guarded (hf : R.Here w f.scope) {resources : List Stmt} {body : Block}
    {clauses : List Catch} (hresources : ∀ t ∈ resources, InStmt (R.Admits w f.scope) t)
    (hbody : Everywhere (R.Admits w f.scope) (ofBlock body))
    (hclauses : ∀ c ∈ clauses, Everywhere (R.Admits w f.scope) (.clause c)) :
    L.Rel w (fun i => Eval.guarded (r i) f resources body clauses)
      (Eval.guarded r' f resources body clauses) R.Done := by
  unfold Eval.guarded
  simp only [Run.tryCatch_eq]
  refine L.attempt (P := R.Done) ?_ fun w' ending hw' hends => ?_
  · refine L.bind (L.push hf) fun w₁ s hw₁ hs => ?_
    refine L.bind (hr.execAll hs.here fun t ht => hs.script (hresources t ht))
      fun w₂ c hw₂ hc => ?_
    cases c with
    | normal =>
        exact hr.execBlock (R.here_later hw₂ hs.here)
          (hbody.imp fun _ hc => ((hs.runs hc).later hw₂ hs.here).1)
    | _ => exact L.pure hc
  · cases ending with
    | ok c => exact L.pure hends
    | error stop =>
        cases stop with
        | thrown v =>
            exact hr.handle (R.here_later hw' hf) hends
              (fun c hc => (hclauses c hc).imp fun _ hn => hn.later hw' hf) hends
        | _ => exact L.stop hends

omit hr in
theorem withCleanup {cleanup x : ι -> Run Completion} {cleanup' y : Run Completion}
    (hcleanup : ∀ w', R.Later w w' -> L.Rel w' cleanup cleanup' R.Done)
    (hx : L.Rel w x y R.Done) :
    L.Rel w (fun i => Eval.withCleanup (cleanup i) (x i)) (Eval.withCleanup cleanup' y) R.Done := by
  simp only [withCleanup_eq]
  refine L.attempt hx fun w₁ ending hw₁ hends => ?_
  refine L.bind (hcleanup w₁ hw₁) fun w₂ c hw₂ hc => ?_
  cases c with
  | normal =>
      cases ending with
      | ok c => exact L.pure (done_later hw₂ hends)
      | error stop => exact L.stop (carries_later hw₂ hends)
  | _ => exact L.pure hc

theorem given (hf : R.Here w f.scope) {e : Expr} (he : R.Code w f.scope e) :
    L.Rel w (fun i => Eval.given (r i) f e) (Eval.given r' f e) R.Val := by
  unfold Eval.given
  cases e.isMissing with
  | true => exact L.pure trivial
  | false => exact hr.eval hf he

theorem anchorValue (hf : R.Here w f.scope) {s : Stmt} (hs : R.Code w f.scope s.anchorExpr) :
    L.Rel w (fun i => Eval.anchorValue (r i) f s) (Eval.anchorValue r' f s) R.Val := by
  cases s with
  | ret | var => exact hr.given hf hs
  | throw s e =>
      unfold Eval.anchorValue
      simp only [Run.tryCatch_eq]
      refine L.attempt (hr.eval hf hs) fun w₁ ending _ hends => ?_
      cases ending with
      | ok v => exact L.pure hends
      | error stop => cases stop <;> exact L.stop hends
  | _ => exact hr.eval hf hs

/-- What follows the expression of an anchor. -/
theorem proceed (hf : R.Here w f.scope) {s : Stmt} (hs : R.Script w f.scope s) {v : Value}
    (hv : R.Val w v) :
    L.Rel w (fun i => Eval.proceed (r i) f s v) (Eval.proceed r' f s v) R.Done := by
  have hbelow := (everywhere_iff.1 hs).2
  cases s with
  | ret | yield => exact L.pure hv
  | throw =>
      cases v with
      | null => exact L.raise
      | _ => exact L.stop hv
  | var s name type value =>
      exact L.bind (L.define hf (hs.self.2 name rfl) hv) fun _ _ _ _ => L.pure trivial
  | branch s test onTrue onFalse =>
      simp only [slots, stmtSlots, List.forall_mem_append, forall_single] at hbelow
      refine L.bind (truth hv) fun w₁ b hw₁ _ => ?_
      have hf₁ := R.here_later hw₁ hf
      cases b with
      | true => exact hr.exec hf₁ ((script_of_inStmt hbelow.1.2).later hw₁ hf)
      | false =>
          cases hmissing : onFalse.isMissing with
          | true => exact L.pure trivial
          | false => exact hr.exec hf₁ ((script_of_inStmt hbelow.2).later hw₁ hf)
  | switch s selector cases =>
      simp only [slots, stmtSlots, List.forall_mem_append, forall_single, forall_listed] at hbelow
      exact hr.switchOn hf fun c hc => (hbelow.2 c hc _ rfl).imp fun _ hn => hn.1
  | sync s monitor body =>
      simp only [slots, stmtSlots, List.forall_mem_append, forall_single,
        List.forall_mem_singleton] at hbelow
      cases v with
      | null => exact L.raise
      | _ => exact hr.execBlock hf (hbelow.2.imp fun _ hc => hc.1)
  | forEach s name type iterable body =>
      simp only [slots, stmtSlots, List.forall_mem_append, forall_single] at hbelow
      exact hr.overArray hf (fun n hn => (hbelow.2 n hn).imp fun _ hc => hc.1) hv
  | _ => exact L.pure trivial

omit hr in
/-- The expression of an anchor may be evaluated where the anchor may be executed. -/
theorem code_anchor {s : Stmt} (hs : R.Script w f.scope s) : R.Code w f.scope s.anchorExpr := by
  have hbelow := (everywhere_iff.1 hs).2
  cases s
  all_goals
    simp only [slots, stmtSlots, List.forall_mem_append, forall_single] at hbelow
    first
      | exact code_of_inExpr (inExpr_missing _)
      | exact code_of_script hbelow
      | exact code_of_script hbelow.1
      | exact code_of_script hbelow.1.1

theorem anchor {m : Machine} (hf : R.Here w f.scope) {s : Stmt} (hs : R.Script w f.scope s)
    (hslot : s.anchorSlot?.isSome = true) :
    L.Rel w (fun i => Eval.execStep m (r i) f s) (Eval.execStep m r' f s) R.Done := by
  simp only [execStep_anchor hslot]
  refine L.bind (hr.anchorValue hf (code_anchor hs)) fun w₁ v hw₁ hv => ?_
  exact hr.proceed (R.here_later hw₁ hf) (hs.later hw₁ hf) hv

theorem execAssert {m : Machine} (hf : R.Here w f.scope) {test message : Expr}
    (htest : R.Code w f.scope test) (hmessage : R.Code w f.scope message) :
    L.Rel w (fun i => Eval.execAssert m (r i) f test message)
      (Eval.execAssert m r' f test message) R.Done := by
  unfold Eval.execAssert
  cases m.assertions with
  | false => exact L.pure trivial
  | true =>
      refine L.bind (hr.test hf htest) fun w₁ b hw₁ _ => ?_
      cases b with
      | true => exact L.pure trivial
      | false =>
          cases hmissing : message.isMissing with
          | true => exact L.raise
          | false =>
              exact L.bind (hr.eval (R.here_later hw₁ hf) (hmessage.later hw₁ hf))
                fun _ _ _ hv => L.bind (L.text hv) fun _ _ _ _ => L.raise

/-- Interpreters that are alike on the parts of a statement are alike on it. -/
theorem execStep {m : Machine} {t : Stmt} (hfuel : isRepeating t = true -> Fuelled L r r')
    (hf : R.Here w f.scope) (ht : R.Script w f.scope t) :
    L.Rel w (fun i => execStep m (r i) f t) (Eval.execStep m r' f t) R.Done := by
  have hbelow := (everywhere_iff.1 ht).2
  cases t with
  | missing => exact L.fail
  | block b => exact hr.execBlock hf (ht.imp fun _ hc => hc.1)
  | expr | var | ret | yield | throw | branch | switch | sync => exact hr.anchor hf ht rfl
  | labeled s label body =>
      simp only [slots, stmtSlots, forall_single] at hbelow
      have hbody := script_of_inStmt hbelow
      unfold Eval.execStep
      rcases hr.loop label hf hbody hfuel with ⟨hnone, hnone'⟩ | ⟨x, y, hx, hy, hrel⟩
      · simp only [hnone, hnone']
        refine L.bind (hr.exec hf hbody) fun w₁ c _ hc => ?_
        cases c with
        | broke l =>
            dsimp only
            split <;> exact L.pure trivial
        | _ => exact L.pure hc
      · simp only [hx, hy]
        exact hrel
  | breakTo | continueTo => exact L.pure trivial
  | tryCatch s resources body clauses cleanup =>
      simp only [slots, stmtSlots, List.forall_mem_append, forall_single, forall_listed,
        List.forall_mem_singleton] at hbelow
      obtain ⟨⟨⟨hresources, hbody⟩, hclauses⟩, hcleanup⟩ := hbelow
      have hx := hr.guarded hf (fun t ht => inStmt_admits (hresources t ht))
        (hbody.imp fun _ hc => hc.1) fun c hc => (hclauses c hc _ rfl).imp fun _ hn => hn.1
      cases cleanup with
      | none => exact hx
      | some b =>
          refine withCleanup (fun w₁ hw₁ => hr.execBlock (R.here_later hw₁ hf) ?_) hx
          exact (hcleanup _ rfl).imp fun _ hc => hc.1.later hw₁ hf
  | assert s test message =>
      simp only [slots, stmtSlots, List.forall_mem_append, forall_single] at hbelow
      exact hr.execAssert hf (code_of_script hbelow.1) (code_of_script hbelow.2)
  | forLoop | forEach | whileLoop | doWhile =>
      rcases hr.loop "" hf ht hfuel with ⟨_, hnone⟩ | ⟨x, y, hx, hy, hrel⟩
      · cases hnone
      · unfold Eval.execStep
        simp only [hx, hy]
        exact hrel

end Alike

end Logic

end EarlyExit.Eval
