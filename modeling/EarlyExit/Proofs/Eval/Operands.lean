import EarlyExit.Proofs.Eval.Limit

/-!
# Operands in their turn

The operands of an expression that are evaluated whatever the others give, in order, and the
operation on their values that follows.  Evaluation comes to such an operand when those
before it have given values.
-/

namespace EarlyExit.Eval

open Node Expansion Realm Run

/-! ## Calls -/

inductive Callee
  | unit
  | value (v : Value)
  | named (className : String)

/-- What the receiver of a call stands for: a name that is not bound stands for a class. -/
def callee (r : Inner) (f : Frame) : Expr -> Run Callee
  | .missing => pure .unit
  | .ident _ x _ => do return (← Run.find f.scope x).elim (.named x) .value
  | e => do return .value (← r.eval f e)

def calling (m : Machine) (r : Inner) (span : Span) (name : String) :
    Callee -> List Value -> Run Value
  | .unit => plainCall m r span name
  | .value v => memberCall m r span v name
  | .named c => staticCall m span c name

theorem call_eq (m : Machine) (r : Inner) (f : Frame) (span : Span) (receiver : Expr)
    (name : String) (args : List Expr) :
    call m r f span receiver name args = callee r f receiver >>= fun c =>
      r.evalAll f args >>= calling m r span name c := by
  cases receiver with
  | missing => exact callPlain_eq m r f span name args
  | ident s x t =>
      rw [call_ident]
      simp only [callee, bind_assoc, pure_bind]
      congr 1
      funext found
      cases found with
      | none => exact callStatic_eq m r f span x name args
      | some v => exact callMember_eq m r f span v name args
  | _ =>
      simp only [callee, bind_assoc, pure_bind]
      show (_ >>= fun v => callMember m r f span v name args) = _
      congr 1
      funext v
      exact callMember_eq m r f span v name args

/-- A receiver that has a value stands for it. -/
theorem callee_of_eval {m : Machine} {f : Frame} {e : Expr} {v : Value} {st st' : Store}
    (h : evalFully m f e st = .ok v st') : callee (fully m) f e st = .ok (.value v) st' := by
  have hended : evalFully m f e st = ended (.ok v) st' := h
  have hstep : evalStep m (fully m) f e st = .ok v st' := by
    have hsame : Same (evalStep m (fully m) f e st) (ended (.ok v) st') := by
      rw [← hended]
      exact (evalFully_step m f e st).symm
    exact hsame.eq_ended nofun
  cases e with
  | missing => cases hstep
  | ident s x t =>
      cases hfound : st.get? f.scope x with
      | none =>
          rw [show evalStep m (fully m) f (.ident s x t) st = lookup f s x st from rfl,
            lookup_none hfound s] at hstep
          cases hstep
      | some u =>
          rw [show evalStep m (fully m) f (.ident s x t) st = lookup f s x st from rfl,
            lookup_some hfound s] at hstep
          cases hstep
          show (.ok ((st.get? f.scope x).elim _ _) st : EStateM.Result Stop Store Callee) = _
          rw [hfound]
          rfl
  | _ => exact bind_ended (show (fully m).eval f _ st = ended (.ok v) st' from hended) _

/-! ## Elements -/

def elementValue (a i : Value) : Run Value := do
  let place ← element a i
  readElement place.1 place.2

namespace Logic.Alike

variable {R : Realm} {ι : Type} {L : Logic R ι} {w : R.World} {r : ι -> Inner} {r' : Inner}
  {f : Frame}

theorem elementValue {a i : Value} (ha : R.Val w a) : L.Self w (Eval.elementValue a i) R.Val :=
  L.bind (L.element ha) fun _ _ _ href => L.readElement href

end Logic.Alike

def Realm.Callable (R : Realm) (w : R.World) : Callee -> Prop
  | .value v => R.Val w v
  | _ => True

theorem Realm.Callable.later {R : Realm} {w w' : R.World} {c : Callee} (hc : R.Callable w c)
    (h : R.Later w w') : R.Callable w' c := by
  cases c with
  | value v => exact Realm.Val.later hc h
  | _ => trivial

theorem Logic.Alike.calling {R : Realm} {ι : Type} {L : Logic R ι} {w : R.World}
    {r : ι -> Inner} {r' : Inner} (hr : L.Alike r r') {m : Machine}
    (hm : ∀ name fn, m.hosts name = some fn -> L.Hosts fn) {span : Span} {name : String}
    {c : Callee} (hc : R.Callable w c) {vs : List Value} (hvs : R.Vals w vs) :
    L.Rel w (fun i => Eval.calling m (r i) span name c vs) (Eval.calling m r' span name c vs)
      R.Val := by
  cases c with
  | unit => exact hr.plainCall hm hvs
  | value v => exact hr.memberCall hc hvs
  | named x => exact staticCall hm hvs

/-! ## Constructs as operations on operands -/

section Equations

variable (m : Machine) (f : Frame) (s : Span)

theorem agree_call (receiver : Expr) (name : String) (args : List Expr) (t : String) :
    Agree (evalFully m f (.call s receiver name args t))
      (callee (fully m) f receiver >>= fun c =>
        (fully m).evalAll f args >>= calling m (fully m) s name c) := by
  rw [← call_eq]
  exact evalFully_step m f _

theorem agree_field (target : Expr) (name t : String) :
    Agree (evalFully m f (.field s target name t)) (evalFully m f target >>= field s name) :=
  evalFully_step m f _

theorem agree_index (array position : Expr) (t : String) :
    Agree (evalFully m f (.index s array position t))
      (evalFully m f array >>= fun a => evalFully m f position >>= elementValue a) :=
  evalFully_step m f _

theorem agree_newArray (elemType : String) (dims elements : List Expr) (listed : Bool) :
    Agree (evalFully m f (.newArray s elemType dims elements listed))
      (if listed || dims.isEmpty then (fully m).evalAll f elements >>= Run.alloc
      else (fully m).evalAll f dims >>= makeArray elemType) :=
  evalFully_step m f _

theorem agree_elements {elemType : String} {dims elements : List Expr} {listed : Bool}
    (h : (listed || dims.isEmpty) = true) :
    Agree (evalFully m f (.newArray s elemType dims elements listed))
      ((fully m).evalAll f elements >>= Run.alloc) := by
  have hnew := agree_newArray m f s elemType dims elements listed
  rwa [if_pos h] at hnew

theorem agree_dims {elemType : String} {dims elements : List Expr} {listed : Bool}
    (h : (listed || dims.isEmpty) = false) :
    Agree (evalFully m f (.newArray s elemType dims elements listed))
      ((fully m).evalAll f dims >>= makeArray elemType) := by
  have hnew := agree_newArray m f s elemType dims elements listed
  rwa [if_neg (by simp [h])] at hnew

theorem agree_newObject (className : String) (args : List Expr) :
    Agree (evalFully m f (.newObject s className args))
      ((fully m).evalAll f args >>= fun vs => pure (.object className vs)) :=
  evalFully_step m f _

theorem agree_unary {op : Operator} (hop : op.isStep = false) (operand : Expr) (trailing : Bool) :
    Agree (evalFully m f (.unary s op operand trailing))
      (evalFully m f operand >>= unary s op) := by
  have hstep := evalFully_step m f (.unary s op operand trailing)
  cases op with
  | inc | dec => cases hop
  | _ => exact hstep

def stepSize (op : Operator) : Int64 :=
  if op = .inc then 1 else -1

theorem agree_step {op : Operator} (hop : op.isStep = true) (operand : Expr) (trailing : Bool) :
    Agree (evalFully m f (.unary s op operand trailing))
      (step (fully m) f s (stepSize op) operand trailing) := by
  have hstep := evalFully_step m f (.unary s op operand trailing)
  cases op with
  | inc | dec => exact hstep
  | _ => cases hop

theorem step_index (r : Inner) (delta : Int64) (s' : Span) (array position : Expr) (t : String)
    (trailing : Bool) : step r f s delta (.index s' array position t) trailing =
      r.eval f array >>= fun a => r.eval f position >>= stepElement delta trailing a :=
  rfl

theorem agree_operator (left : Expr) (op : Operator) (right : Expr) :
    Agree (evalFully m f (.binary s left op right))
      (evalFully m f left >>= fun l => if op.isShortCircuit then shortCircuit (fully m) f op right l
        else evalFully m f right >>= binary op l) :=
  evalFully_step m f _

theorem agree_binary {op : Operator} (hop : op.isShortCircuit = false) (left right : Expr) :
    Agree (evalFully m f (.binary s left op right))
      (evalFully m f left >>= fun l => evalFully m f right >>= binary op l) := by
  have hstep := agree_operator m f s left op right
  simpa only [hop, Bool.false_eq_true, if_false] using hstep

theorem agree_shortCircuit {op : Operator} (hop : op.isShortCircuit = true)
    (left right : Expr) : Agree (evalFully m f (.binary s left op right))
      (evalFully m f left >>= shortCircuit (fully m) f op right) := by
  have hstep := agree_operator m f s left op right
  simpa only [hop, if_true] using hstep

theorem agree_switch (selector : Expr) (cases : List Case) (t : String) :
    Agree (evalFully m f (.switch s selector cases t))
      (evalFully m f selector >>= yieldOn (fully m) f s cases) := by
  have hstep : Agree _ (switchExpr (fully m) f s selector cases) :=
    evalFully_step m f (.switch s selector cases t)
  rw [switchExpr_eq] at hstep
  exact hstep

theorem agree_assignIdent (s' : Span) (x t : String) (op : Operator) (value : Expr) :
    Agree (evalFully m f (.assign s (.ident s' x t) op value))
      (oldValue f s' x op >>= fun old => evalFully m f value >>= fun v =>
        combine op old v >>= putVariable f s' x) := by
  have hstep : Agree _ (assign (fully m) f s (.ident s' x t) op value) :=
    evalFully_step m f (.assign s (.ident s' x t) op value)
  rw [assign_ident] at hstep
  exact hstep

theorem agree_assignIndex (s' : Span) (array position : Expr) (t : String) (op : Operator)
    (value : Expr) : Agree (evalFully m f (.assign s (.index s' array position t) op value))
      (evalFully m f array >>= fun a => evalFully m f position >>=
        amendElement (fully m) f op value a) := by
  have hstep : Agree _ (assign (fully m) f s (.index s' array position t) op value) :=
    evalFully_step m f (.assign s (.index s' array position t) op value)
  rw [assign_index] at hstep
  exact hstep

end Equations

/-! ## Coming to an operand -/

/--
Evaluating the first expression from the first store has come to the second expression, the
operand in the slot, in the second store: those before it have been evaluated.
-/
inductive Turn (m : Machine) (f : Frame) : Expr -> Store -> Slot -> Expr -> Store -> Prop
  | receiver {s receiver name args t st} :
      Turn m f (.call s receiver name args t) st .receiver receiver st
  | arg {s receiver name args t st c i a vs st₁ st₂}
      (hcallee : callee (fully m) f receiver st = .ok c st₁) (harg : args[i]? = some a)
      (hvalues : (fully m).evalAll f (args.take i) st₁ = .ok vs st₂) :
      Turn m f (.call s receiver name args t) st (.arg i) a st₂
  | target {s target name t st} : Turn m f (.field s target name t) st .target target st
  | array {s array position t st} : Turn m f (.index s array position t) st .array array st
  | position {s array position t st v st₁} (harray : evalFully m f array st = .ok v st₁) :
      Turn m f (.index s array position t) st .position position st₁
  | dim {s elemType dims elements listed st i d vs st₁} (hlisted : listed = false)
      (hdim : dims[i]? = some d) (hvalues : (fully m).evalAll f (dims.take i) st = .ok vs st₁) :
      Turn m f (.newArray s elemType dims elements listed) st (.dim i) d st₁
  | element {s elemType dims elements listed st i e vs st₁}
      (hlisted : (listed || dims.isEmpty) = true) (helement : elements[i]? = some e)
      (hvalues : (fully m).evalAll f (elements.take i) st = .ok vs st₁) :
      Turn m f (.newArray s elemType dims elements listed) st (.element i) e st₁
  | part {s className args st i a vs st₁} (harg : args[i]? = some a)
      (hvalues : (fully m).evalAll f (args.take i) st = .ok vs st₁) :
      Turn m f (.newObject s className args) st (.arg i) a st₁
  | operand {s op operand trailing st} :
      Turn m f (.unary s op operand trailing) st .operand operand st
  | left {s left op right st} : Turn m f (.binary s left op right) st .left left st
  | right {s left op right st v st₁} (hop : op.isShortCircuit = false)
      (hleft : evalFully m f left st = .ok v st₁) :
      Turn m f (.binary s left op right) st .right right st₁
  | assigned {s s' x t op value st old st₁} (hold : oldValue f s' x op st = .ok old st₁) :
      Turn m f (.assign s (.ident s' x t) op value) st .value value st₁
  | amended {s s' array position t op value st a i old st₁ st₂ st₃}
      (harray : evalFully m f array st = .ok a st₁)
      (hposition : evalFully m f position st₁ = .ok i st₂)
      (hold : oldElement a i op st₂ = .ok old st₃) :
      Turn m f (.assign s (.index s' array position t) op value) st .value value st₃
  | selector {s selector cases t st} :
      Turn m f (.switch s selector cases t) st .selector selector st

/--
Evaluating the first expression from the first store has come to the second expression, which
stands at a path below it, in the second store.
-/
inductive Comes (m : Machine) (f : Frame) : Expr -> Store -> Path -> Expr -> Store -> Prop
  | here {e st} : Comes m f e st [] e st
  | there {e st slot d st₁ p d' st₂} (hturn : Turn m f e st slot d st₁)
      (hcomes : Comes m f d st₁ p d' st₂) : Comes m f e st (slot :: p) d' st₂

end EarlyExit.Eval
