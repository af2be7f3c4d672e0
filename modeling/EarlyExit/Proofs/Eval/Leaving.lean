import EarlyExit.Proofs.Eval.Operands
import EarlyExit.Proofs.Expansion.Hoisting

/-!
# Where code leaves early

An alternate container leaves the code it is unwrapped in, up to the innermost method,
lambda or arm of a switch expression.  So an expression is left early only by a call of the
sentinel that stands in it outside lambdas and arms; without such a call, and with host
functions that do not leave early, its evaluation never does.
-/

namespace EarlyExit.Eval

open Node Expansion Run

/-- A computation that does not leave early. -/
def Stays (x : Run α) : Prop :=
  ∀ st c st', x st ≠ .error (.exit c) st'

/-! ## Computations -/

theorem stays_pure (a : α) : Stays (pure a : Run α) :=
  fun _ _ _ h => by cases h

theorem stays_fail (e : Failure) : Stays (Run.fail e : Run α) :=
  fun _ _ _ h => by cases h

theorem stays_raise (className message : String) : Stays (Run.raise className message : Run α) :=
  fun _ _ _ h => by cases h

/-- A computation that never stops. -/
theorem stays_of_ok {x : Run α} (h : ∀ st, ∃ a st', x st = .ok a st') : Stays x := by
  intro st c st' hx
  obtain ⟨a, st₁, ha⟩ := h st
  cases ha.symm.trans hx

theorem stays_get : Stays (get : Run Store) :=
  stays_of_ok fun st => ⟨st, st, rfl⟩

theorem stays_modifyGet (g : Store -> α × Store) : Stays (modifyGet g : Run α) :=
  stays_of_ok fun st => ⟨(g st).1, (g st).2, rfl⟩

theorem stays_told (o : Option α) : Stays (Run.told o) :=
  fun _ _ _ h => by cases o <;> cases h

theorem stays_text (v : Value) : Stays (Run.text v) :=
  fun st => stays_told (st.text? v) st

theorem stays_texts (vs : List Value) : Stays (Run.texts vs) :=
  fun st => stays_told (vs.mapM st.text?) st

/-- What goes on has to stay on the values that the first computation can give. -/
theorem Stays.andThen {x : Run α} {g : α -> Run β} (hx : Stays x)
    (hg : ∀ a, (∃ st st₁, x st = .ok a st₁) -> Stays (g a)) : Stays (x >>= g) := by
  intro st c st₂ h
  obtain ⟨ending, st₁, hend⟩ := exists_ended (x st)
  rw [bind_ended hend] at h
  cases ending with
  | ok a => exact hg a ⟨st, st₁, hend⟩ st₁ c st₂ h
  | error stop =>
      cases h
      exact hx st c _ hend

theorem Stays.bind {x : Run α} {g : α -> Run β} (hx : Stays x) (hg : ∀ a, Stays (g a)) :
    Stays (x >>= g) :=
  hx.andThen fun a _ => hg a

/-- Nothing goes on after a failure. -/
theorem stays_fail_bind (e : Failure) (g : α -> Run β) : Stays (Run.fail e >>= g) :=
  (stays_fail e).andThen fun _ ⟨_, _, h⟩ => by cases h

theorem stays_raise_bind (className message : String) (g : α -> Run β) :
    Stays (Run.raise className message >>= g) :=
  (stays_raise className message).andThen fun _ ⟨_, _, h⟩ => by cases h

/-- A failure that shows a value. -/
theorem stays_fail_text (f : String -> Failure) (v : Value) :
    Stays (do Run.fail (f (← Run.text v)) : Run α) :=
  (stays_text v).bind fun _ => stays_fail _

/-- An early exit that is caught becomes the value. -/
theorem stays_catchExit (x : Run Value) : Stays (catchExit x) := by
  intro st c st' h
  rw [show catchExit x = _ from tryCatch_eq x _ rfl] at h
  rcases wantsFuel_or_ended (x st) with hwants | ⟨ending, st₁, hends, hx⟩
  · obtain ⟨st₂, hfuel⟩ := attempt_wantsFuel hwants _
    cases h.symm.trans hfuel
  · rw [attempt_ended hx hends] at h
    cases ending with
    | ok v => cases h
    | error stop => cases stop <;> cases h

theorem stays_of_agree {x y : Run α} (h : Agree x y) (hy : Stays y) : Stays x := by
  intro st c st' hx
  exact hy st c st' (((h st).ends_iff (not_wantsFuel_ended (exit_ne_outOfFuel c))).1 hx)

/-! ## Operations -/

theorem stays_truth (v : Value) : Stays (truth v) := by
  unfold truth
  split
  · exact stays_pure _
  · exact stays_fail_text _ _

theorem stays_binary (op : Operator) (l r : Value) : Stays (binary op l r) := by
  unfold binary
  split
  · exact (stays_text l).bind fun _ => (stays_text r).bind fun _ => stays_pure _
  · split
    · exact stays_pure _
    · exact stays_pure _
    · split
      · split
        · exact stays_raise _ _
        · exact stays_pure _
      · split
        · exact stays_raise _ _
        · exact stays_pure _
      · split
        · exact stays_pure _
        · exact (stays_text l).bind fun _ => (stays_text r).bind fun _ => stays_fail _

theorem stays_unary (span : Span) (op : Operator) (v : Value) : Stays (unary span op v) := by
  unfold unary
  split
  · exact (stays_truth v).bind fun _ => stays_pure _
  all_goals first
    | exact stays_pure _
    | exact stays_fail_text _ _

theorem stays_combine (op : Operator) (old v : Value) : Stays (combine op old v) := by
  unfold combine
  split
  · exact stays_binary _ _ _
  · exact stays_pure _

theorem stays_element (a i : Value) : Stays (element a i) := by
  unfold element
  split
  · split
    · refine stays_get.bind fun st => ?_
      dsimp only
      split
      · exact stays_pure _
      · exact stays_raise _ _
    · exact stays_fail_text _ _
  · exact stays_raise _ _
  · exact stays_fail_text _ _

theorem stays_readElement (ref i : Nat) : Stays (readElement ref i) :=
  stays_get.bind fun _ => stays_pure _

theorem stays_writeElement (ref i : Nat) (v : Value) : Stays (writeElement ref i v) :=
  stays_modifyGet _

theorem stays_elementValue (a i : Value) : Stays (elementValue a i) :=
  (stays_element a i).bind fun _ => stays_readElement _ _

theorem stays_oldElement (a i : Value) (op : Operator) : Stays (oldElement a i op) := by
  unfold oldElement
  split
  · exact stays_elementValue a i
  · exact stays_pure _

theorem stays_putElement (a i v : Value) : Stays (putElement a i v) :=
  (stays_element a i).bind fun _ => (stays_writeElement _ _ _).bind fun _ => stays_pure _

theorem stays_stepElement (delta : Int64) (trailing : Bool) (a i : Value) :
    Stays (stepElement delta trailing a i) :=
  (stays_element a i).bind fun _ => (stays_readElement _ _).bind fun _ =>
    (stays_binary _ _ _).bind fun _ => (stays_writeElement _ _ _).bind fun _ => stays_pure _

theorem stays_lookup (f : Frame) (span : Span) (x : String) : Stays (lookup f span x) := by
  refine stays_get.bind fun st => ?_
  split
  · exact stays_pure _
  · exact stays_fail _

theorem stays_rebind (f : Frame) (span : Span) (x : String) (v : Value) :
    Stays (rebind f span x v) := by
  refine stays_get.bind fun st => ?_
  split
  · exact stays_modifyGet _
  · exact stays_fail _

theorem stays_oldValue (f : Frame) (span : Span) (x : String) (op : Operator) :
    Stays (oldValue f span x op) := by
  unfold oldValue
  split
  · exact stays_lookup f span x
  · exact stays_pure _

theorem stays_putVariable (f : Frame) (span : Span) (x : String) (v : Value) :
    Stays (putVariable f span x v) :=
  (stays_rebind f span x v).bind fun _ => stays_pure v

theorem stays_collect {x : Run α} (hx : Stays x) (n : Nat) (done : List α) :
    Stays (collect x n done) := by
  induction n generalizing done with
  | zero => exact stays_pure _
  | succ n ih => exact hx.bind fun a => ih (a :: done)

theorem stays_alloc (elems : List Value) : Stays (Run.alloc elems) :=
  stays_modifyGet _

theorem stays_makeArray (elemType : String) (dims : List Value) :
    Stays (makeArray elemType dims) := by
  induction dims with
  | nil => exact stays_alloc []
  | cons dim inner ih =>
      cases dim with
      | int n =>
          rw [makeArray]
          by_cases hneg : n < 0
          · rw [if_pos hneg]
            exact stays_raise_bind _ _ _
          · rw [if_neg hneg]
            show Stays (if inner.isEmpty then _ else _)
            split
            · exact stays_alloc _
            · exact (stays_collect ih _ _).bind fun _ => stays_alloc _
      | _ => exact stays_fail_text _ _

theorem stays_field (span : Span) (name : String) (target : Value) :
    Stays (field span name target) := by
  unfold field
  split
  · exact stays_get.bind fun _ => stays_pure _
  · exact stays_raise _ _
  · exact stays_fail_text _ _

theorem stays_containerMember (k : Kind) (alternate : Bool) (held : Value) (name : String)
    (args : List Value) : Stays (containerMember k alternate held name args) := by
  have habsent (v : Value) : Stays (do
      Run.raise "NoSuchElementException" (name ++ " on " ++ (← Run.text v)) : Run Value) :=
    (stays_text v).bind fun _ => stays_raise _ _
  unfold containerMember
  split
  · exact stays_pure _
  · split
    · split
      · exact habsent _
      · exact stays_pure _
    · split
      · exact stays_pure _
      · split
        · split
          · exact stays_pure _
          · exact habsent _
        · exact stays_fail _

theorem stays_stringMember (s name : String) (args : List Value) :
    Stays (stringMember s name args) := by
  unfold stringMember
  split
  all_goals first
    | exact stays_pure _
    | exact stays_fail _
    | exact (stays_text _).bind fun _ => stays_pure _

/-! ## Calls -/

section Calls

variable {m : Machine} {r : Inner} {f : Frame}

theorem Stays.counted {x : Run Value} (hx : Stays x) (m : Machine) : Stays (counted m x) := by
  intro st c st' h
  by_cases hdepth : st.depth < m.maxDepth
  · obtain ⟨ending, st₁, hbody⟩ := exists_ended (x st.enter)
    rw [counted_ended hdepth hbody] at h
    have h : ended ending st₁.leave = ended (.error (.exit c)) st' := h
    obtain ⟨rfl, -⟩ := ended_inj h
    exact hx _ c st₁ hbody
  · rw [counted_over hdepth] at h
    cases h

theorem stays_bindParams (s : Nat) (ps : List Param) (vs : List Value) :
    Stays (bindParams s ps vs) := by
  unfold bindParams
  induction ps.zip vs with
  | nil => exact stays_pure _
  | cons x rest ih => exact (stays_modifyGet _).bind fun _ => ih

theorem stays_invoke (callee : Method) (args : List Value) :
    Stays (invoke m r callee args) := by
  unfold invoke
  by_cases harity : args.length ≠ callee.params.length
  · simp only [if_pos harity]
    exact stays_fail_bind _ _
  · simp only [if_neg harity]
    exact Stays.counted ((stays_modifyGet _).bind fun _ =>
      (stays_bindParams _ _ _).bind fun _ => stays_catchExit _) m

theorem stays_apply (params : List Param) (body : Body) (outer : Nat) (args : List Value) :
    Stays (apply m r params body outer args) := by
  unfold apply
  by_cases harity : args.length ≠ params.length
  · simp only [if_pos harity]
    exact stays_fail_bind _ _
  · simp only [if_neg harity]
    refine Stays.counted ((stays_modifyGet _).bind fun _ =>
      (stays_bindParams _ _ _).bind fun _ => ?_) m
    split
    · exact stays_fail _
    · exact stays_catchExit _
    · exact stays_catchExit _

variable (hhosts : ∀ name fn, m.hosts name = some fn -> ∀ args, Stays (fn args))

include hhosts

theorem stays_callHost {name : String} {fn : HostFunction} (h : m.hosts name = some fn)
    (full : String) (args : List Value) : Stays (callHost full fn args) :=
  (stays_texts args).bind fun _ => (stays_modifyGet _).bind fun _ => hhosts name fn h args

theorem stays_plainCall (span : Span) (name : String) (vs : List Value) :
    Stays (plainCall m r span name vs) := by
  unfold plainCall
  cases m.unit.method? name with
  | some callee => exact stays_invoke _ _
  | none =>
      cases h : m.hosts name with
      | some fn => exact stays_callHost hhosts h _ _
      | none => exact stays_fail _

theorem stays_staticCall (span : Span) (className name : String) (vs : List Value) :
    Stays (staticCall m span className name vs) := by
  unfold staticCall
  cases m.registry.byName? className with
  | some k =>
      simp only [Option.elim_some]
      split
      · exact stays_pure _
      · split
        · exact stays_pure _
        · exact stays_fail _
  | none =>
      cases h : m.hosts (className ++ "." ++ name) with
      | some fn =>
          simp only [Option.elim_none, h, Option.elim_some]
          exact stays_callHost hhosts h _ _
      | none =>
          simp only [Option.elim_none, h]
          exact stays_fail _

omit hhosts

/-- A call on a value leaves early only as a call of the sentinel. -/
theorem stays_memberCall {span : Span} {receiver : Value} {name : String} {vs : List Value}
    (h : ¬(vs = [] ∧ name = m.sentinel)) : Stays (memberCall m r span receiver name vs) := by
  unfold memberCall
  cases receiver with
  | container k alternate held =>
      dsimp only
      rw [if_neg (by simpa using h)]
      exact stays_containerMember _ _ _ _ _
  | closure => exact stays_apply _ _ _ _
  | object c fields =>
      dsimp only
      cases objectMember? c fields name vs with
      | some v => exact stays_pure v
      | none => exact stays_fail_text _ _
  | str => exact stays_stringMember _ _ _
  | null => exact stays_raise _ _
  | _ => exact stays_fail_text _ _

include hhosts

theorem stays_calling {span : Span} {name : String} {c : Callee} {vs : List Value}
    (h : ∀ v, c = .value v -> ¬(vs = [] ∧ name = m.sentinel)) :
    Stays (calling m r span name c vs) := by
  cases c with
  | unit => exact stays_plainCall hhosts _ _ _
  | value v => exact stays_memberCall (h v rfl)
  | named x => exact stays_staticCall hhosts _ _ _ _

end Calls

/-! ## Expressions -/

/-- A slot whose code does not catch an early exit itself. -/
def isOpen : Slot -> Bool
  | .stmt _ | .body => false
  | _ => true

/-- A call of the sentinel on an expression. -/
def isUnwrap (sentinel : String) : Node -> Bool
  | .expr (.call _ receiver name [] _) => !receiver.isMissing && name = sentinel
  | _ => false

/-- Every call of the sentinel that an early exit of the node can come from is a marked one. -/
def Accounted (sentinel : String) (m : Marks) (n : Node) : Prop :=
  ∀ p c, n.at? p = some c -> (∀ slot ∈ p, isOpen slot = true) -> isUnwrap sentinel c = true ->
    ∃ k, (p, k) ∈ m.sites

namespace Accounted

variable {sentinel : String} {marks : Marks} {n d : Node} {slot : Slot} {e : Expr}

theorem child (h : Accounted sentinel marks n) (hget : n.get? slot = some d)
    (hopen : isOpen slot = true) : Accounted sentinel (marks.under slot) d := by
  intro p c hc hp hunwrap
  obtain ⟨k, hk⟩ := h (slot :: p) c (at?_cons_eq_some.2 ⟨d, hget, hc⟩)
    (List.forall_mem_cons.2 ⟨hopen, hp⟩) hunwrap
  exact ⟨k, Marks.mem_under_sites.2 hk⟩

theorem under (h : Accounted sentinel marks n) (hget : n.get? slot = Node.ofExpr? e)
    (hopen : isOpen slot = true) : Accounted sentinel (marks.under slot) (.expr e) := by
  cases hmissing : e.isMissing with
  | false =>
      rw [Node.ofExpr?_of_filled hmissing] at hget
      exact h.child hget hopen
  | true =>
      obtain rfl := Expr.eq_missing hmissing
      intro p c hc _ hunwrap
      cases p with
      | nil =>
          cases hc
          cases hunwrap
      | cons slot' rest =>
          obtain ⟨d, hd, _⟩ := at?_cons_eq_some.1 hc
          cases hd

/-- Where nothing is marked there is no call of the sentinel. -/
theorem cold (h : Accounted sentinel marks n) (hnone : marks.sites = []) :
    Accounted sentinel {} n := by
  intro p c hc hp hunwrap
  obtain ⟨k, hk⟩ := h p c hc hp hunwrap
  rw [hnone] at hk
  cases hk

theorem listed {list : Nat -> Slot} {i : Nat} {es : List Expr} (h : Accounted sentinel {} n)
    (hes : Lists n list i es) (hopen : ∀ j, isOpen (list j) = true) :
    ∀ e ∈ es, Accounted sentinel {} (.expr e) := by
  intro e he
  obtain ⟨j, hj⟩ := List.mem_iff_getElem?.1 he
  exact h.under (hes j e hj) (hopen _)

end Accounted

theorem evalAll_length {r : Inner} {f : Frame} {es : List Expr} {vs : List Value}
    {st st' : Store} (h : r.evalAll f es st = .ok vs st') : vs.length = es.length := by
  induction es generalizing vs st st' with
  | nil =>
      cases h
      rfl
  | cons e rest ih =>
      obtain ⟨ending, st₁, hend⟩ := exists_ended (r.eval f e st)
      have h : (r.eval f e >>= fun v => r.evalAll f rest >>= fun vs => pure (v :: vs)) st =
        .ok vs st' := h
      rw [bind_ended hend] at h
      cases ending with
      | error stop => cases h
      | ok v =>
          obtain ⟨ending, st₂, hrest⟩ := exists_ended (r.evalAll f rest st₁)
          have h : (r.evalAll f rest >>= fun vs => pure (v :: vs)) st₁ = .ok vs st' := h
          rw [bind_ended hrest] at h
          cases ending with
          | error stop => cases h
          | ok us =>
              cases h
              rw [List.length_cons, List.length_cons, ih hrest]

section Steps

variable {m : Machine} {r : Inner} {f : Frame}

theorem stays_evalAll {es : List Expr} (h : ∀ e ∈ es, Stays (r.eval f e)) :
    Stays (r.evalAll f es) := by
  induction es with
  | nil => exact stays_pure _
  | cons e rest ih =>
      exact (h e (by simp)).bind fun v => (ih fun a ha => h a (by simp [ha])).bind fun vs =>
        stays_pure _

theorem stays_callee {e : Expr} (h : Stays (r.eval f e)) : Stays (callee r f e) := by
  cases e with
  | missing => exact stays_pure _
  | ident s x t => exact (stays_get.bind fun _ => stays_pure _).bind fun _ => stays_pure _
  | _ => exact h.bind fun _ => stays_pure _

/-- A call that is not one of the sentinel stays on any values of its operands. -/
theorem stays_finish (hhosts : ∀ name fn, m.hosts name = some fn -> ∀ args, Stays (fn args))
    {span : Span} {receiver : Expr} {name type : String} {args : List Expr}
    (h : isUnwrap m.sentinel (.expr (.call span receiver name args type)) = false) {c : Callee}
    (hc : receiver = .missing -> c = .unit) {vs : List Value} (hvs : vs.length = args.length) :
    Stays (calling m r span name c vs) := by
  refine stays_calling hhosts fun v hv => ?_
  rintro ⟨rfl, rfl⟩
  obtain rfl : args = [] := List.eq_nil_of_length_eq_zero hvs.symm
  cases hmissing : receiver.isMissing with
  | false => simp [isUnwrap, hmissing] at h
  | true =>
      obtain rfl := Expr.eq_missing hmissing
      rw [hc rfl] at hv
      cases hv

theorem stays_step {delta : Int64} {span : Span} {operand : Expr} {trailing : Bool}
    (h : ∀ s array position t, operand = .index s array position t ->
      Stays (r.eval f array) ∧ Stays (r.eval f position)) :
    Stays (step r f span delta operand trailing) := by
  cases operand with
  | ident s x t =>
      exact (stays_lookup f s x).bind fun _ => (stays_binary _ _ _).bind fun _ =>
        (stays_rebind _ _ _ _).bind fun _ => stays_pure _
  | index s array position t =>
      obtain ⟨harray, hposition⟩ := h s array position t rfl
      rw [step_index]
      exact harray.bind fun a => hposition.bind fun i => stays_stepElement _ _ a i
  | _ => exact stays_fail _

theorem stays_amendElement {op : Operator} {value : Expr} (h : Stays (r.eval f value))
    (a i : Value) : Stays (amendElement r f op value a i) :=
  (stays_oldElement a i op).bind fun _ => h.bind fun _ => (stays_combine _ _ _).bind fun _ =>
    stays_putElement a i _

theorem stays_assign {span : Span} {target : Expr} {op : Operator} {value : Expr}
    (htarget : ∀ s array position t, target = .index s array position t ->
      Stays (r.eval f array) ∧ Stays (r.eval f position)) (hvalue : Stays (r.eval f value)) :
    Stays (assign r f span target op value) := by
  cases target with
  | ident s x t =>
      rw [assign_ident]
      exact (stays_oldValue f s x op).bind fun _ => hvalue.bind fun _ =>
        (stays_combine _ _ _).bind fun _ => stays_putVariable _ _ _ _
  | index s array position t =>
      obtain ⟨harray, hposition⟩ := htarget s array position t rfl
      rw [assign_index]
      exact harray.bind fun a => hposition.bind fun i => stays_amendElement hvalue a i
  | _ => exact stays_fail _

theorem stays_shortCircuit {op : Operator} {right : Expr} (h : Stays (r.eval f right))
    (l : Value) : Stays (shortCircuit r f op right l) := by
  refine (stays_truth l).bind fun b => ?_
  split
  · exact stays_pure _
  · exact (h.bind fun v => stays_truth v).bind fun _ => stays_pure _

theorem stays_matchesLabel {labels : List Expr} (h : ∀ e ∈ labels, Stays (r.eval f e))
    (sel : Value) : Stays (matchesLabel r f sel labels) := by
  induction labels with
  | nil => exact stays_pure _
  | cons e rest ih =>
      refine (h e (by simp)).bind fun v => ?_
      split
      · exact stays_pure _
      · exact ih fun a ha => h a (by simp [ha])

theorem stays_select {cases : List Case} (h : ∀ c ∈ cases, ∀ e ∈ c.labels, Stays (r.eval f e))
    (sel : Value) (fallback : List Case) : Stays (select r f sel fallback cases) := by
  induction cases generalizing fallback with
  | nil => exact stays_pure _
  | cons c rest ih =>
      have hrest := fun fallback => ih (fun d hd => h d (by simp [hd])) fallback
      rw [select]
      split
      · exact hrest _
      · refine (stays_matchesLabel (h c (by simp)) sel).bind fun b => ?_
        split
        · exact stays_pure _
        · exact hrest _

theorem stays_yieldOn {cases : List Case} (h : ∀ c ∈ cases, ∀ e ∈ c.labels, Stays (r.eval f e))
    (span : Span) (sel : Value) : Stays (yieldOn r f span cases sel) := by
  refine (stays_select h sel []).bind fun arms => ?_
  cases arms with
  | nil => exact (stays_text sel).bind fun _ => stays_raise_bind _ _ _
  | cons => exact (stays_modifyGet _).bind fun _ => stays_catchExit _

theorem stays_template {values : List Expr} (h : ∀ e ∈ values, Stays (r.eval f e))
    (done : String) (fragments : List String) : Stays (template r f done fragments values) := by
  induction fragments generalizing done values with
  | nil => exact stays_pure _
  | cons t ts ih =>
      cases values with
      | nil => exact ih (by simp) _
      | cons v vs =>
          exact (h v (by simp)).bind fun _ => (stays_text _).bind fun _ =>
            ih (fun e he => h e (by simp [he])) _

theorem callee_missing {c : Callee} {st st' : Store} (h : callee r f .missing st = .ok c st') :
    c = .unit := by
  cases h
  rfl

/-- Without a call of the sentinel an expression stays if its parts do. -/
theorem stays_evalStep (hhosts : ∀ name fn, m.hosts name = some fn -> ∀ args, Stays (fn args))
    (hr : ∀ e, Accounted m.sentinel {} (.expr e) -> Stays (r.eval f e)) {e : Expr}
    (he : Accounted m.sentinel {} (.expr e)) : Stays (evalStep m r f e) := by
  have hself : isUnwrap m.sentinel (.expr e) = false := by
    cases hunwrap : isUnwrap m.sentinel (.expr e) with
    | false => rfl
    | true =>
        obtain ⟨k, hk⟩ := he [] _ rfl (by simp) hunwrap
        cases hk
  have hone {slot : Slot} {d : Expr} (hget : (Node.expr e).get? slot = Node.ofExpr? d)
      (hopen : isOpen slot = true) : Stays (r.eval f d) :=
    hr d (he.under hget hopen)
  have hall {slot : Nat -> Slot} {ds : List Expr} (hl : Lists (.expr e) slot 0 ds)
      (hopen : ∀ j, isOpen (slot j) = true) : ∀ d ∈ ds, Stays (r.eval f d) :=
    fun d hd => hr d (he.listed hl hopen d hd)
  cases e with
  | missing => exact stays_fail _
  | ident s x t => exact stays_lookup f s x
  | literal => exact stays_pure _
  | call s receiver name args t =>
      show Stays (call m r f s receiver name args)
      rw [call_eq]
      refine (stays_callee (hone (get?_receiver ..) rfl)).andThen fun c ⟨st, st', hc⟩ => ?_
      have hargs := stays_evalAll (hall (lists_args s receiver name args t) fun _ => rfl)
      refine hargs.andThen fun vs ⟨_, _, hvs⟩ => ?_
      refine stays_finish hhosts hself (fun hmissing => ?_) (evalAll_length hvs)
      subst hmissing
      exact callee_missing hc
  | field s target name t => exact (hone (get?_target ..) rfl).bind fun v => stays_field s name v
  | assign s target op value =>
      refine stays_assign (fun s' array position t htarget => ?_) (hone (get?_value ..) rfl)
      subst htarget
      have hindex := he.under (get?_assignTarget s (.index s' array position t) op value) rfl
      exact ⟨hr _ (hindex.under (get?_array ..) rfl), hr _ (hindex.under (get?_position ..) rfl)⟩
  | binary s left op right =>
      refine (hone (get?_left ..) rfl).bind fun l => ?_
      have hright := hone (get?_right s left op right) rfl
      cases op.isShortCircuit with
      | true => exact stays_shortCircuit hright l
      | false => exact hright.bind fun v => stays_binary op l v
  | unary s op operand trailing =>
      have hstep (delta : Int64) : Stays (step r f s delta operand trailing) := by
        refine stays_step fun s' array position t hoperand => ?_
        subst hoperand
        have hindex := he.under (get?_operand s op (.index s' array position t) trailing) rfl
        exact ⟨hr _ (hindex.under (get?_array ..) rfl), hr _ (hindex.under (get?_position ..) rfl)⟩
      cases op with
      | inc => exact hstep 1
      | dec => exact hstep (-1)
      | _ => exact (hone (get?_operand ..) rfl).bind fun v => stays_unary _ _ _
  | conditional s test onTrue onFalse t =>
      have hpart (slot : Slot) (d : Expr)
          (h : (Node.expr (.conditional s test onTrue onFalse t)).get? slot = Node.ofExpr? d)
          (hopen : isOpen slot = true) : Stays (r.eval f d) := hone h hopen
      have htest := hpart .test test
        (get?_of_mem _ _ _ (by simp [Node.exprSlots, Node.mem_single])) rfl
      refine (htest.bind fun v => stays_truth v).bind fun b => ?_
      cases b with
      | true =>
          exact hpart .onTrue onTrue
            (get?_of_mem _ _ _ (by simp [Node.exprSlots, Node.mem_single])) rfl
      | false =>
          exact hpart .onFalse onFalse
            (get?_of_mem _ _ _ (by simp [Node.exprSlots, Node.mem_single])) rfl
  | index s array position t =>
      exact (hone (get?_array ..) rfl).bind fun a =>
        (hone (get?_position ..) rfl).bind fun i => stays_elementValue a i
  | newArray s elemType dims elements listed =>
      show Stays (if listed || dims.isEmpty then _ else _)
      split
      · exact (stays_evalAll
          (hall (lists_elements s elemType dims elements listed) fun _ => rfl)).bind
            fun _ => stays_alloc _
      · exact (stays_evalAll
          (hall (lists_dims s elemType dims elements listed) fun _ => rfl)).bind
            fun _ => stays_makeArray _ _
  | newObject s className args =>
      exact (stays_evalAll (hall (lists_newObject s className args) fun _ => rfl)).bind
        fun _ => stays_pure _
  | lambda => exact stays_modifyGet _
  | switch s selector cases t =>
      show Stays (switchExpr r f s selector cases)
      rw [switchExpr_eq]
      refine (hone (get?_selector ..) rfl).bind fun sel => stays_yieldOn (fun c hc l hl => ?_) s sel
      obtain ⟨i, hi⟩ := List.mem_iff_getElem?.1 hc
      exact hr l ((he.child (get?_arm s hi) rfl).listed (lists_labels c) (fun _ => rfl) l hl)
  | template s t fragments values =>
      have hvalues : Lists (.expr (.template s t fragments values)) .element 0 values :=
        lists_of_mem _ _ _ (by simp +contextual [Node.exprSlots, Node.mem_listed])
      exact stays_template (hall hvalues fun _ => rfl) "" fragments

end Steps

/-- An expression in which there is no call of the sentinel is not left early. -/
theorem stays_evalFully {m : Machine}
    (hhosts : ∀ name fn, m.hosts name = some fn -> ∀ args, Stays (fn args)) {f : Frame} {e : Expr}
    (he : Accounted m.sentinel {} (.expr e)) : Stays (evalFully m f e) := by
  have hfuel (n : Nat) : ∀ e, Accounted m.sentinel {} (.expr e) -> Stays (eval m n f e) := by
    induction n with
    | zero =>
        intro e _ st c st' h
        rw [eval] at h
        cases h
    | succ n ih =>
        intro e he
        rw [eval_succ]
        exact stays_evalStep hhosts ih he
  intro st c st' h
  obtain ⟨n, hn, _⟩ := finishes_eval.2 ⟨h, not_wantsFuel_ended (exit_ne_outOfFuel c)⟩
  exact hfuel n e he st c st' hn

end EarlyExit.Eval
