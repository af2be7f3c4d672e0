import EarlyExit.Proofs.Eval.Lifting
import EarlyExit.Proofs.Eval.Members
import EarlyExit.Proofs.Eval.Operands

/-!
# Sites that run

With all the fuel they want: the statements that stand for a site, a declaration and a test
that leaves with an alternate and passes a success, and the call of the sentinel that they
stand for.
-/

namespace EarlyExit.Eval

open Node Expansion Run

/-! ## Statements in order -/

section Append

variable {r : Inner} {f : Frame} {ts us : List Stmt} {st st' : Store}

theorem execAll_append_normal (h : r.execAll f ts st = ended (.ok .normal) st') :
    r.execAll f (ts ++ us) st = r.execAll f us st' := by
  induction ts generalizing st with
  | nil =>
      cases h
      rfl
  | cons t rest ih =>
      obtain ⟨ending, st₁, ht⟩ := exists_ended (r.exec f t st)
      by_cases hends : ending = .ok .normal
      · subst hends
        rw [execAll_normal ht] at h
        rw [List.cons_append, execAll_normal ht, ih h]
      · rw [execAll_stopped ht hends] at h
        exact absurd (ended_inj h).1 hends

theorem execAll_append_stopped {ending : Except Stop Completion}
    (h : r.execAll f ts st = ended ending st') (hends : ending ≠ .ok .normal) :
    r.execAll f (ts ++ us) st = ended ending st' := by
  induction ts generalizing st with
  | nil =>
      have hnormal : ended (.ok .normal) st = ended ending st' := h
      exact absurd (ended_inj hnormal).1.symm hends
  | cons t rest ih =>
      obtain ⟨ending', st₁, ht⟩ := exists_ended (r.exec f t st)
      by_cases hnormal : ending' = .ok .normal
      · subst hnormal
        rw [execAll_normal ht] at h
        rw [List.cons_append, execAll_normal ht, ih h]
      · rw [execAll_stopped ht hnormal] at h
        rw [List.cons_append, execAll_stopped ht hnormal, h]

end Append

/-! ## Variables and calls with all the fuel they want -/

section Fully

variable {m : Machine} {f : Frame} {st st₁ : Store}

theorem evalFully_ident {x : String} {v : Value} (h : st.get? f.scope x = some v) (s : Span)
    (t : String) : evalFully m f (.ident s x t) st = .ok v st := by
  have hstep : Same (evalFully m f (.ident s x t) st) (ended (.ok v) st) := by
    rw [← lookup_some h s]
    exact evalFully_step m f (.ident s x t) st
  exact hstep.eq_ended (ok_ne_outOfFuel v)

theorem evalFully_unbound {x : String} (h : st.get? f.scope x = none) (s : Span) (t : String) :
    evalFully m f (.ident s x t) st = .error (.failed (.undefined s x)) st := by
  have hstep : Same (evalFully m f (.ident s x t) st)
      (ended (.error (.failed (.undefined s x))) st) := by
    rw [← lookup_none h s]
    exact evalFully_step m f (.ident s x t) st
  exact hstep.eq_ended (failed_ne_outOfFuel _)

theorem evalFully_literal (s : Span) (l : Literal) (t : String) (st : Store) :
    evalFully m f (.literal s l t) st = .ok (.ofLiteral l) st :=
  (evalFully_step m f (.literal s l t) st).eq_ended (ok_ne_outOfFuel (Value.ofLiteral l))

theorem evalFully_missing (st : Store) : evalFully m f .missing st =
    .error (.failed (.cannotEvaluate .nowhere "<nil>")) st :=
  (evalFully_step m f .missing st).eq_ended
    (failed_ne_outOfFuel (.cannotEvaluate .nowhere "<nil>"))

/-- A run that ends with some fuel ends so with all of it. -/
theorem evalFully_of_eval {n : Nat} {e : Expr} {v : Value} (h : eval m n f e st = .ok v st₁) :
    evalFully m f e st = .ok v st₁ :=
  (finishes_eval.1 ⟨n, h, not_wantsFuel_ended (ok_ne_outOfFuel v)⟩).1

/-- A declaration binds the value that is evaluated. -/
theorem execFully_var {e : Expr} {ending : Except Stop Value} (hfilled : e.isMissing = false)
    (heval : evalFully m f e st = ended ending st₁) (hends : ending ≠ .error .outOfFuel)
    (s : Span) (x t : String) : execFully m f (.var s x t e) st =
      match ending with
      | .ok v => .ok .normal (st₁.define f.scope x v)
      | .error stop => .error stop st₁ := by
  have hsame := agree_anchor m f (s := .var s x t e) rfl st
  have hvalue : anchorValue (fully m) f (.var s x t e) = evalFully m f e := by
    show given (fully m) f e = _
    simp only [given, hfilled, Bool.false_eq_true, if_false]
    rfl
  rw [hvalue, bind_ended heval] at hsame
  cases ending with
  | ok v => exact Same.eq_ended hsame (ok_ne_outOfFuel Completion.normal)
  | error stop =>
      have hstop : (.error stop : Except Stop Completion) ≠ .error .outOfFuel :=
        fun h => hends (by cases h; rfl)
      exact Same.eq_ended hsame hstop

/-- How a throw statement goes on from how its expression ends. -/
def thrownOn : Except Stop Value -> Except Stop Value
  | .error (.exit c) => .error (.thrown c)
  | ending => ending

theorem anchorValue_throw {e : Expr} {ending : Except Stop Value}
    (heval : evalFully m f e st = ended ending st₁) (hends : ending ≠ .error .outOfFuel)
    (s : Span) : anchorValue (fully m) f (.throw s e) st = ended (thrownOn ending) st₁ := by
  have hcatch : anchorValue (fully m) f (.throw s e) = _ := tryCatch_eq (evalFully m f e) _ rfl
  rw [hcatch, attempt_ended heval hends]
  cases ending with
  | ok v => rfl
  | error stop => cases stop <;> rfl

/--
What a call is made on is the value of its receiver; or else the receiver has no value, and
the call is one of a method or of a class.
-/
theorem callee_eq (m : Machine) (f : Frame) (e : Expr) (st : Store) :
    Same (callee (fully m) f e st) ((evalFully m f e >>= fun v => pure (Callee.value v)) st) ∨
      ∃ c err, callee (fully m) f e st = .ok c st ∧ (∀ v, c ≠ .value v) ∧
        evalFully m f e st = .error (.failed err) st := by
  cases e with
  | missing => exact .inr ⟨.unit, _, rfl, nofun, evalFully_missing st⟩
  | ident s x t =>
      have hcallee : callee (fully m) f (.ident s x t) st =
        .ok ((st.get? f.scope x).elim (.named x) .value) st := rfl
      cases hx : st.get? f.scope x with
      | none =>
          rw [hx] at hcallee
          exact .inr ⟨.named x, _, hcallee, nofun, evalFully_unbound hx s t⟩
      | some v =>
          rw [hx] at hcallee
          have hvalue : evalFully m f (.ident s x t) st = ended (.ok v) st := evalFully_ident hx s t
          rw [hcallee, bind_ended hvalue]
          exact .inl (.refl _)
  | _ => exact .inl (.refl _)

end Fully

/-! ## The test of a site -/

/-- A kind of the registry whose members are told apart, from each other and the sentinel. -/
structure Legible (m : Machine) (k : Kind) : Prop where
  known : m.registry.byName? k.name = some k
  accessor : k.accessor ≠ k.predicate
  alternate : k.alternateAccessor ≠ k.predicate ∧ k.alternateAccessor ≠ k.accessor
  sentinel : m.sentinel ∉ Settings.calledMembers k

/-- How statements end that leave with a container. -/
def exitWith : Exit -> Value -> Except Stop Completion
  | .ret, c => .ok (.returned c)
  | .throw, c => .error (.thrown c)
  | .yield, c => .ok (.yielded c)

theorem exitWith_ne_outOfFuel (exit : Exit) (c : Value) :
    exitWith exit c ≠ .error .outOfFuel := by
  cases exit <;> simp [exitWith]

section Tests

variable {m : Machine} {f : Frame} {st : Store} {x : String} {k : Kind} {alternate : Bool}
  {held : Value}

theorem get?_push_new (st : Store) {o : Nat} (ho : o < st.scopes.size) (x : String) :
    (st.push (some o)).2.get? st.scopes.size x = st.get? o x := by
  have hnew : st.binding? st.scopes.size x = none := by
    simp [Store.binding?]
  simp only [Store.get?, Store.find?_eq, Store.chain_push_new st ho, Store.binding?_push,
    List.findSome?_cons, hnew, Option.map_none]

/-- Leaving with the container made anew. -/
theorem execFully_exit (hk : Legible m k) (hx : st.get? f.scope x = some (.container k true held))
    (hclass : st.get? f.scope k.name = none) (exit : Exit) (span place : Span) (t : String) :
    execFully m f (exit.statement (k.reconstruct (.ident place x t) span)) st =
      ended (exitWith exit (.alternate k held)) st := by
  have hsentinel : k.alternateAccessor ≠ m.sentinel := fun h =>
    hk.sentinel (by simp [Settings.calledMembers, h])
  have hvalue : evalFully m f (k.reconstruct (.ident place x t) span) st =
      ended (.ok (.alternate k held)) st :=
    evalFully_of_eval (eval_reconstruct hx hclass hk.known hsentinel hk.alternate.1 hk.alternate.2 0
      span place t)
  have hends := exitWith_ne_outOfFuel exit (.alternate k held)
  cases exit with
  | ret =>
      have hsame := agree_anchor m f
        (s := Exit.ret.statement (k.reconstruct (.ident place x t) span)) rfl st
      exact Same.eq_ended (hsame.trans (.inl (bind_ended hvalue _))) hends
  | yield =>
      have hsame := agree_anchor m f
        (s := Exit.yield.statement (k.reconstruct (.ident place x t) span)) rfl st
      exact Same.eq_ended (hsame.trans (.inl (bind_ended hvalue _))) hends
  | throw =>
      have hsame := agree_anchor m f
        (s := Exit.throw.statement (k.reconstruct (.ident place x t) span)) rfl st
      have hcaught := anchorValue_throw hvalue (ok_ne_outOfFuel _)
        (k.reconstruct (.ident place x t) span).span
      exact Same.eq_ended (hsame.trans (.inl (bind_ended hcaught _))) hends

/-- The test of a site leaves with an alternate and passes a success. -/
theorem execFully_guard (hk : Legible m k)
    (hx : st.get? f.scope x = some (.container k alternate held))
    (hclass : st.get? f.scope k.name = none) (hscope : f.scope < st.scopes.size) (exit : Exit)
    (span : Span) (t : String) :
    execFully m f (.branch span (k.guard (.ident span x t) span) (.block (.mk span
        [exit.statement (k.reconstruct (.ident span x t) span)])) .missing) st =
      if alternate then ended (exitWith exit (.alternate k held)) (st.push (some f.scope)).2
      else .ok .normal st := by
  have hpredicate : k.predicate ≠ m.sentinel := fun h =>
    hk.sentinel (by simp [Settings.calledMembers, h])
  have hguard : evalFully m f (k.guard (.ident span x t) span) st =
      ended (.ok (.bool alternate)) st :=
    evalFully_of_eval ((eval_member hx hpredicate 0 span span t _).trans
      (containerMember_predicate k alternate held st))
  have htest : (fully m).test f (k.guard (.ident span x t) span) st = ended (.ok alternate) st :=
    bind_ended hguard truth
  have hsame : Same (execFully m f (.branch span (k.guard (.ident span x t) span) (.block (.mk span
      [exit.statement (k.reconstruct (.ident span x t) span)])) .missing) st) _ :=
    execFully_step m f rfl st
  replace hsame := hsame.trans (.inl (bind_ended htest _))
  cases alternate with
  | false => exact Same.eq_ended hsame (ok_ne_outOfFuel Completion.normal)
  | true =>
      -- the block has a scope of its own, in which both names mean the same
      let f' : Frame := { f with scope := st.scopes.size }
      have hleft := execFully_exit (f := f') hk
        ((get?_push_new st hscope x).trans hx) ((get?_push_new st hscope _).trans hclass)
        exit span span t
      have hblock : Same (execFully m f (.block (.mk span
          [exit.statement (k.reconstruct (.ident span x t) span)])) st)
          ((fully m).execAll f' [exit.statement (k.reconstruct (.ident span x t) span)]
            (st.push (some f.scope)).2) := execFully_step m f rfl st
      rw [execAll_single] at hblock
      have hends := exitWith_ne_outOfFuel exit (.alternate k held)
      exact Same.eq_ended (hsame.trans (hblock.trans (.inl hleft))) hends

/-- The success value is read off the variable. -/
theorem evalFully_extract (hk : Legible m k)
    (hx : st.get? f.scope x = some (.container k false held)) (span : Span) (t type : String) :
    evalFully m f (k.extract (.ident span x t) span type) st = .ok held st := by
  have haccessor : k.accessor ≠ m.sentinel := fun h =>
    hk.sentinel (by simp [Settings.calledMembers, h])
  exact evalFully_of_eval ((eval_member hx haccessor 0 span span t _).trans
    (containerMember_accessor hk.accessor held st))

/-- A call of the sentinel on a container. -/
theorem evalFully_unwrap (hnative : m.native = true) {receiver : Expr} {st₁ : Store}
    (h : callee (fully m) f receiver st = .ok (.value (.container k alternate held)) st₁) (s : Span)
    (t : String) : evalFully m f (.call s receiver m.sentinel [] t) st =
      if alternate then .error (.exit (.alternate k held)) st₁ else .ok held st₁ := by
  have hended : callee (fully m) f receiver st =
    ended (.ok (.value (.container k alternate held))) st₁ := h
  have hsame := agree_call m f s receiver m.sentinel [] t st
  rw [bind_ended hended] at hsame
  have hcalled : (resume (fun c => (fully m).evalAll f [] >>= calling m (fully m) s m.sentinel c)
      (.ok (.value (.container k alternate held))) : Run Value) st₁ =
      unwrapped m s m.sentinel k alternate held st₁ := by
    show memberCall m (fully m) s (.container k alternate held) m.sentinel [] st₁ = _
    simp only [memberCall, List.isEmpty_nil, true_and, if_true]
  rw [hcalled] at hsame
  unfold unwrapped at hsame
  rw [if_pos hnative] at hsame
  cases alternate with
  | true => exact Same.eq_ended hsame (exit_ne_outOfFuel (.alternate k held))
  | false => exact Same.eq_ended hsame (ok_ne_outOfFuel held)

end Tests

end EarlyExit.Eval
