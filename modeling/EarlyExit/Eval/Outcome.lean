import EarlyExit.Eval.Interpreter

/-!
# Outcomes

All that can be observed of one call of a method: the value returned or thrown, and
the host calls made before.  A failure of the program, or running out of fuel, is no
outcome.
-/

namespace EarlyExit.Eval

/-- Fuel for programs that are meant to end. -/
def plenty : Nat := 1000000000

inductive Ending
  | returned (v : Value)
  | thrown (v : Value)

structure Outcome where
  ending : Ending
  /-- The store at the end, which gives arrays their contents. -/
  store : Store

namespace Outcome

def calls (o : Outcome) : List String :=
  o.store.calls.toList

def value (o : Outcome) : Value :=
  match o.ending with
  | .returned v => v
  | .thrown _ => .null

def thrownValue (o : Outcome) : Value :=
  match o.ending with
  | .returned _ => .null
  | .thrown v => v

/-- Equal values returned or thrown, after the same host calls; the runs share no references. -/
def equal (o p : Outcome) : Bool :=
  o.value.equal false p.value && o.thrownValue.equal false p.thrownValue && o.calls == p.calls

def text (o : Outcome) : String :=
  let after := " after [" ++ " ".intercalate o.calls ++ "]"
  match o.ending with
  | .returned v => "returns " ++ o.store.text v ++ after
  | .thrown v => "throws " ++ o.store.text v ++ after

end Outcome

def uncaughtText (st : Store) (v : Value) : String :=
  "uncaught " ++ st.text v

inductive NoOutcome
  | failed (f : Failure)
  | outOfFuel
  /-- An early exit that no method contains; calls from outside never end so. -/
  | exited

def NoOutcome.message : NoOutcome -> String
  | failed f => f.message
  | outOfFuel => "out of fuel"
  | exited => "early exit outside a method"

/-- Call a method, with no call under way, on a store that already holds the arguments. -/
def outcome (m : Machine) (fuel : Nat) (st : Store) (name : String) (args : List Value) :
    Except NoOutcome Outcome :=
  match (callMethod m fuel name args).run { st with depth := 0 } with
  | .ok v st => .ok ⟨.returned v, st⟩
  | .error (.thrown v) st => .ok ⟨.thrown v, st⟩
  | .error (.failed f) _ => .error (.failed f)
  | .error .outOfFuel _ => .error .outOfFuel
  | .error (.exit _) _ => .error .exited

end EarlyExit.Eval
