import EarlyExit.Proofs.Eval.Logic

/-!
# Host functions

The surroundings of a program hand values in and out: a host function sees its arguments
and the arrays they lead to, may change such arrays and make new ones, and gives back
values made of what it was given.  It does not see scopes and makes no closures.
-/

namespace EarlyExit

namespace Value

mutual

/-- A value whose arrays and closures are of some sort. -/
def MadeOf (A : Nat -> Prop) (C : Value -> Prop) : Value -> Prop
  | .array ref => A ref
  | .closure id params body s => C (.closure id params body s)
  | .object _ args => AllMadeOf A C args
  | .container _ _ held => MadeOf A C held
  | _ => True

def AllMadeOf (A : Nat -> Prop) (C : Value -> Prop) : List Value -> Prop
  | [] => True
  | v :: rest => MadeOf A C v ∧ AllMadeOf A C rest

end

end Value

namespace Eval

open Run Value

mutual

theorem madeOf_imp {A A' : Nat -> Prop} {C C' : Value -> Prop} (hA : ∀ r, A r -> A' r)
    (hC : ∀ v, C v -> C' v) : (v : Value) -> MadeOf A C v -> MadeOf A' C' v
  | .array r, h => hA r h
  | .closure _ _ _ _, h => hC _ h
  | .object _ args, h => allMadeOf_imp hA hC args h
  | .container _ _ held, h => madeOf_imp hA hC held h
  | .null, _ | .bool _, _ | .int _, _ | .float _, _ | .str _, _ => trivial

theorem allMadeOf_imp {A A' : Nat -> Prop} {C C' : Value -> Prop} (hA : ∀ r, A r -> A' r)
    (hC : ∀ v, C v -> C' v) : (vs : List Value) -> AllMadeOf A C vs -> AllMadeOf A' C' vs
  | [], _ => trivial
  | v :: rest, h => ⟨madeOf_imp hA hC v h.1, allMadeOf_imp hA hC rest h.2⟩

end

/-- What a host function has to do with the values and arrays it is given. -/
structure Answers (args : List Value) (arrays : Array (Array Value))
    (answer : Except Stop Value × Array (Array Value)) (A : Nat -> Prop) (C : Value -> Prop) :
    Prop where
  size : arrays.size ≤ answer.2.size
  value : ∀ v, answer.1 = .ok v ∨ answer.1 = .error (.thrown v) ∨ answer.1 = .error (.exit v) ->
    MadeOf (fun r => A r ∨ arrays.size ≤ r ∧ r < answer.2.size) C v
  elements : ∀ r, A r ∨ arrays.size ≤ r ∧ r < answer.2.size -> ∀ v ∈ answer.2.getD r #[],
    MadeOf (fun r => A r ∨ arrays.size ≤ r ∧ r < answer.2.size) C v

/-- A host function that keeps to arguments and arrays. -/
def Confined (fn : HostFunction) : Prop :=
  ∃ answer : List Value -> Array (Array Value) -> Except Stop Value × Array (Array Value),
    (∀ args st, fn args st = ended (answer args st.arrays).1
      { st with arrays := (answer args st.arrays).2 }) ∧
    ∀ args arrays A C, AllMadeOf A C args ->
      (∀ r, A r -> r < arrays.size ∧ ∀ v ∈ arrays.getD r #[], MadeOf A C v) ->
      Answers args arrays (answer args arrays) A C

/-- A function that makes its value of its arguments. -/
theorem confined_pure {g : List Value -> Value}
    (hg : ∀ A C args, AllMadeOf A C args -> MadeOf A C (g args)) :
    Confined fun args => pure (g args) := by
  refine ⟨fun args arrays => (.ok (g args), arrays), fun _ _ => rfl, ?_⟩
  intro args arrays A C hargs harrays
  have hmore : ∀ v, MadeOf A C v ->
      MadeOf (fun r => A r ∨ arrays.size ≤ r ∧ r < arrays.size) C v :=
    madeOf_imp (fun _ => .inl) fun _ h => h
  refine ⟨Nat.le_refl _, fun v hv => ?_, fun r hr v hv => ?_⟩
  · rcases hv with hv | hv | hv
    · obtain rfl := Except.ok.inj hv
      exact hmore _ (hg A C args hargs)
    · cases hv
    · cases hv
  · rcases hr with hr | hr
    · exact hmore v ((harrays r hr).2 v hv)
    · exact absurd hr.2 (Nat.not_lt.2 hr.1)

theorem madeOf_headD {A : Nat -> Prop} {C : Value -> Prop} {args : List Value}
    (h : AllMadeOf A C args) : MadeOf A C (args.headD .null) := by
  cases args with
  | nil => trivial
  | cons v rest => exact h.1

namespace Realm

variable {R : Realm} {w : R.World}

mutual

theorem madeOf_iff : (v : Value) -> (MadeOf (R.Refers w) (R.Val w) v ↔ R.Val w v)
  | .array _ => Iff.rfl
  | .closure _ _ _ _ => Iff.rfl
  | .object _ args => allMadeOf_iff args
  | .container _ _ held => madeOf_iff held
  | .null | .bool _ | .int _ | .float _ | .str _ => Iff.rfl

theorem allMadeOf_iff : (vs : List Value) -> (AllMadeOf (R.Refers w) (R.Val w) vs ↔ R.Vals w vs)
  | [] => Iff.rfl
  | v :: rest => and_congr (madeOf_iff v) (allMadeOf_iff rest)

end

end Realm

end Eval

end EarlyExit
