import EarlyExit.Eval.Host
import EarlyExit.Eval.Outcome
import EarlyExit.Proofs.Eval.Informed
import EarlyExit.Proofs.Eval.Limit
import EarlyExit.Proofs.Eval.Reach
import EarlyExit.Proofs.Eval.Widened

/-!
# The same call twice

Two runs of one call make the same host calls and come to the same value, but for the
addresses of what they have made, as long as no text shows an address that only one of them
has.  So their outcomes are then equal just when nothing in that value is compared by address:
no array, no closure, and no number that is unequal to itself.
-/

namespace EarlyExit

open Eval Eval.Run

/-! ## Values that equal themselves -/

namespace Value

mutual

/-- No part of the value has an identity of its own, and none is unequal to itself. -/
def equalsItself : Value -> Bool
  | .array _ | .closure .. => false
  | .float x => x == x
  | .object _ args => equalThemselves args
  | .container _ _ held => held.equalsItself
  | .null | .bool _ | .int _ | .str _ => true

def equalThemselves : List Value -> Bool
  | [] => true
  | v :: rest => v.equalsItself && equalThemselves rest

end

mutual

/-- Values of two runs that are the same but for addresses. -/
theorem equal_moved (ρ : Addresses) : (v : Value) -> v.equal false (ρ.value v) = v.equalsItself
  | .container k alternate held => by
      simp only [Addresses.value, equal, equalsItself, equal_moved ρ held, BEq.rfl, Bool.true_and]
  | .object c args => by
      simp only [Addresses.value, equal, equalsItself, equalAll_moved ρ args, BEq.rfl,
        Bool.true_and]
  | .null | .array _ | .closure .. | .float _ => rfl
  | .bool _ | .int _ | .str _ => by simp [Addresses.value, equal, equalLeaf, equalsItself]

theorem equalAll_moved (ρ : Addresses) :
    (vs : List Value) -> equalAll false vs (ρ.values vs) = equalThemselves vs
  | [] => rfl
  | v :: rest => by
      simp only [Addresses.values, equalAll, equalThemselves, equal_moved ρ v,
        equalAll_moved ρ rest]

end

theorem moved_plain (ρ : Addresses) {v : Value} (h : v.isPlain = true) : ρ.value v = v := by
  cases v <;> first | rfl | cases h

theorem moved_plains (ρ : Addresses) {vs : List Value} (h : ∀ v ∈ vs, v.isPlain = true) :
    ρ.values vs = vs := by
  rw [ρ.values_eq_map]
  exact (List.map_congr_left fun v hv => moved_plain ρ (h v hv)).trans (List.map_id' vs)

end Value

/-! ## Runs behind others -/

namespace Eval

/-- The addresses of a run before which there were scopes, arrays and closures already. -/
def Addresses.behind (base : Store) : Addresses where
  scope s := base.scopes.size + s
  array ref := base.arrays.size + ref
  closure id := base.closures + id

end Eval

namespace Store

variable (base : Store) (st : Store)

/-- The store of a run, behind all that is in another store and in its memory. -/
def behind : Store where
  memory := base.memory
  scopes := base.scopes ++ st.scopes.map (Addresses.behind base).moved
  arrays := base.arrays ++ st.arrays.map fun xs => xs.map (Addresses.behind base).value
  closures := base.closures + st.closures
  calls := base.calls ++ st.calls
  depth := st.depth

theorem behind_empty (memory : Memory) : behind base { memory } = { base with depth := 0 } := by
  simp [behind]

theorem scopes_behind (s : Nat) :
    (behind base st).scopes[base.scopes.size + s]? =
      st.scopes[s]?.map (Addresses.behind base).moved := by
  rw [behind, Array.getElem?_append_right (Nat.le_add_right _ _), Nat.add_sub_cancel_left,
    Array.getElem?_map]

theorem scopes_behind_old {t : Nat} (h : t < base.scopes.size) :
    (behind base st).scopes[t]? = base.scopes[t]? :=
  Array.getElem?_append_left h

theorem size_behind : (behind base st).scopes.size = base.scopes.size + st.scopes.size := by
  rw [behind, Array.size_append, Array.size_map]

theorem find?_behind (s : Nat) (x : String) :
    (behind base st).find? (base.scopes.size + s) x = (st.find? s x).map fun found =>
      (base.scopes.size + found.1, (Addresses.behind base).value found.2) := by
  induction s using Nat.strongRecOn with
  | ind s ih =>
      rw [find?, find?, scopes_behind]
      cases st.scopes[s]? with
      | none => rfl
      | some sc =>
          simp only [Option.map_some, Addresses.lookup_moved]
          cases sc.bindings.lookup x with
          | some v => rfl
          | none =>
              simp only [Option.map_none, Addresses.moved]
              cases sc.outer with
              | none => rfl
              | some o =>
                  simp only [Option.map_some, Addresses.behind, Nat.add_lt_add_iff_left]
                  split
                  next hlt => exact ih o hlt
                  next => rfl

theorem get?_behind (s : Nat) (x : String) :
    (behind base st).get? (base.scopes.size + s) x =
      (st.get? s x).map (Addresses.behind base).value := by
  rw [get?, find?_behind, get?, Option.map_map, Option.map_map]
  rfl

/-- Stores with a common beginning are the same if the rest is. -/
theorem ext_behind {scopes scopes' : Array Scope}
    (hold : ∀ t < base.scopes.size, scopes[t]? = scopes'[t]?)
    (hnew : ∀ s, scopes[base.scopes.size + s]? = scopes'[base.scopes.size + s]?) :
    scopes = scopes' := by
  refine Array.ext_getElem? fun t => ?_
  by_cases ht : t < base.scopes.size
  · exact hold t ht
  · obtain ⟨s, rfl⟩ := Nat.exists_eq_add_of_le (Nat.not_lt.1 ht)
    exact hnew s

theorem define_behind (s : Nat) (x : String) (v : Value) :
    (behind base st).define (base.scopes.size + s) x ((Addresses.behind base).value v) =
      behind base (st.define s x v) := by
  have hscopes : ((behind base st).define (base.scopes.size + s) x
      ((Addresses.behind base).value v)).scopes = (behind base (st.define s x v)).scopes := by
    refine ext_behind base (fun t ht => ?_) fun t => ?_
    · rw [scopes_define, if_neg (by omega), scopes_behind_old base _ ht,
        scopes_behind_old base _ ht]
    · rw [scopes_define, scopes_behind, scopes_behind, scopes_define]
      simp only [Nat.add_left_cancel_iff]
      split
      · rw [Option.map_map, Option.map_map]
        refine congrArg (Option.map · _) (funext fun sc => ?_)
        simp only [Function.comp_apply, Addresses.moved, Addresses.moved_bind]
      · rfl
  exact ext_scopes (fun t => by rw [hscopes]) rfl

theorem assign?_behind (s : Nat) (x : String) (v : Value) :
    (behind base st).assign? (base.scopes.size + s) x ((Addresses.behind base).value v) =
      (st.assign? s x v).map (behind base) := by
  rw [assign?, find?_behind, assign?, Option.map_map, Option.map_map]
  exact congrArg (Option.map · _) (funext fun found => define_behind base st found.1 x v)

theorem push_behind (outer : Option Nat) :
    (behind base st).push (outer.map (Addresses.behind base).scope) =
      ((Addresses.behind base).scope (st.push outer).1, behind base (st.push outer).2) := by
  have hscopes : ((behind base st).push (outer.map (Addresses.behind base).scope)).2.scopes =
      (behind base (st.push outer).2).scopes := by
    refine ext_behind base (fun t ht => ?_) fun t => ?_
    · rw [scopes_push, size_behind, if_neg (by omega), scopes_behind_old base _ ht,
        scopes_behind_old base _ ht]
    · rw [scopes_push, size_behind, scopes_behind, scopes_behind, scopes_push]
      simp only [Nat.add_left_cancel_iff]
      split <;> rfl
  exact Prod.ext (size_behind base st) (ext_scopes (fun t => by rw [hscopes]) rfl)

theorem arrays_behind (ref : Nat) : (behind base st).arrays[base.arrays.size + ref]? =
    st.arrays[ref]?.map fun xs => xs.map (Addresses.behind base).value := by
  rw [behind, Array.getElem?_append_right (Nat.le_add_right _ _), Nat.add_sub_cancel_left,
    Array.getElem?_map]

theorem elems_behind (ref : Nat) :
    (behind base st).elems (base.arrays.size + ref) =
      (st.elems ref).map (Addresses.behind base).value := by
  rw [elems, elems, Array.getD_eq_getD_getElem?, Array.getD_eq_getD_getElem?, arrays_behind]
  cases st.arrays[ref]? with
  | some xs => rfl
  | none => exact Array.map_empty.symm

theorem setElem_behind (ref i : Nat) (v : Value) :
    (behind base st).setElem (base.arrays.size + ref) i ((Addresses.behind base).value v) =
      behind base (st.setElem ref i v) := by
  have harrays : ((behind base st).setElem (base.arrays.size + ref) i
      ((Addresses.behind base).value v)).arrays = (behind base (st.setElem ref i v)).arrays := by
    refine Array.ext_getElem? fun r => ?_
    by_cases hr : r < base.arrays.size
    · have hne : base.arrays.size + ref ≠ r := by omega
      simp only [setElem, behind, Array.getElem?_modify, if_neg hne,
        Array.getElem?_append_left hr]
    · obtain ⟨k, rfl⟩ := Nat.exists_eq_add_of_le (Nat.not_lt.1 hr)
      rw [arrays_behind, setElem, setElem, Array.getElem?_modify, arrays_behind,
        Array.getElem?_modify]
      simp only [Nat.add_left_cancel_iff]
      split
      · rw [Option.map_map, Option.map_map]
        exact congrArg (Option.map · _) (funext fun xs => Array.map_setIfInBounds.symm)
      · rfl
  exact congrArg (fun arrays => { behind base st with arrays }) harrays

theorem alloc_behind (xs : Array Value) :
    (behind base st).alloc (xs.map (Addresses.behind base).value) =
      ((Addresses.behind base).value (st.alloc xs).1, behind base (st.alloc xs).2) := by
  simp only [alloc, behind, Array.map_push, Array.size_append, Array.size_map, Array.append_push]
  rfl

end Store

namespace Eval

/-- The renaming that puts every store behind another one. -/
def shifting (exact : Prop) (base : Store) : Renaming where
  toAddresses := .behind base
  store := base.behind
  exact := exact
  Covers st := (Addresses.behind base).Informs exact st.memory base.memory
  Own _ := True
  array_injective := fun _ _ h => Nat.add_left_cancel h
  closure_injective := fun _ _ h => Nat.add_left_cancel h
  covers_of_le h hmemory _ _ _ := hmemory ▸ h
  own_size _ := trivial
  get? _ := base.get?_behind _
  assign? _ := base.assign?_behind _
  define _ _ := base.define_behind _ _
  push _ := base.push_behind _
  alloc _ := base.alloc_behind _
  elems _ := base.elems_behind _
  setElem _ := base.setElem_behind _
  text? {st} h _ hv := by
    have hmemory : (Addresses.behind base).Informs exact st.memory (base.behind st).memory := h
    exact hmemory.text? (fun _ _ h => Nat.add_left_cancel h) (base.elems_behind st) hv
  close _ := ⟨rfl, rfl⟩
  log _ _ := by simp only [Store.behind, Array.append_push]
  depth _ := rfl
  enter _ := rfl
  leave _ := rfl

/-! ## Calls from outside -/

variable {m : Machine} {name : String} {args : List Value}

theorem callMethod_eq (m : Machine) (n : Nat) (name : String) (args : List Value) :
    callMethod m n name args = match m.unit.method? name with
      | some callee => invoke m (inner m n) callee args
      | none => Run.fail (.noMethod name m.unit.file) :=
  rfl

/-- A call that ended ends in the same way with more fuel. -/
theorem steady_callMethod (m : Machine) (name : String) (args : List Value) :
    Steady fun n => callMethod m n name args := by
  intro n st
  simp only [callMethod_eq]
  cases m.unit.method? name with
  | some callee =>
      exact ((alike_succ m n).invoke (w := ()) (Realm.boundless_vals () args)).1.below () st
  | none => exact .inl rfl

/-- A call at new addresses. -/
theorem carries_callMethod (ρ : Renaming) (hm : ∀ name fn, m.hosts name = some fn -> ρ.Serves fn)
    (n : Nat) (name : String) (args : List Value) :
    ρ.Carries ρ.value (callMethod m n name args) (callMethod m n name (ρ.values args)) := by
  simp only [callMethod_eq]
  cases m.unit.method? name with
  | some callee => exact (Renaming.follows ρ hm n).invoke callee args
  | none => exact Relocation.carries_fail _

/-- The result of the call that an outcome is observed of. -/
def Ending.result : Ending -> Except Stop Value
  | .returned v => .ok v
  | .thrown v => .error (.thrown v)

theorem outcome_eq_ok {n : Nat} {st : Store} {o : Outcome} (h : outcome m n st name args = .ok o) :
    callMethod m n name args { st with depth := 0 } = ended o.ending.result o.store := by
  unfold outcome EStateM.run at h
  split at h <;> cases h
  all_goals assumption

theorem Ending.result_injective : Function.Injective Ending.result := by
  rintro (v | v) (w | w) h <;> simp_all [Ending.result]

theorem not_outOfFuel_result (e : Ending) : e.result ≠ .error .outOfFuel := by
  cases e <;> simp [Ending.result]

def Ending.moved (ρ : Addresses) : Ending -> Ending
  | .returned v => .returned (ρ.value v)
  | .thrown v => .thrown (ρ.value v)

theorem Ending.moved_unchanged (e : Ending) : e.moved .unchanged = e := by
  cases e <;> simp [Ending.moved]

theorem Ending.result_moved (ρ : Addresses) (e : Ending) :
    (e.moved ρ).result = ρ.ending ρ.value e.result := by
  cases e <;> rfl

/-- A call with an outcome has it with more fuel. -/
theorem callMethod_of_le {n k : Nat} (hle : n ≤ k) {st : Store} {o : Outcome}
    (h : outcome m n st name args = .ok o) :
    callMethod m k name args { st with depth := 0 } = ended o.ending.result o.store := by
  have hrun := outcome_eq_ok h
  rw [← hrun]
  refine (steady_callMethod m name args).of_le hle ?_
  rw [hrun]
  exact not_wantsFuel_ended (not_outOfFuel_result o.ending)

/--
A host function that depends on nothing but its arguments and the arrays they lead to, and
that does not see any address.
-/
def Unaware (fn : HostFunction) : Prop :=
  ∀ ρ : Renaming, ρ.Serves fn

/-- A function that makes its value of its arguments. -/
theorem unaware_pure {g : List Value -> Value}
    (hg : ∀ (ρ : Addresses) args, g (ρ.values args) = ρ.value (g args)) :
    Unaware fun args => pure (g args) := by
  intro ρ args
  show ρ.Carries ρ.value (pure (g args)) (pure (g (ρ.values args)))
  rw [hg]
  exact Relocation.carries_pure (g args)

theorem unaware_first : Unaware Host.first :=
  unaware_pure fun ρ args => ρ.value_headD args

/-- The outcome of a call at new addresses, whatever fuel either run had. -/
theorem outcome_moved (ρ : Renaming) (hm : ∀ name fn, m.hosts name = some fn -> ρ.Serves fn)
    (hargs : ∀ v ∈ args, v.isPlain = true) (st base : Store)
    (hst : ρ.Covers { st with depth := 0 })
    (hbase : ρ.store { st with depth := 0 } = { base with depth := 0 }) {n n' : Nat} {o p : Outcome}
    (ho : outcome m n st name args = .ok o) (hp : outcome m n' base name args = .ok p) :
    p.ending = o.ending.moved ρ.toAddresses ∧ p.store = ρ.store o.store := by
  have hleft := callMethod_of_le (Nat.le_max_left n n') ho
  have hright := callMethod_of_le (Nat.le_max_right n n') hp
  obtain ⟨ending, st', hrun, -, hrun'⟩ := carries_callMethod ρ hm (max n n') name args _ hst
  obtain ⟨rfl, rfl⟩ := ended_inj (hleft.symm.trans hrun)
  have hmoved := hrun' (.inr (not_outOfFuel_result o.ending))
  rw [hbase, Value.moved_plains ρ.toAddresses hargs, hright, ← Ending.result_moved] at hmoved
  obtain ⟨hending, hstore⟩ := ended_inj hmoved
  exact ⟨Ending.result_injective hending, hstore⟩

section

variable (hm : ∀ name fn, m.hosts name = some fn -> Unaware fn)
  (hargs : ∀ v ∈ args, v.isPlain = true) {known : Memory} {n n' : Nat} {seen o : Outcome}
  (hseen : outcome m n { memory := known } name args = .ok seen)

include hm hargs hseen

/-- The run of a call with more of memory known. -/
theorem outcome_informed {memory : Memory} (hmemory : Memory.Includes memory known)
    (ho : outcome m n' { memory } name args = .ok o) :
    o.ending = seen.ending ∧ o.store = seen.store.withMemory memory := by
  obtain ⟨hending, hstore⟩ := outcome_moved (informing memory) (fun name fn h => hm name fn h _)
    hargs { memory := known } { memory } hmemory rfl hseen ho
  exact ⟨hending.trans (Ending.moved_unchanged seen.ending), hstore⟩

/-- The run of a call in the store that the first one would find behind another. -/
theorem outcome_behind {base : Store}
    (hmemory : Memory.Includes (base.memory ∘ (Addresses.behind base).cell) known)
    (ho : outcome m n' base name args = .ok o) :
    o.ending = seen.ending.moved (.behind base) ∧ o.store = base.behind seen.store :=
  outcome_moved (shifting False base) (fun name fn h => hm name fn h _) hargs
    { memory := known } base ⟨hmemory, False.elim⟩ (base.behind_empty known) hseen ho

end

/--
Two runs of one call in a new interpreter and in one that has made no host calls, each with
as much fuel as it was given.  If the call also ends with only those addresses known that the
two have in common, then they make the same host calls, and their outcomes are equal just when
the value that is returned or thrown has no array, no closure and no number that is unequal to
itself in it.

The addresses in common are all there are if both runs place what they make alike; there are
none that need be if no text shows any.
-/
theorem outcome_equal_iff (hm : ∀ name fn, m.hosts name = some fn -> Unaware fn)
    (hargs : ∀ v ∈ args, v.isPlain = true) {known memory : Memory} {base : Store}
    (hcalls : base.calls = #[]) (hfirst : Memory.Includes memory known)
    (hsecond : Memory.Includes (base.memory ∘ (Addresses.behind base).cell) known)
    {k n n' : Nat} {seen o p : Outcome}
    (hseen : outcome m k { memory := known } name args = .ok seen)
    (ho : outcome m n { memory } name args = .ok o) (hp : outcome m n' base name args = .ok p) :
    p.calls = o.calls ∧
      (o.equal p = true ↔ o.value.equalsItself = true ∧ o.thrownValue.equalsItself = true) := by
  obtain ⟨hending, hstore⟩ := outcome_informed hm hargs hseen hfirst ho
  obtain ⟨hmoved, hstore'⟩ := outcome_behind hm hargs hseen hsecond hp
  have hp_calls : p.calls = o.calls := by
    rw [Outcome.calls, hstore', Outcome.calls, hstore]
    rw [Store.behind, hcalls, Array.empty_append]
    rfl
  have hvalue : p.value = (Addresses.behind base).value o.value := by
    rw [Outcome.value, hmoved, Outcome.value, hending]
    cases seen.ending <;> rfl
  have hthrown : p.thrownValue = (Addresses.behind base).value o.thrownValue := by
    rw [Outcome.thrownValue, hmoved, Outcome.thrownValue, hending]
    cases seen.ending <;> rfl
  refine ⟨hp_calls, ?_⟩
  simp only [Outcome.equal, hvalue, hthrown, hp_calls, Value.equal_moved, BEq.rfl, Bool.and_true,
    Bool.and_eq_true]

/-- The unit of `m(int x) { Runnable r = () -> x; return Either.right(f(x) + r.apply()); }`. -/
def summingClosureUnit : CompilationUnit where
  file := "Sum.java"
  methods := [{
    name := "m"
    params := [⟨.nowhere, "x", "int"⟩]
    body := some (.mk .nowhere [
      .var .nowhere "r" "Runnable" (.lambda .nowhere [] (.value (.ident .nowhere "x" "int"))),
      .ret .nowhere (.call .nowhere (.ident .nowhere "Either" "") "right"
        [.binary .nowhere (.call .nowhere .missing "f" [.ident .nowhere "x" "int"] "int") .add
          (.call .nowhere (.ident .nowhere "r" "Runnable") "apply" [] "int")] "Either")]) }]

/-- The machine with a host function `f` that hands back its argument. -/
def summingClosureMachine : Machine where
  unit := summingClosureUnit
  hosts := Host.table [("f", Host.first)]

theorem unaware_summingClosureMachine (name : String) (fn : HostFunction)
    (h : summingClosureMachine.hosts name = some fn) : Unaware fn := by
  obtain ⟨l, r, hsplit, -⟩ := List.lookup_eq_some_iff.1 h
  have hmem : (name, fn) ∈ [("f", Host.first)] := by simp [hsplit]
  obtain ⟨-, rfl⟩ : name = "f" ∧ fn = Host.first := by simpa using hmem
  exact unaware_first

/-- Whether a call ends with a value that has no array and no closure in it. -/
def givesEqual (m : Machine) (n : Nat) (st : Store) (name : String) (args : List Value) : Bool :=
  match outcome m n st name args with
  | .ok o => o.value.equalsItself && o.thrownValue.equalsItself
  | .error _ => false

theorem outcome_of_givesEqual {n : Nat} {st : Store} (h : givesEqual m n st name args = true) :
    ∃ o, outcome m n st name args = .ok o ∧ o.value.equalsItself = true ∧
      o.thrownValue.equalsItself = true := by
  unfold givesEqual at h
  split at h
  next o ho => exact ⟨o, ho, Bool.and_eq_true_iff.1 h⟩
  next => cases h

/-- The closure of the second call is made in another scope and has another identity. -/
theorem outcome_equal_iff_summingClosure :
    ∃ o p, outcome summingClosureMachine 10 {} "m" [.int 2] = .ok o ∧
      outcome summingClosureMachine 20 { scopes := #[{}], closures := 3 } "m" [.int 2] = .ok p ∧
      p.calls = o.calls ∧ o.equal p = true := by
  have hargs : ∀ v ∈ [Value.int 2], v.isPlain = true := by simp [Value.isPlain]
  obtain ⟨seen, hseen, -⟩ := outcome_of_givesEqual (show givesEqual summingClosureMachine 10
    { memory := .unknown } "m" [.int 2] = true by decide +kernel)
  obtain ⟨o, ho, hequals⟩ := outcome_of_givesEqual
    (show givesEqual summingClosureMachine 10 {} "m" [.int 2] = true by decide +kernel)
  obtain ⟨p, hp, -⟩ := outcome_of_givesEqual (show givesEqual summingClosureMachine 20
    { scopes := #[{}], closures := 3 } "m" [.int 2] = true by decide +kernel)
  obtain ⟨hcalls, hequal⟩ := outcome_equal_iff unaware_summingClosureMachine hargs rfl
    (Memory.includes_unknown _) (Memory.includes_unknown _) hseen ho hp
  exact ⟨o, p, ho, hp, hcalls, hequal.2 hequals⟩

/-- The unit of `m() { return new int[1]; }`. -/
def rowUnit : CompilationUnit where
  file := "Row.java"
  methods := [{
    name := "m"
    body := some (.mk .nowhere [
      .ret .nowhere (.newArray .nowhere "int" [.literal .nowhere (.int 1) "1"] [] false)]) }]

/-- The unit of `m() { return "" + Either.right(() -> 1); }`. -/
def shownClosureUnit : CompilationUnit where
  file := "Shown.java"
  methods := [{
    name := "m"
    body := some (.mk .nowhere [
      .ret .nowhere (.binary .nowhere (.literal .nowhere (.str "") "") .add
        (.call .nowhere (.ident .nowhere "Either" "") "right"
          [.lambda .nowhere [] (.value (.literal .nowhere (.int 1) "1"))] "Either"))]) }]

def outcomesDiffer : Except NoOutcome Outcome -> Except NoOutcome Outcome -> Bool
  | .ok o, .ok p => !o.equal p
  | _, _ => false

/-- Two runs that return an array each, and two that return a text with an address in it. -/
theorem outcome_differs_rowUnit_shownClosureUnit :
    outcomesDiffer (outcome { unit := rowUnit } 10 {} "m" [])
      (outcome { unit := rowUnit } 10 {} "m" []) = true ∧
    outcomesDiffer (outcome { unit := shownClosureUnit } 10 { memory := fun _ => some 16 } "m" [])
      (outcome { unit := shownClosureUnit } 10 { memory := fun _ => some 32 } "m" []) = true :=
  ⟨by decide +kernel, by decide +kernel⟩

end Eval

end EarlyExit
