import EarlyExit.Proofs.Eval.Growth
import EarlyExit.Proofs.Eval.Rerun
import Mathlib.Data.List.Induction

/-!
# Calls one after another

From one call to the next an interpreter keeps its log and its count of calls under way, and
the scopes, arrays and closures of earlier calls are still there.  None of it shows.  However
the earlier calls ended, no call is under way between them, so the next call does in the
store they left what it does in a new one, at addresses behind all that is there.  A text that
shows an address shows the one that the array or closure has in the run at hand.
-/

namespace EarlyExit

namespace Store

/-- The memory that is left for what is not made yet. -/
def beyond (st : Store) : Memory :=
  st.memory ∘ (Eval.Addresses.behind st).cell

/-- The cell has been made. -/
def Holds (st : Store) : Cell -> Prop
  | .array ref => ref < st.arrays.size
  | .closure id => id < st.closures
  | .scope s => s < st.scopes.size

/-- What is not made yet may come to lie anywhere. -/
theorem exists_beyond (st : Store) (other : Memory) : ∃ memory,
    (∀ c, st.Holds c -> memory c = st.memory c) ∧ (st.withMemory memory).beyond = other := by
  let memory : Memory
    | .array ref => if ref < st.arrays.size then st.memory (.array ref)
        else other (.array (ref - st.arrays.size))
    | .closure id => if id < st.closures then st.memory (.closure id)
        else other (.closure (id - st.closures))
    | .scope s => if s < st.scopes.size then st.memory (.scope s)
        else other (.scope (s - st.scopes.size))
  refine ⟨memory, fun c hc => ?_, funext fun c => ?_⟩
  · cases c <;> exact if_pos hc
  · cases c <;>
      simp [beyond, withMemory, memory, Eval.Addresses.behind, Eval.Addresses.cell]

end Store

namespace Eval

open Run

/-- A call from outside.  The arrays that its arguments refer to are its own. -/
structure Request where
  method : String
  args : List Value
  /-- The arrays of the arguments, addressed from zero. -/
  arrays : Array (Array Value) := #[]

/-- A host function that depends on nothing but its arguments, and starts and ends no call. -/
structure Independent (fn : HostFunction) : Prop where
  unaware : Unaware fn
  balanced : ∀ args, balance.Keeps (fn args)

namespace Request

variable (m : Machine) (n : Nat)

/-- The call on a new interpreter in some memory. -/
def alone (memory : Memory) (c : Request) : EStateM.Result Stop Store Value :=
  callMethod m n c.method c.args { arrays := c.arrays, memory }

/-- The call on an interpreter in some state, which has the arrays of the arguments added to it. -/
def after (st : Store) (c : Request) : EStateM.Result Stop Store Value :=
  let ρ := Addresses.behind st
  callMethod m n c.method (ρ.values c.args)
    { st with arrays := st.arrays ++ c.arrays.map fun xs => xs.map ρ.value }

/-- The state of a new interpreter in some memory after some calls. -/
def worked (memory : Memory) (cs : List Request) : Store :=
  cs.foldl (fun st c => storeOf (c.after m n st)) { memory }

/-- The host calls that a call logs on a new interpreter in some memory. -/
def log (memory : Memory) (c : Request) : List String :=
  (storeOf (c.alone m n memory)).calls.toList

/-- Calls one after another, each with the memory that is left to it. -/
def placed (st : Store) : List Request -> List (Request × Memory)
  | [] => []
  | c :: rest => (c, st.beyond) :: placed (storeOf (c.after m n st)) rest

/-- The call ends without a text that shows where in memory anything lies. -/
def Placeless (c : Request) : Prop :=
  ¬WantsFuel (c.alone m n .unknown)

variable {m n}

/-- An interpreter with no call under way finds the arguments behind all that it has. -/
theorem store_after {st : Store} (h : st.depth = 0) (arrays : Array (Array Value))
    (memory : Memory) :
    { st with arrays := st.arrays ++ arrays.map fun xs => xs.map (Addresses.behind st).value } =
      st.behind { arrays, memory } := by
  simp [Store.behind, h]

variable (hm : ∀ name fn, m.hosts name = some fn -> Independent fn)

include hm

/-- However a call on a new interpreter ends, no call is under way then. -/
theorem depth_alone (memory : Memory) (c : Request) : (storeOf (c.alone m n memory)).depth = 0 :=
  balance.keeps_callMethod (fun name fn hfn => (hm name fn hfn).balanced) n c.method c.args _

/-- The next call does at other addresses what it does on a new interpreter. -/
theorem after_eq {st : Store} (hst : st.depth = 0) (c : Request) : ∃ ending own,
    c.alone m n st.beyond = ended ending own ∧
      c.after m n st = ended ((Addresses.behind st).ending (Addresses.behind st).value ending)
        (st.behind own) := by
  obtain ⟨ending, own, hleft, -, hright⟩ :=
    carries_callMethod (shifting True st) (fun name fn hfn => (hm name fn hfn).unaware _) n c.method
      c.args { arrays := c.arrays, memory := st.beyond } ⟨fun _ _ h => h, fun _ => rfl⟩
  refine ⟨ending, own, hleft, ?_⟩
  rw [after, store_after hst c.arrays st.beyond]
  exact hright (.inl trivial)

/-- A call that shows no address does the same wherever in memory it runs. -/
theorem Placeless.alone_eq {c : Request} (h : c.Placeless m n) : ∃ ending, ∃ own : Store,
    ∀ memory, c.alone m n memory = ended ending (own.withMemory memory) := by
  obtain ⟨ending, own, hends, hrun⟩ := (wantsFuel_or_ended (c.alone m n .unknown)).resolve_left h
  refine ⟨ending, own, fun memory => ?_⟩
  have hcarries := carries_callMethod (informing memory)
    (fun name fn hfn => (hm name fn hfn).unaware _) n c.method c.args
  rw [informing_values] at hcarries
  exact informed hcarries (memory.includes_unknown) hrun hends

theorem Placeless.log_eq {c : Request} (h : c.Placeless m n) (memory other : Memory) :
    c.log m n memory = c.log m n other := by
  obtain ⟨ending, own, hrun⟩ := h.alone_eq hm
  rw [log, log, hrun memory, hrun other, storeOf_ended, storeOf_ended]
  rfl

/-- The next call leaves no call under way, and its own log behind that of the others. -/
theorem storeOf_after {st : Store} (hst : st.depth = 0) (c : Request) :
    (storeOf (c.after m n st)).depth = 0 ∧
      (storeOf (c.after m n st)).calls.toList = st.calls.toList ++ c.log m n st.beyond := by
  obtain ⟨ending, own, halone, hafter⟩ := after_eq hm hst c
  have hdepth := depth_alone hm st.beyond c (n := n)
  rw [log]
  rw [halone, storeOf_ended] at hdepth ⊢
  rw [hafter, storeOf_ended]
  exact ⟨hdepth, Array.toList_append⟩

/-- After any calls none is under way, and the log has those of the calls in order. -/
theorem worked_eq {st : Store} (hst : st.depth = 0) (cs : List Request) :
    (cs.foldl (fun st c => storeOf (c.after m n st)) st).depth = 0 ∧
      (cs.foldl (fun st c => storeOf (c.after m n st)) st).calls.toList =
        st.calls.toList ++ (placed m n st cs).flatMap fun x => x.1.log m n x.2 := by
  induction cs generalizing st with
  | nil => exact ⟨hst, by simp [placed]⟩
  | cons c rest ih =>
      obtain ⟨hdepth, hcalls⟩ := storeOf_after hm hst c (n := n)
      obtain ⟨hdepth', hcalls'⟩ := ih hdepth
      refine ⟨hdepth', ?_⟩
      rw [List.foldl_cons, hcalls', hcalls, placed, List.flatMap_cons, List.append_assoc]

theorem flatMap_placed {cs : List Request} (hcs : ∀ c ∈ cs, c.Placeless m n) (st : Store)
    (memory : Memory) : ((placed m n st cs).flatMap fun x => x.1.log m n x.2) =
      cs.flatMap fun c => c.log m n memory := by
  induction cs generalizing st with
  | nil => rfl
  | cons c rest ih =>
      rw [placed, List.flatMap_cons, List.flatMap_cons, ih fun c hc => hcs c (by simp [hc]),
        (hcs c (by simp)).log_eq hm st.beyond memory]

end Request

/-- A function that makes its value of its arguments. -/
theorem independent_pure {g : List Value -> Value}
    (hg : ∀ (ρ : Addresses) args, g (ρ.values args) = ρ.value (g args)) :
    Independent fun args => pure (g args) :=
  ⟨unaware_pure hg, fun _ => Passage.keeps_pure _⟩

/-- The expression `f(a[0])`. -/
def firstElement : Expr :=
  .call .nowhere .missing "f"
    [.index .nowhere (.ident .nowhere "a" "int[]") (.literal .nowhere (.int 0) "0") "int"] "int"

/-- The unit of `m(int[] a) { f(a[0]); return m(a); }` and `k(int[] a) { return f(a[0]); }`. -/
def endlessUnit : CompilationUnit where
  file := "Endless.java"
  methods := [
    { name := "m"
      params := [⟨.nowhere, "a", "int[]"⟩]
      body := some (.mk .nowhere [
        .expr .nowhere firstElement,
        .ret .nowhere (.call .nowhere .missing "m" [.ident .nowhere "a" "int[]"] "int")]) },
    { name := "k"
      params := [⟨.nowhere, "a", "int[]"⟩]
      body := some (.mk .nowhere [.ret .nowhere firstElement]) }]

/-- The machine that has two calls under way at most. -/
def shallowMachine : Machine where
  unit := endlessUnit
  hosts name := if name = "f" then some Host.first else none
  maxDepth := 2

theorem independent_shallowMachine (name : String) (fn : HostFunction)
    (h : shallowMachine.hosts name = some fn) : Independent fn := by
  simp only [shallowMachine, Option.ite_none_right_eq_some, Option.some.injEq] at h
  obtain ⟨-, rfl⟩ := h
  exact independent_pure fun ρ args => ρ.value_headD args

def returns (i : Int64) : EStateM.Result Stop Store Value -> Bool
  | .ok (.int j) _ => j == i
  | _ => false

/-- The call with an array of one number. -/
def Request.ofElement (method : String) (i : Int64) : Request where
  method
  args := [.array 0]
  arrays := #[#[.int i]]

end Eval

end EarlyExit
