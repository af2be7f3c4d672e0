import EarlyExit.Proofs.Eval.Relocated
import EarlyExit.Proofs.Eval.Scopes

/-!
# What has to be known of memory

A run asks its memory for the addresses that its texts show and for no others.  So a run that
ends while only some addresses are known is the same run in every memory that has these:
where all else lies does not matter to it.
-/

namespace EarlyExit

def Memory.unknown : Memory :=
  fun _ => none

theorem Memory.includes_unknown (memory : Memory) : Memory.Includes memory .unknown :=
  fun _ _ h => by cases h

namespace Eval

open Run

def Addresses.unchanged : Addresses where
  scope := id
  array := id
  closure := id

namespace Addresses

mutual

@[simp] theorem value_unchanged : (v : Value) -> unchanged.value v = v
  | .object c args => by rw [value, values_unchanged args]
  | .container k alternate held => by rw [value, value_unchanged held]
  | .array _ | .closure .. | .null | .bool _ | .int _ | .float _ | .str _ => rfl

@[simp] theorem values_unchanged : (vs : List Value) -> unchanged.values vs = vs
  | [] => rfl
  | v :: rest => by rw [values, value_unchanged v, values_unchanged rest]

end

theorem stop_unchanged (stop : Stop) : unchanged.stop stop = stop := by
  cases stop <;> simp [Addresses.stop]

theorem ending_unchanged (ending : Except Stop Value) :
    unchanged.ending unchanged.value ending = ending := by
  cases ending <;> simp [Addresses.ending, stop_unchanged]

end Addresses

/-- The renaming that leaves everything where it is and tells more of memory. -/
def informing (memory : Memory) : Renaming where
  toAddresses := .unchanged
  store := Store.withMemory memory
  exact := False
  Covers st := Memory.Includes memory st.memory
  Own _ := True
  array_injective := Function.injective_id
  closure_injective := Function.injective_id
  covers_of_le h hmemory _ _ _ := hmemory ▸ h
  own_size _ := trivial
  get? {st} _ s x := by
    rw [funext Addresses.value_unchanged, Option.map_id']
    exact st.get?_withMemory memory s x
  assign? {st} _ s x v := by
    rw [Addresses.value_unchanged, Store.assign?, Store.assign?, Option.map_map]
    exact congrArg (Option.map _) (st.find?_withMemory memory s x)
  define _ _ x v := by
    rw [Addresses.value_unchanged]
    rfl
  push _ outer := by
    rw [show Addresses.unchanged.scope = id from rfl, Option.map_id]
    rfl
  alloc _ elems := by
    rw [funext Addresses.value_unchanged, Array.map_id']
    rfl
  elems {st} _ ref := by
    rw [funext Addresses.value_unchanged, Array.map_id']
    rfl
  setElem _ ref i v := by
    rw [Addresses.value_unchanged]
    rfl
  text? {st} h v hv := by
    obtain ⟨text, htext⟩ := Option.isSome_iff_exists.1 (hv.resolve_left id)
    rw [Addresses.value_unchanged, htext]
    exact h.spell? htext
  close _ := ⟨rfl, rfl⟩
  log _ _ := rfl
  depth _ := rfl
  enter _ := rfl
  leave _ := rfl

theorem informing_values (memory : Memory) (vs : List Value) :
    (informing memory).values vs = vs :=
  Addresses.values_unchanged vs

variable {memory : Memory} {st : Store}

/-- What ends with the addresses that are known ends in the same way with more of them. -/
theorem informed {x : Run Value} (hx : (informing memory).Carries Addresses.unchanged.value x x)
    (hst : Memory.Includes memory st.memory) {ending : Except Stop Value} {st' : Store}
    (hrun : x st = ended ending st') (hends : ending ≠ .error .outOfFuel) :
    x (st.withMemory memory) = ended ending (st'.withMemory memory) := by
  obtain ⟨ending', st'', hleft, -, hright⟩ := hx st hst
  obtain ⟨rfl, rfl⟩ := ended_inj (hrun.symm.trans hleft)
  have hsame : Addresses.unchanged.ending Addresses.unchanged.value ending = ending :=
    Addresses.ending_unchanged ending
  rw [← hsame]
  exact hright (.inr hends)

end Eval

end EarlyExit
