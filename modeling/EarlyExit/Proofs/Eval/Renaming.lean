import EarlyExit.Proofs.Eval.Constructs
import Mathlib.Data.List.Basic

/-!
# New addresses

What a program does depends on the addresses of its scopes, arrays and closures only as
far as they tell these apart.  A renaming takes a store to one with other addresses, where
every access gives the renamed result; then a whole run does.
-/

namespace EarlyExit

namespace Store

theorem elems_of_size_le {st : Store} {ref : Nat} (h : st.arrays.size ≤ ref) :
    st.elems ref = #[] := by
  rw [elems, Array.getD_eq_getD_getElem?, Array.getElem?_eq_none h, Option.getD_none]

/-- The text of an array, which has no elements if it is not there. -/
theorem arrayTexts_alone (st : Store) (seen : List Nat) (ref : Nat) :
    arrayTexts st.arrays seen .alone ref = if ref ∈ seen then [.chars "[...]"] else
      .chars "[" :: Value.Piece.row ", " ((st.elems ref).toList.map
        (Value.piecesWith (arrayTexts st.arrays (ref :: seen)) .alone)) ++ [.chars "]"] := by
  rw [arrayTexts]
  by_cases hseen : ref ∈ seen
  · simp [hseen]
  by_cases hsize : ref < st.arrays.size
  · simp [hseen, hsize, elems]
  · simp [hseen, hsize, elems_of_size_le (Nat.le_of_not_lt hsize), Value.Piece.row]

theorem arrayTexts_held (st : Store) (seen : List Nat) (ref : Nat) :
    arrayTexts st.arrays seen .held ref = if ref ∈ seen then [.chars "[...]"] else
      .chars "&\x7b[" :: Value.Piece.row " " ((st.elems ref).toList.map
        (Value.piecesWith (arrayTexts st.arrays (ref :: seen)) .element)) ++
          [.chars "]\x7d"] := by
  rw [arrayTexts]
  by_cases hseen : ref ∈ seen
  · simp [hseen]
  by_cases hsize : ref < st.arrays.size
  · simp [hseen, hsize, elems]
  · simp [hseen, hsize, elems_of_size_le (Nat.le_of_not_lt hsize), Value.Piece.row]

end Store

/-- What is known in one memory is known in another. -/
def Memory.Includes (memory known : Memory) : Prop :=
  ∀ c address, known c = some address -> memory c = some address

theorem Memory.Includes.spell? {memory known : Memory} (h : Memory.Includes memory known)
    {pieces : List Value.Piece} {text : String}
    (htext : Value.Piece.spell? known pieces = some text) :
    Value.Piece.spell? memory pieces = some text := by
  induction pieces generalizing text with
  | nil => exact htext
  | cons p rest ih =>
      cases p with
      | chars s =>
          obtain ⟨t, ht, rfl⟩ := Option.map_eq_some_iff.1 htext
          rw [Value.Piece.spell?, ih ht, Option.map_some]
      | address c =>
          obtain ⟨a, ha, hrest⟩ := Option.bind_eq_some_iff.1 htext
          obtain ⟨t, ht, rfl⟩ := Option.map_eq_some_iff.1 hrest
          rw [Value.Piece.spell?, h c a ha, ih ht, Option.bind_some, Option.map_some]

namespace Eval

open Run

/-- New addresses of scopes, arrays and closures. -/
structure Addresses where
  scope : Nat -> Nat
  array : Nat -> Nat
  closure : Nat -> Nat

namespace Addresses

variable (ρ : Addresses)

mutual

def value : Value -> Value
  | .array ref => .array (ρ.array ref)
  | .object c args => .object c (values args)
  | .closure id params body s => .closure (ρ.closure id) params body (ρ.scope s)
  | .container k alternate held => .container k alternate (value held)
  | .null => .null
  | .bool b => .bool b
  | .int i => .int i
  | .float x => .float x
  | .str s => .str s

def values : List Value -> List Value
  | [] => []
  | v :: rest => value v :: values rest

end

theorem values_eq_map (vs : List Value) : ρ.values vs = vs.map ρ.value := by
  induction vs with
  | nil => rfl
  | cons v rest ih => rw [values, ih, List.map_cons]

def completion : Completion -> Completion
  | .returned v => .returned (ρ.value v)
  | .yielded v => .yielded (ρ.value v)
  | .normal => .normal
  | .broke label => .broke label
  | .continued label => .continued label

def stop : Stop -> Stop
  | .thrown v => .thrown (ρ.value v)
  | .exit container => .exit (ρ.value container)
  | .failed f => .failed f
  | .outOfFuel => .outOfFuel

def ending (φ : α -> β) : Except Stop α -> Except Stop β
  | .ok a => .ok (φ a)
  | .error stop => .error (ρ.stop stop)

def frame (f : Frame) : Frame where
  scope := ρ.scope f.scope

/-! ## Values under new addresses -/

variable (v w : Value)

@[simp] theorem isText_value : isText (ρ.value v) = isText v := by
  cases v <;> rfl

@[simp] theorem toFloat?_value : toFloat? (ρ.value v) = toFloat? v := by
  cases v <;> rfl

@[simp] theorem className_value : (ρ.value v).className = v.className := by
  cases v <;> rfl

@[simp] theorem catches_value (param : Option Param) :
    catches param (ρ.value v) = catches param v := by
  simp [catches]

@[simp] theorem value_ofLiteral (l : Literal) : ρ.value (.ofLiteral l) = .ofLiteral l := by
  cases l <;> rfl

@[simp] theorem value_zero (type : String) : ρ.value (.zero type) = .zero type := by
  unfold Value.zero
  split <;> rfl

theorem value_headD (vs : List Value) :
    (ρ.values vs).headD .null = ρ.value (vs.headD .null) := by
  cases vs <;> rfl

theorem value_alternate (k : Kind) : ρ.value (.alternate k v) = .alternate k (ρ.value v) := by
  unfold Value.alternate
  cases k.alternateAccessor.isEmpty <;> rfl

theorem arithmetic_value (op : Operator) :
    arithmetic op (ρ.value v) (ρ.value w) = arithmetic op v w := by
  cases v with
  | bool | int | float => cases w <;> rfl
  | _ => rfl

/-- What comes of arithmetic has no parts. -/
theorem value_arithmetic {op : Operator} {v w u : Value} (h : arithmetic op v w = some u) :
    ρ.value u = u := by
  unfold arithmetic at h
  split at h
  · unfold boolOp at h
    split at h <;> cases h <;> rfl
  · unfold intOp at h
    split at h <;> cases h <;> rfl
  · split at h
    · unfold floatOp at h
      split at h <;> cases h <;> rfl
    · cases h

/-! ## Texts under new addresses -/

def cell : Cell -> Cell
  | .array ref => .array (ρ.array ref)
  | .closure id => .closure (ρ.closure id)
  | .scope s => .scope (ρ.scope s)

def piece : Value.Piece -> Value.Piece
  | .chars s => .chars s
  | .address c => .address (ρ.cell c)

theorem map_row (between : String) (texts : List (List Value.Piece)) :
    (Value.Piece.row between texts).map ρ.piece =
      Value.Piece.row between (texts.map (List.map ρ.piece)) := by
  induction texts with
  | nil => rfl
  | cons text rest ih =>
      cases rest with
      | nil => rfl
      | cons => simp only [Value.Piece.row, List.map_append, List.map_cons, ih, piece]

variable {ρ}

mutual

theorem piecesWith_value {arrays arrays' : Value.Manner -> Nat -> List Value.Piece}
    (h : ∀ manner ref, arrays manner (ρ.array ref) = (arrays' manner ref).map ρ.piece) :
    (v : Value) -> (manner : Value.Manner) ->
      (ρ.value v).piecesWith arrays manner = (v.piecesWith arrays' manner).map ρ.piece
  | .object c args, manner => by
      cases manner <;>
        simp only [value, Value.piecesWith, eachWith_values h args, List.map_cons, List.map_append,
          map_row, piece, List.map_nil]
  | .container k alternate v, manner => by
      cases manner <;>
        simp only [value, Value.piecesWith, piecesWith_value h v .held] <;>
        split <;> simp [piece]
  | .array ref, manner => by
      cases manner <;> exact h _ ref
  | .closure .., manner | .null, manner | .bool _, manner | .int _, manner | .float _, manner
  | .str _, manner => by
      cases manner <;> rfl

theorem eachWith_values {arrays arrays' : Value.Manner -> Nat -> List Value.Piece}
    (h : ∀ manner ref, arrays manner (ρ.array ref) = (arrays' manner ref).map ρ.piece) :
    (vs : List Value) -> Value.eachWith arrays (ρ.values vs) =
      (Value.eachWith arrays' vs).map (List.map ρ.piece)
  | [] => rfl
  | v :: rest => by
      simp only [values, Value.eachWith, piecesWith_value h v .alone, eachWith_values h rest,
        List.map_cons]

end

variable {st st' : Store} (hinj : Function.Injective ρ.array)
  (helems : ∀ ref, st'.elems (ρ.array ref) = (st.elems ref).map ρ.value)

include hinj helems

/-- Arrays with the same elements have the same text, inside the same arrays. -/
theorem arrayTexts_array (seen : List Nat) (manner : Value.Manner) (ref : Nat) :
    Store.arrayTexts st'.arrays (seen.map ρ.array) manner (ρ.array ref) =
      (Store.arrayTexts st.arrays seen manner ref).map ρ.piece := by
  have hseen : ρ.array ref ∈ seen.map ρ.array ↔ ref ∈ seen := List.mem_map_of_injective hinj
  -- an array without elements, as one that is not there, has no arrays inside
  have hinner (hnew : ref ∉ seen) (manner : Value.Manner) :
      (st'.elems (ρ.array ref)).toList.map (Value.piecesWith
          (Store.arrayTexts st'.arrays (ρ.array ref :: seen.map ρ.array)) manner) =
        ((st.elems ref).toList.map (Value.piecesWith
          (Store.arrayTexts st.arrays (ref :: seen)) manner)).map (List.map ρ.piece) := by
    rw [helems, Array.toList_map, List.map_map, List.map_map]
    refine List.map_congr_left fun v hv => ?_
    have hsize : ref < st.arrays.size := Nat.lt_of_not_le fun hge => by
      simp [Store.elems_of_size_le hge] at hv
    have hless := Store.length_unseen_lt hsize hnew
    exact piecesWith_value (arrayTexts_array (ref :: seen)) v manner
  cases manner with
  | alone =>
      rw [Store.arrayTexts_alone, Store.arrayTexts_alone]
      simp only [hseen]
      split
      next => rfl
      next hnew =>
        rw [hinner hnew, List.map_append, List.map_cons, map_row]
        rfl
  | held =>
      rw [Store.arrayTexts_held, Store.arrayTexts_held]
      simp only [hseen]
      split
      next => rfl
      next hnew =>
        rw [hinner hnew, List.map_append, List.map_cons, map_row]
        rfl
  | element =>
      rw [Store.arrayTexts, Store.arrayTexts]
      rfl
termination_by (Store.unseen st.arrays seen).length

theorem pieces_value (v : Value) : st'.pieces (ρ.value v) = (st.pieces v).map ρ.piece :=
  piecesWith_value (fun manner ref => arrayTexts_array hinj helems [] manner ref) v .alone

omit hinj helems in
theorem spell?_map (memory : Memory) (pieces : List Value.Piece) :
    Value.Piece.spell? memory (pieces.map ρ.piece) =
      Value.Piece.spell? (memory ∘ ρ.cell) pieces := by
  induction pieces with
  | nil => rfl
  | cons p rest ih =>
      cases p <;> simp only [List.map_cons, piece, Value.Piece.spell?, ih, Function.comp_apply]

theorem text?_value (v : Value) :
    st'.text? (ρ.value v) = Value.Piece.spell? (st'.memory ∘ ρ.cell) (st.pieces v) := by
  rw [Store.text?, pieces_value hinj helems, spell?_map]

end Addresses

/-! ## Memories under new addresses -/

/-- The memory at the new addresses knows what another one knows; if that is exact, nothing else. -/
structure Addresses.Informs (ρ : Addresses) (exact : Prop) (known memory : Memory) : Prop where
  includes : Memory.Includes (memory ∘ ρ.cell) known
  same : exact -> memory ∘ ρ.cell = known

theorem Addresses.Informs.text? {ρ : Addresses} {exact : Prop} {st st' : Store}
    (h : ρ.Informs exact st.memory st'.memory) (hinj : Function.Injective ρ.array)
    (helems : ∀ ref, st'.elems (ρ.array ref) = (st.elems ref).map ρ.value) {v : Value}
    (hv : exact ∨ (st.text? v).isSome = true) : st'.text? (ρ.value v) = st.text? v := by
  rw [text?_value hinj helems]
  rcases hv with hexact | hsome
  · rw [h.same hexact, Store.text?]
  · obtain ⟨text, htext⟩ := Option.isSome_iff_exists.1 hsome
    rw [htext]
    exact h.includes.spell? htext

/-! ## Stores under new addresses -/

/-- What becomes of the stores that a renaming is made for. -/
structure Relocation extends Addresses where
  store : Store -> Store
  /-- Whether a run that comes to an unknown address does so under the new addresses too. -/
  exact : Prop
  Covers : Store -> Prop
  /-- The scopes that code may declare variables in. -/
  Own : Nat -> Prop

/--
A renaming after which every access to the store gives the renamed result.  Stores that
have grown are still covered.
-/
structure Renaming extends Relocation where
  array_injective : Function.Injective array
  closure_injective : Function.Injective closure
  covers_of_le : ∀ {st st'}, Covers st -> st'.memory = st.memory ->
    st.scopes.size ≤ st'.scopes.size -> st.arrays.size ≤ st'.arrays.size ->
    st.closures ≤ st'.closures -> Covers st'
  own_size : ∀ {st}, Covers st -> Own st.scopes.size
  get? : ∀ {st}, Covers st -> ∀ s x,
    (store st).get? (scope s) x = (st.get? s x).map toAddresses.value
  assign? : ∀ {st}, Covers st -> ∀ s x v,
    (store st).assign? (scope s) x (toAddresses.value v) = (st.assign? s x v).map store
  define : ∀ {st s}, Covers st -> Own s -> ∀ x v,
    (store st).define (scope s) x (toAddresses.value v) = store (st.define s x v)
  push : ∀ {st}, Covers st -> ∀ outer,
    (store st).push (outer.map scope) = (scope (st.push outer).1, store (st.push outer).2)
  alloc : ∀ {st}, Covers st -> ∀ elems,
    (store st).alloc (elems.map toAddresses.value) =
      (toAddresses.value (st.alloc elems).1, store (st.alloc elems).2)
  elems : ∀ {st}, Covers st -> ∀ ref,
    (store st).elems (array ref) = (st.elems ref).map toAddresses.value
  setElem : ∀ {st}, Covers st -> ∀ ref i v,
    (store st).setElem (array ref) i (toAddresses.value v) = store (st.setElem ref i v)
  text? : ∀ {st}, Covers st -> ∀ v, exact ∨ (st.text? v).isSome = true ->
    (store st).text? (toAddresses.value v) = st.text? v
  close : ∀ {st}, Covers st -> closure st.closures = (store st).closures ∧
    { store st with closures := (store st).closures + 1 } =
      store { st with closures := st.closures + 1 }
  log : ∀ {st}, Covers st -> ∀ call,
    { store st with calls := (store st).calls.push call } =
      store { st with calls := st.calls.push call }
  depth : ∀ {st}, Covers st -> (store st).depth = st.depth
  enter : ∀ {st}, Covers st -> (store st).enter = store st.enter
  leave : ∀ {st}, Covers st -> (store st).leave = store st.leave

namespace Relocation

/--
A computation and one that does the same at the new addresses, at least where the first does
not give up.
-/
def Carries (ρ : Relocation) (φ : α -> γ) (x : Run α) (y : Run γ) : Prop :=
  ∀ st, ρ.Covers st -> ∃ ending st', x st = ended ending st' ∧ ρ.Covers st' ∧
    (ρ.exact ∨ ending ≠ .error .outOfFuel ->
      y (ρ.store st) = ended (ρ.ending φ ending) (ρ.store st'))

variable {ρ : Relocation} {φ : α -> γ} {ψ : β -> δ}

theorem carries_of_ok {x : Run α} {y : Run γ}
    (h : ∀ st, ρ.Covers st -> ∃ a st', x st = .ok a st' ∧ ρ.Covers st' ∧
      y (ρ.store st) = .ok (φ a) (ρ.store st')) : ρ.Carries φ x y := by
  intro st hst
  obtain ⟨a, st', hleft, hst', hright⟩ := h st hst
  exact ⟨.ok a, st', hleft, hst', fun _ => hright⟩

theorem carries_pure (a : α) : ρ.Carries φ (pure a) (pure (φ a)) :=
  carries_of_ok fun st hst => ⟨a, st, rfl, hst, rfl⟩

theorem carries_stop (stop : Stop) : ρ.Carries φ (throw stop) (throw (ρ.stop stop)) :=
  fun st hst => ⟨.error stop, st, rfl, hst, fun _ => rfl⟩

theorem Carries.attempt {x : Run α} {y : Run γ} {k : Except Stop α -> Run β}
    {k' : Except Stop γ -> Run δ} (hx : ρ.Carries φ x y)
    (hk : ∀ ending, ρ.Carries ψ (k ending) (k' (ρ.ending φ ending))) :
    ρ.Carries ψ (x.attempt k) (y.attempt k') := by
  intro st hst
  obtain ⟨ending, st', hleft, hst', hright⟩ := hx st hst
  by_cases hends : ending = .error .outOfFuel
  · subst hends
    refine ⟨.error .outOfFuel, st', ?_, hst', fun hexact => ?_⟩
    · rw [Run.attempt, hleft]
      rfl
    · rw [Run.attempt, hright (hexact.imp id fun h => absurd rfl h)]
      rfl
  · have hends' : ρ.ending φ ending ≠ .error .outOfFuel := by
      cases ending with
      | ok => simp [Addresses.ending]
      | error stop => cases stop <;> simp_all [Addresses.ending, Addresses.stop]
    rw [attempt_ended hleft hends, attempt_ended (hright (.inr hends)) hends']
    exact hk ending st' hst'

theorem Carries.bind {x : Run α} {y : Run γ} {g : α -> Run β} {g' : γ -> Run δ}
    (hx : ρ.Carries φ x y) (hg : ∀ a, ρ.Carries ψ (g a) (g' (φ a))) :
    ρ.Carries ψ (x >>= g) (y >>= g') := by
  rw [bind_eq, bind_eq]
  refine hx.attempt fun ending => ?_
  cases ending with
  | ok a => exact hg a
  | error stop => exact carries_stop stop

theorem carries_fail (f : Failure) : ρ.Carries φ (Run.fail f) (Run.fail f) :=
  carries_stop (.failed f)

theorem carries_raise (className message : String) :
    ρ.Carries φ (Run.raise className message) (Run.raise className message) :=
  carries_stop (.thrown (.exception className message))

theorem carries_fail_bind (f : Failure) (g : α -> Run β) (g' : γ -> Run δ) :
    ρ.Carries ψ (Run.fail f >>= g) (Run.fail f >>= g') :=
  carries_stop (.failed f)

theorem carries_raise_bind (className message : String) (g : α -> Run β) (g' : γ -> Run δ) :
    ρ.Carries ψ (Run.raise className message >>= g) (Run.raise className message >>= g') :=
  carries_stop (.thrown (.exception className message))

/-- A failure that shows a value. -/
theorem Carries.fail_text {v w : Value} {f : String -> Failure}
    (h : ρ.Carries id (Run.text v) (Run.text w)) :
    ρ.Carries φ (do Run.fail (f (← Run.text v))) (do Run.fail (f (← Run.text w))) :=
  h.bind fun text => carries_fail (f text)

end Relocation

namespace Renaming

open Addresses Relocation

variable {ρ : Renaming} {φ : α -> γ} {ψ : β -> δ}

theorem beq_of_injective {g : Nat -> Nat} (h : Function.Injective g) (a b : Nat) :
    (g a == g b) = (a == b) :=
  Bool.eq_iff_iff.2 (by simp [h.eq_iff])

mutual

theorem equal_value : (v w : Value) -> (ρ.value v).equal true (ρ.value w) = v.equal true w
  | .container k a v, .container l b w => by
      simp only [value, Value.equal, equal_value v w]
  | .object c vs, .object d ws => by
      simp only [value, Value.equal, equalAll_values vs ws]
  | .container .., .null | .container .., .bool _ | .container .., .int _
  | .container .., .float _ | .container .., .str _ | .container .., .array _
  | .container .., .object .. | .container .., .closure .. => rfl
  | .object .., .null | .object .., .bool _ | .object .., .int _ | .object .., .float _
  | .object .., .str _ | .object .., .array _ | .object .., .container ..
  | .object .., .closure .. => rfl
  | .array a, w => by
      cases w <;> simp [value, Value.equal, Value.equalLeaf, beq_of_injective ρ.array_injective]
  | .closure a _ _ _, w => by
      cases w <;>
        simp [value, Value.equal, Value.equalLeaf, beq_of_injective ρ.closure_injective]
  | .null, w | .bool _, w | .int _, w | .float _, w | .str _, w => by
      cases w <;> rfl

theorem equalAll_values :
    (vs ws : List Value) -> Value.equalAll true (ρ.values vs) (ρ.values ws) =
      Value.equalAll true vs ws
  | [], [] => rfl
  | [], _ :: _ | _ :: _, [] => rfl
  | v :: vs, w :: ws => by
      simp only [values, Value.equalAll, equal_value v w, equalAll_values vs ws]

end

/-- A value that has no address in it. -/
theorem carries_same {v : Value} (h : ρ.value v = v) :
    ρ.Carries ρ.value (pure v) (pure v) := by
  have hpure : ρ.Carries ρ.value (pure v) (pure (ρ.value v)) := carries_pure v
  rwa [h] at hpure

/-! ## Access to the store -/

/-- What is known of the stores on both sides. -/
theorem carries_told {g g' : Store -> Option α}
    (h : ∀ st, ρ.Covers st -> ρ.exact ∨ (g st).isSome = true -> g' (ρ.store st) = g st) :
    ρ.Carries id (do told (g (← get))) (do told (g' (← get))) := by
  refine fun st hst => ⟨tell (g st), st, told_eq (g st) st, hst, fun hexact => ?_⟩
  have hsame : g' (ρ.store st) = g st := h st hst (hexact.imp id fun hends => by
    cases hg : g st with
    | none => exact absurd (by rw [hg]; rfl) hends
    | some => rfl)
  refine (told_eq (g' (ρ.store st)) (ρ.store st)).trans ?_
  rw [hsame]
  cases g st <;> rfl

theorem carries_text (v : Value) : ρ.Carries id (Run.text v) (Run.text (ρ.value v)) :=
  carries_told fun _ hst hv => ρ.text? hst v hv

theorem texts?_values {st : Store} (hst : ρ.Covers st) (vs : List Value)
    (hvs : ρ.exact ∨ (vs.mapM st.text?).isSome = true) :
    (ρ.values vs).mapM (ρ.store st).text? = vs.mapM st.text? := by
  induction vs with
  | nil => rfl
  | cons v rest ih =>
      rw [values, List.mapM_cons, List.mapM_cons]
      cases hv : st.text? v with
      | none =>
          have hexact : ρ.exact := hvs.resolve_right (by simp [List.mapM_cons, hv])
          rw [ρ.text? hst v (.inl hexact), hv]
          rfl
      | some text =>
          rw [ρ.text? hst v (.inr (by rw [hv]; rfl)), hv, ih (hvs.imp id fun hsome => ?_)]
          rw [List.mapM_cons, hv] at hsome
          cases hrest : rest.mapM st.text? with
          | none => simp [hrest] at hsome
          | some => rfl

theorem carries_texts (vs : List Value) :
    ρ.Carries id (Run.texts vs) (Run.texts (ρ.values vs)) :=
  carries_told fun _ hst hvs => texts?_values hst vs hvs

theorem carries_fail_text (v : Value) (f : String -> Failure) :
    ρ.Carries φ (do Run.fail (f (← Run.text v))) (do Run.fail (f (← Run.text (ρ.value v)))) :=
  (carries_text v).fail_text

theorem carries_find (s : Nat) (x : String) :
    ρ.Carries (Option.map ρ.value) (Run.find s x) (Run.find (ρ.scope s) x) := by
  refine carries_of_ok fun st hst => ⟨st.get? s x, st, rfl, hst, ?_⟩
  exact congrArg (EStateM.Result.ok · (ρ.store st)) (ρ.get? hst s x)

/-- Assigning to a variable changes the scope that binds it. -/
theorem rebind_eq (f : Frame) (span : Span) (x : String) (v : Value) (st : Store) :
    rebind f span x v st = (st.assign? f.scope x v).elim
      (ended (.error (.failed (.undefined span x))) st) (ended (.ok ())) := by
  unfold Store.assign?
  cases h : st.find? f.scope x with
  | none => exact rebind_none h span v
  | some found => exact rebind_some h span v

theorem covers_assign {st st' : Store} (hst : ρ.Covers st) {s : Nat} {x : String} {v : Value}
    (h : st.assign? s x v = some st') : ρ.Covers st' := by
  obtain ⟨found, _, rfl⟩ := Option.map_eq_some_iff.1 h
  exact ρ.covers_of_le hst rfl (by simp [Store.define]) (Nat.le_refl _) (Nat.le_refl _)

theorem carries_rebind (f : Frame) (span : Span) (x : String) (v : Value) :
    ρ.Carries id (rebind f span x v) (rebind (ρ.frame f) span x (ρ.value v)) := by
  intro st hst
  have hassign : (ρ.store st).assign? (ρ.frame f).scope x (ρ.value v) =
      (st.assign? f.scope x v).map ρ.store := ρ.assign? hst f.scope x v
  cases h : st.assign? f.scope x v with
  | none =>
      refine ⟨.error (.failed (.undefined span x)), st, ?_, hst, fun _ => ?_⟩
      · rw [rebind_eq, h]
        rfl
      · rw [rebind_eq, hassign, h]
        rfl
  | some st' =>
      refine ⟨.ok (), st', ?_, covers_assign hst h, fun _ => ?_⟩
      · rw [rebind_eq, h]
        rfl
      · rw [rebind_eq, hassign, h]
        rfl

theorem carries_define {s : Nat} (hs : ρ.Own s) (x : String) (v : Value) :
    ρ.Carries id (Run.define s x v) (Run.define (ρ.scope s) x (ρ.value v)) := by
  refine carries_of_ok fun st hst => ⟨(), st.define s x v, rfl, ?_, ?_⟩
  · exact ρ.covers_of_le hst rfl (by simp [Store.define]) (Nat.le_refl _) (Nat.le_refl _)
  · exact congrArg (EStateM.Result.ok ()) (ρ.define hst hs x v)

/-- A new scope, which is one that code may declare variables in. -/
theorem carries_push (outer : Option Nat) {g : Nat -> Run β} {g' : Nat -> Run δ}
    (h : ∀ s, ρ.Own s -> ρ.Carries ψ (g s) (g' (ρ.scope s))) :
    ρ.Carries ψ (Run.push outer >>= g) (Run.push (outer.map ρ.scope) >>= g') := by
  intro st hst
  have hpushed : ρ.Covers (st.push outer).2 :=
    ρ.covers_of_le hst rfl (by simp [Store.push]) (Nat.le_refl _) (Nat.le_refl _)
  have hleft : Run.push outer st = ended (.ok (st.push outer).1) (st.push outer).2 := rfl
  have hright : Run.push (outer.map ρ.scope) (ρ.store st) =
      ended (.ok (ρ.scope (st.push outer).1)) (ρ.store (st.push outer).2) :=
    congrArg (fun pushed : Nat × Store => ended (.ok pushed.1) pushed.2) (ρ.push hst outer)
  rw [bind_ended hleft, bind_ended hright]
  exact h _ (ρ.own_size hst) _ hpushed

theorem carries_alloc (vs : List Value) :
    ρ.Carries ρ.value (Run.alloc vs) (Run.alloc (ρ.values vs)) := by
  refine carries_of_ok fun st hst => ⟨(st.alloc vs.toArray).1, (st.alloc vs.toArray).2, rfl, ?_, ?_⟩
  · exact ρ.covers_of_le hst rfl (Nat.le_refl _) (by simp [Store.alloc]) (Nat.le_refl _)
  · rw [values_eq_map]
    have halloc := ρ.alloc hst vs.toArray
    rw [List.map_toArray] at halloc
    exact congrArg (fun made => EStateM.Result.ok made.1 made.2) halloc

theorem carries_size (ref : Nat) :
    ρ.Carries id (Run.size ref) (Run.size (ρ.array ref)) := by
  refine carries_of_ok fun st hst => ⟨(st.elems ref).size, st, rfl, hst, ?_⟩
  have hsize : ((ρ.store st).elems (ρ.array ref)).size = (st.elems ref).size := by
    rw [ρ.elems hst, Array.size_map]
  exact congrArg (EStateM.Result.ok · (ρ.store st)) hsize

theorem carries_readElement (ref i : Nat) :
    ρ.Carries ρ.value (readElement ref i) (readElement (ρ.array ref) i) := by
  refine carries_of_ok fun st hst => ⟨(st.elems ref).getD i .null, st, rfl, hst, ?_⟩
  have hread : ((ρ.store st).elems (ρ.array ref)).getD i .null =
      ρ.value ((st.elems ref).getD i .null) := by
    rw [ρ.elems hst, Array.getD_eq_getD_getElem?, Array.getD_eq_getD_getElem?, Array.getElem?_map]
    cases (st.elems ref)[i]? <;> rfl
  exact congrArg (EStateM.Result.ok · (ρ.store st)) hread

theorem carries_writeElement (ref i : Nat) (v : Value) :
    ρ.Carries id (writeElement ref i v) (writeElement (ρ.array ref) i (ρ.value v)) := by
  refine carries_of_ok fun st hst => ⟨(), st.setElem ref i v, rfl, ?_, ?_⟩
  · exact ρ.covers_of_le hst rfl (Nat.le_refl _) (by simp [Store.setElem]) (Nat.le_refl _)
  · exact congrArg (EStateM.Result.ok ()) (ρ.setElem hst ref i v)

theorem carries_close (params : List Param) (body : Body) (s : Nat) :
    ρ.Carries ρ.value (Run.close params body s) (Run.close params body (ρ.scope s)) := by
  refine carries_of_ok fun st hst => ⟨_, { st with closures := st.closures + 1 }, rfl, ?_, ?_⟩
  · exact ρ.covers_of_le hst rfl (Nat.le_refl _) (Nat.le_refl _) (Nat.le_succ _)
  · obtain ⟨hid, hstore⟩ := ρ.close hst
    show EStateM.Result.ok (Value.closure (ρ.store st).closures params body (ρ.scope s)) _ = _
    rw [hstore, ← hid]
    rfl

/-- A host function that does the same at the new addresses. -/
def Serves (ρ : Renaming) (fn : HostFunction) : Prop :=
  ∀ args, ρ.Carries ρ.value (fn args) (fn (ρ.values args))

theorem carries_log (call : String) :
    ρ.Carries id (modify fun st => { st with calls := st.calls.push call } : Run Unit)
      (modify fun st => { st with calls := st.calls.push call }) := by
  refine carries_of_ok fun st hst => ⟨(), _, rfl, ?_, ?_⟩
  · exact ρ.covers_of_le hst rfl (Nat.le_refl _) (Nat.le_refl _) (Nat.le_refl _)
  · exact congrArg (EStateM.Result.ok ()) (ρ.log hst call)

theorem carries_callHost {fn : HostFunction} (h : ρ.Serves fn) (name : String)
    (args : List Value) :
    ρ.Carries ρ.value (callHost name fn args) (callHost name fn (ρ.values args)) :=
  (carries_texts args).bind fun _ => (carries_log _).bind fun _ => h args

/-! ## Operations -/

theorem carries_truth (v : Value) : ρ.Carries id (truth v) (truth (ρ.value v)) := by
  cases v with
  | bool b => exact carries_pure b
  | _ => exact carries_fail_text _ _

def integers? : Value -> Value -> Option (Int64 × Int64)
  | .int a, .int b => some (a, b)
  | _, _ => none

theorem integers?_value (v w : Value) : integers? (ρ.value v) (ρ.value w) = integers? v w := by
  cases v with
  | int => cases w <;> rfl
  | _ => rfl

/-- An operator that does not look into its operands, by the integers they may be. -/
def calculate (op : Operator) (v w : Value) : Run Value :=
  match op, integers? v w with
  | .div, some (a, b) =>
      if b = 0 then Run.raise "ArithmeticException" "/ by zero" else return .int (a / b)
  | .mod, some (a, b) =>
      if b = 0 then Run.raise "ArithmeticException" "/ by zero" else return .int (a % b)
  | op, _ =>
      match arithmetic op v w with
      | some v => return v
      | none => do Run.fail (.badOperands (← Run.text v) op (← Run.text w))

theorem binary_eq (op : Operator) (v w : Value) : binary op v w =
    if op = .add && (isText v || isText w) then do
      return .str ((← Run.text v) ++ (← Run.text w))
    else if op = .eq then return .bool (v.equal true w)
    else if op = .ne then return .bool (!v.equal true w)
    else calculate op v w := by
  unfold binary calculate
  cases op with
  | div | mod =>
      cases v with
      | int => cases w <;> rfl
      | _ => rfl
  | _ => rfl

theorem carries_calculate (op : Operator) (v w : Value) :
    ρ.Carries ρ.value (calculate op v w) (calculate op (ρ.value v) (ρ.value w)) := by
  unfold calculate
  simp only [integers?_value, arithmetic_value]
  split
  · split
    · exact carries_raise _ _
    · exact carries_same rfl
  · split
    · exact carries_raise _ _
    · exact carries_same rfl
  · split
    next u h => exact carries_same (value_arithmetic ρ.toAddresses h)
    next =>
      exact (carries_text v).bind fun s => (carries_text w).bind fun t =>
        carries_fail (.badOperands s _ t)

theorem carries_binary (op : Operator) (v w : Value) :
    ρ.Carries ρ.value (binary op v w) (binary op (ρ.value v) (ρ.value w)) := by
  rw [binary_eq, binary_eq, isText_value, isText_value, equal_value]
  split
  · exact (carries_text v).bind fun s => (carries_text w).bind fun t =>
      carries_pure (Value.str (s ++ t))
  · split
    · exact carries_pure (Value.bool _)
    · split
      · exact carries_pure (Value.bool _)
      · exact carries_calculate op v w

theorem carries_unary (span : Span) (op : Operator) (v : Value) :
    ρ.Carries ρ.value (unary span op v) (unary span op (ρ.value v)) := by
  by_cases hnot : op = .not
  · subst hnot
    exact (carries_truth v).bind fun b => carries_pure (Value.bool !b)
  · cases v with
    | int i => cases op <;> first
      | exact absurd rfl hnot
      | exact carries_pure (Value.int _)
      | exact carries_fail_text (.int i) _
    | float x => cases op <;> first
      | exact absurd rfl hnot
      | exact carries_pure (Value.float _)
      | exact carries_fail_text (.float x) _
    | _ => cases op <;> first
      | exact absurd rfl hnot
      | exact carries_fail_text _ _

theorem element_array (ref : Nat) (n : Int64) : element (.array ref) (.int n) =
    Run.size ref >>= fun size =>
      if 0 ≤ n.toInt && n.toInt < size then pure (ref, n.toInt.toNat)
      else Run.raise "ArrayIndexOutOfBoundsException"
        ("Index " ++ toString n.toInt ++ " out of bounds for length " ++ toString size) := by
  unfold element
  exact congrArg (get >>= ·) (funext fun st => by dsimp only)

theorem carries_element (a i : Value) :
    ρ.Carries (Prod.map ρ.array id) (element a i) (element (ρ.value a) (ρ.value i)) := by
  cases a with
  | array ref =>
      cases i with
      | int n =>
          rw [Addresses.value, Addresses.value, element_array, element_array]
          refine (carries_size ref).bind fun size => ?_
          dsimp only [id]
          split
          · exact carries_pure (ref, n.toInt.toNat)
          · exact carries_raise _ _
      | _ => exact carries_fail_text _ _
  | null => exact carries_raise _ _
  | _ => exact carries_fail_text _ _

theorem carries_collect {x y : Run Value} (h : ρ.Carries ρ.value x y) (n : Nat)
    (done : List Value) :
    ρ.Carries ρ.values (collect x n done) (collect y n (ρ.values done)) := by
  induction n generalizing done with
  | zero =>
      have hreverse : (ρ.values done).reverse = ρ.values done.reverse := by
        rw [values_eq_map, values_eq_map, List.map_reverse]
      rw [collect, collect, hreverse]
      exact carries_pure done.reverse
  | succ n ih => exact h.bind fun a => ih (a :: done)

/-- An array of some length, of zeros or of further arrays. -/
theorem carries_makeRow (elemType : String) (inner : List Value) (count : Nat) {x y : Run Value}
    (h : ρ.Carries ρ.value x y) :
    ρ.Carries ρ.value
      (if inner.isEmpty then Run.alloc (List.replicate count (.zero elemType))
        else do Run.alloc (← collect x count []))
      (if (ρ.values inner).isEmpty then Run.alloc (List.replicate count (.zero elemType))
        else do Run.alloc (← collect y count [])) := by
  have hempty : (ρ.values inner).isEmpty = inner.isEmpty := by
    cases inner <;> rfl
  have hzeros : ρ.values (List.replicate count (.zero elemType)) =
      List.replicate count (.zero elemType) := by
    rw [values_eq_map, List.map_replicate, value_zero]
  have hrow : ρ.Carries ρ.value _ _ := carries_alloc (List.replicate count (.zero elemType))
  rw [hzeros] at hrow
  rw [hempty]
  split
  · exact hrow
  · exact (carries_collect h count []).bind carries_alloc

theorem carries_makeArray (elemType : String) (dims : List Value) :
    ρ.Carries ρ.value (makeArray elemType dims) (makeArray elemType (ρ.values dims)) := by
  induction dims with
  | nil => exact carries_alloc []
  | cons dim inner ih =>
      cases dim with
      | int n =>
          have hrow := carries_makeRow elemType inner n.toInt.toNat ih
          by_cases hneg : n < 0
          · simp only [makeArray, Addresses.values, Addresses.value, if_pos hneg]
            exact carries_raise_bind _ _ _ _
          · simp only [makeArray, Addresses.values, Addresses.value, if_neg hneg]
            exact hrow
      | _ => exact carries_fail_text _ _

/-! ## Members -/

theorem values_eq_single {vs : List Value} {w : Value} (h : ρ.values vs = [w]) :
    ∃ v, vs = [v] := by
  match vs with
  | [v] => exact ⟨v, rfl⟩

def compared? (name : String) (args : List Value) : Option Value :=
  match name, args with
  | "equals", [other] => some other
  | _, _ => none

theorem compared?_eq_none {name : String} {args : List Value}
    (h : ∀ other, name = "equals" -> args = [other] -> False) : compared? name args = none := by
  unfold compared?
  split
  next other => exact (h other rfl rfl).elim
  next => rfl

theorem compared?_values (name : String) (args : List Value) :
    compared? name (ρ.values args) = (compared? name args).map ρ.value := by
  by_cases h : ∃ other, name = "equals" ∧ args = [other]
  · obtain ⟨other, rfl, rfl⟩ := h
    rfl
  · rw [compared?_eq_none fun other hname hargs => h ⟨other, hname, hargs⟩]
    refine compared?_eq_none fun other hname hargs => ?_
    obtain ⟨v, rfl⟩ := values_eq_single hargs
    exact h ⟨v, hname, rfl⟩

def noSuchElement (name : String) (self : Value) : Run Value :=
  Run.text self >>= fun text => Run.raise "NoSuchElementException" (name ++ " on " ++ text)

theorem containerMember_eq (k : Kind) (alternate : Bool) (held : Value) (name : String)
    (args : List Value) : containerMember k alternate held name args =
      let self := Value.container k alternate held
      if name = k.predicate then pure (.bool alternate)
      else if name = k.accessor then if alternate then noSuchElement name self else pure held
      else (compared? name args).elim
        (if k.alternateAccessor ≠ "" && name = k.alternateAccessor then
          if alternate then pure held else noSuchElement name self
        else Run.fail (.noMemberOf name k.name))
        fun other => pure (.bool (self.equal true other)) := by
  unfold containerMember
  dsimp only
  split
  · rfl
  · split
    · rfl
    · split
      next => rfl
      next hother =>
        rw [compared?_eq_none hother]
        rfl

theorem carries_containerMember (k : Kind) (alternate : Bool) (held : Value) (name : String)
    (args : List Value) :
    ρ.Carries ρ.value (containerMember k alternate held name args)
      (containerMember k alternate (ρ.value held) name (ρ.values args)) := by
  have habsent : ρ.Carries ρ.value (noSuchElement name (.container k alternate held))
      (noSuchElement name (.container k alternate (ρ.value held))) :=
    (carries_text (.container k alternate held)).bind fun _ => carries_raise _ _
  rw [containerMember_eq, containerMember_eq, compared?_values]
  dsimp only
  split
  · exact carries_pure (Value.bool alternate)
  · split
    · split
      · exact habsent
      · exact carries_pure held
    · cases compared? name args with
      | some other =>
          have hequals : (Value.container k alternate (ρ.value held)).equal true (ρ.value other) =
              (Value.container k alternate held).equal true other :=
            equal_value (.container k alternate held) other
          simp only [Option.map_some, Option.elim_some, hequals]
          exact carries_pure (Value.bool _)
      | none =>
          simp only [Option.map_none, Option.elim_none]
          split
          · split
            · exact carries_pure held
            · exact habsent
          · exact carries_fail _

theorem carries_stringMember (s name : String) (args : List Value) :
    ρ.Carries ρ.value (stringMember s name args) (stringMember s name (ρ.values args)) := by
  have hequals (other : Value) := ρ.equal_value (.str s) other
  unfold stringMember
  split
  · exact carries_pure (Value.int _)
  · exact carries_pure (Value.bool _)
  · exact carries_pure (Value.str _)
  · exact carries_pure (Value.str _)
  · exact carries_pure (Value.str _)
  next other =>
    show ρ.Carries _ _ (pure (Value.bool ((ρ.value (.str s)).equal true (ρ.value other))))
    rw [hequals]
    exact carries_pure (Value.bool _)
  next other => exact (carries_text other).bind fun t => carries_pure (Value.str (s ++ t))
  next hequals hconcat =>
    split
    case h_6 other hargs _ _ _ _ _ =>
      obtain ⟨v, rfl⟩ := values_eq_single hargs
      exact (hequals v rfl rfl).elim
    case h_7 other hargs _ _ _ _ _ =>
      obtain ⟨v, rfl⟩ := values_eq_single hargs
      exact (hconcat v rfl rfl).elim
    all_goals first
      | exact carries_fail _
      | contradiction

theorem objectMember?_eq (c name : String) (fields args : List Value) :
    objectMember? c fields name args =
      if name = "getMessage" then some (fields.headD .null)
      else (compared? name args).map fun other =>
        .bool ((Value.object c fields).equal true other) := by
  unfold objectMember?
  split
  · rfl
  · rfl
  next hmessage hother =>
    rw [if_neg hmessage, compared?_eq_none hother]
    rfl

theorem objectMember?_values (c name : String) (fields args : List Value) :
    objectMember? c (ρ.values fields) name (ρ.values args) =
      (objectMember? c fields name args).map ρ.value := by
  rw [objectMember?_eq, objectMember?_eq, compared?_values]
  split
  · exact congrArg some (value_headD ρ.toAddresses fields)
  · cases compared? name args with
    | some other =>
        exact congrArg (fun b => some (Value.bool b)) (equal_value (.object c fields) other)
    | none => rfl

theorem carries_combine (op : Operator) (old v : Value) :
    ρ.Carries ρ.value (combine op old v) (combine op (ρ.value old) (ρ.value v)) := by
  unfold combine
  cases op.applied? with
  | some applied => exact carries_binary applied old v
  | none => exact carries_pure v

theorem field_array (span : Span) (name : String) (ref : Nat) :
    field span name (.array ref) = if name = "length" then
        Run.size ref >>= fun size => pure (Value.int (Int64.ofNat size))
      else (do Run.fail (.noField span name (← Run.text (.array ref)))) := by
  unfold field
  split
  next heq =>
    cases heq
    rfl
  next heq => cases heq
  next hlength =>
    rw [if_neg (hlength ref rfl)]

theorem carries_field (span : Span) (name : String) (target : Value) :
    ρ.Carries ρ.value (field span name target) (field span name (ρ.value target)) := by
  cases target with
  | array ref =>
      rw [Addresses.value, field_array, field_array]
      split
      · exact (carries_size ref).bind fun size => carries_pure (Value.int (Int64.ofNat size))
      · exact carries_fail_text (.array ref) _
  | null => exact carries_raise _ _
  | _ => exact carries_fail_text _ _

end Renaming

end Eval

end EarlyExit
