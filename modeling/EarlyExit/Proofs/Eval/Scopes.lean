import EarlyExit.Eval.Store
import Mathlib.Data.List.Basic

/-!
# Scopes of a store

How binding a name, opening a scope and leaving bindings out of a scope show in look-ups.
-/

namespace EarlyExit

namespace Scope

theorem lookup_cons (x n : String) (v : Value) (rest : List (String × Value)) :
    List.lookup x ((n, v) :: rest) = if x = n then some v else rest.lookup x := by
  by_cases h : x = n
  · simp [h]
  · have hne : (x == n) = false := by simpa using h
    simp only [List.lookup_cons, hne, if_neg h]

theorem lookup_bind (name x : String) (v : Value) (bs : List (String × Value)) :
    (bind name v bs).lookup x = if x = name then some v else bs.lookup x := by
  induction bs with
  | nil => exact lookup_cons x name v []
  | cons b rest ih =>
      obtain ⟨n, w⟩ := b
      by_cases hn : n = name
      · subst hn
        by_cases hx : x = n <;> simp [bind, lookup_cons, hx]
      · by_cases hx : x = n
        · subst hx
          simp [bind, hn]
        · simp [bind, lookup_cons, hn, hx, ih]

def without (hidden : String -> Bool) (bs : List (String × Value)) : List (String × Value) :=
  bs.filter fun b => !hidden b.1

theorem lookup_without {hidden : String -> Bool} {x : String} (hx : hidden x = false)
    (bs : List (String × Value)) : (without hidden bs).lookup x = bs.lookup x := by
  induction bs with
  | nil => rfl
  | cons b rest ih =>
      obtain ⟨n, w⟩ := b
      by_cases hn : x = n
      · subst hn
        simp [without, hx]
      · cases hhidden : hidden n with
        | true => simpa [without, lookup_cons, hhidden, hn] using ih
        | false => simpa [without, lookup_cons, hhidden, hn] using ih

theorem without_bind {hidden : String -> Bool} {x : String} (hx : hidden x = false) (v : Value)
    (bs : List (String × Value)) : without hidden (bind x v bs) = bind x v (without hidden bs) := by
  induction bs with
  | nil => simp [without, bind, hx]
  | cons b rest ih =>
      obtain ⟨n, w⟩ := b
      by_cases hn : n = x
      · subst hn
        simp [without, bind, hx]
      · cases hhidden : hidden n with
        | true => simpa [without, bind, hn, hhidden] using ih
        | false => simpa [without, bind, hn, hhidden] using ih

theorem without_bind_hidden {hidden : String -> Bool} {x : String} (hx : hidden x = true)
    (v : Value) (bs : List (String × Value)) :
    without hidden (bind x v bs) = without hidden bs := by
  induction bs with
  | nil => simp [without, bind, hx]
  | cons b rest ih =>
      obtain ⟨n, w⟩ := b
      by_cases hn : n = x
      · subst hn
        simp [without, bind, hx]
      · cases hhidden : hidden n with
        | true => simpa [without, bind, hn, hhidden] using ih
        | false => simpa [without, bind, hn, hhidden] using ih

theorem mem_bind {name : String} {v : Value} {bs : List (String × Value)} {b : String × Value}
    (h : b ∈ bind name v bs) : b ∈ bs ∨ b.2 = v := by
  induction bs with
  | nil => simp_all [bind]
  | cons c rest ih =>
      obtain ⟨n, w⟩ := c
      unfold bind at h
      split at h
      · rcases List.mem_cons.1 h with rfl | h
        · exact .inr rfl
        · exact .inl (by simp [h])
      · rcases List.mem_cons.1 h with rfl | h
        · exact .inl (by simp)
        · exact (ih h).imp (fun h => by simp [h]) id

end Scope

namespace Store

variable {st : Store} {s : Nat} {x : String}

/-! ## Look-ups along a chain -/

theorem findSome?_congr {f g : α -> Option β} {l : List α} (h : ∀ a ∈ l, f a = g a) :
    l.findSome? f = l.findSome? g := by
  induction l with
  | nil => rfl
  | cons a rest ih =>
      rw [List.findSome?_cons, List.findSome?_cons, h a (by simp),
        ih fun b hb => h b (by simp [hb])]

/-- The value that a scope itself binds a name to. -/
def binding? (st : Store) (s : Nat) (x : String) : Option Value :=
  st.scopes[s]?.bind fun sc => sc.bindings.lookup x

/-- A scope and the ones around it, from the inside. -/
def chain (st : Store) (s : Nat) : List Nat :=
  match st.scopes[s]? with
  | none => []
  | some sc =>
      s :: match sc.outer with
        | some o => if o < s then st.chain o else []
        | none => []
termination_by s

theorem chain_none (h : st.scopes[s]? = none) : st.chain s = [] := by
  rw [chain, h]

theorem chain_some {sc : Scope} (h : st.scopes[s]? = some sc) :
    st.chain s = s :: match sc.outer with
      | some o => if o < s then st.chain o else []
      | none => [] := by
  rw [chain, h]

/-- A look-up takes the first scope of the chain that binds the name. -/
theorem find?_eq (st : Store) (s : Nat) (x : String) :
    st.find? s x = (st.chain s).findSome? fun t => (st.binding? t x).map fun v => (t, v) := by
  induction s using Nat.strongRecOn with
  | ind s ih =>
      rw [find?, chain]
      cases hs : st.scopes[s]? with
      | none => rfl
      | some sc =>
          have hself : st.binding? s x = sc.bindings.lookup x := by rw [binding?, hs]; rfl
          simp only [List.findSome?_cons, hself]
          cases sc.bindings.lookup x with
          | some v => rfl
          | none =>
              cases sc.outer with
              | none => rfl
              | some o =>
                  simp only [Option.map_none]
                  split
                  next hlt => exact ih o hlt
                  next => rfl

theorem mem_chain_of_find? {t : Nat} {v : Value} (h : st.find? s x = some (t, v)) :
    t ∈ st.chain s ∧ st.binding? t x = some v := by
  rw [find?_eq] at h
  obtain ⟨t', ht', heq⟩ := List.exists_of_findSome?_eq_some h
  obtain ⟨v', hv', heq⟩ := Option.map_eq_some_iff.1 heq
  cases heq
  exact ⟨ht', hv'⟩

/-- A name can be seen if a scope of the chain binds it. -/
theorem isSome_get? : (st.get? s x).isSome = true ↔
    ∃ t ∈ st.chain s, (st.binding? t x).isSome = true := by
  simp [get?, find?_eq, List.findSome?_isSome_iff]

theorem self_mem_chain (h : s < st.scopes.size) : s ∈ st.chain s := by
  rw [chain_some (Array.getElem?_eq_getElem h)]
  exact List.mem_cons_self

theorem lt_of_mem_chain {t : Nat} (h : t ∈ st.chain s) : t < st.scopes.size := by
  induction s using Nat.strongRecOn with
  | ind s ih =>
      cases hs : st.scopes[s]? with
      | none => simp [chain_none hs] at h
      | some sc =>
          rw [chain_some hs] at h
          rcases List.mem_cons.1 h with rfl | h
          · exact (Array.getElem?_eq_some_iff.1 hs).1
          · split at h
            · split at h
              next hlt => exact ih _ hlt h
              next => cases h
            · cases h

/-- Chains depend on the nesting of the scopes alone. -/
theorem chain_congr {st st' : Store} {s : Nat}
    (h : ∀ t ≤ s, st'.scopes[t]?.map Scope.outer = st.scopes[t]?.map Scope.outer) :
    st'.chain s = st.chain s := by
  induction s using Nat.strongRecOn with
  | ind s ih =>
      have hs := h s (Nat.le_refl s)
      cases hst : st.scopes[s]? with
      | none =>
          rw [hst, Option.map_none, Option.map_eq_none_iff] at hs
          rw [chain_none hst, chain_none hs]
      | some sc =>
          rw [hst, Option.map_some] at hs
          obtain ⟨sc', hsc', houter⟩ := Option.map_eq_some_iff.1 hs
          rw [chain_some hst, chain_some hsc', houter]
          cases sc.outer with
          | none => rfl
          | some o =>
              dsimp only
              split
              next hlt => rw [ih o hlt fun t ht => h t (by omega)]
              next => rfl

theorem chain_of_scopes {st st' : Store} (h : st'.scopes = st.scopes) (s : Nat) :
    st'.chain s = st.chain s :=
  chain_congr fun t _ => by rw [h]

theorem binding?_of_scopes {st st' : Store} (h : st'.scopes = st.scopes) (s : Nat) (x : String) :
    st'.binding? s x = st.binding? s x := by
  rw [binding?, h, binding?]

theorem find?_of_scopes {st st' : Store} (h : st'.scopes = st.scopes) (s : Nat) (x : String) :
    st'.find? s x = st.find? s x := by
  simp only [find?_eq, chain_of_scopes h, binding?_of_scopes h]

theorem get?_of_scopes {st st' : Store} (h : st'.scopes = st.scopes) (s : Nat) (x : String) :
    st'.get? s x = st.get? s x := by
  rw [get?, find?_of_scopes h, get?]

/-! ## Changes -/

theorem scopes_define (st : Store) (s : Nat) (x : String) (v : Value) (t : Nat) :
    (st.define s x v).scopes[t]? = if t = s then
      st.scopes[t]?.map fun sc => { sc with bindings := Scope.bind x v sc.bindings }
    else st.scopes[t]? := by
  simp only [define, Array.getElem?_modify]
  by_cases h : t = s
  · subst h
    simp
  · rw [if_neg h, if_neg (Ne.symm h)]

theorem scopes_push (st : Store) (outer : Option Nat) (t : Nat) :
    (st.push outer).2.scopes[t]? =
      if t = st.scopes.size then some { outer } else st.scopes[t]? := by
  simp only [push, Array.getElem?_push]

theorem binding?_define (st : Store) (s : Nat) (x : String) (v : Value) (t : Nat) (y : String) :
    (st.define s x v).binding? t y = if t = s ∧ y = x ∧ s < st.scopes.size then some v
      else st.binding? t y := by
  rw [binding?, scopes_define, binding?]
  by_cases ht : t = s
  · subst ht
    rw [if_pos rfl]
    by_cases hlt : t < st.scopes.size
    · simp only [Array.getElem?_eq_getElem hlt, Option.map_some, Option.bind_some,
        Scope.lookup_bind, hlt, and_true, true_and]
    · simp [hlt]
  · simp [ht]

theorem chain_define (st : Store) (s : Nat) (x : String) (v : Value) (t : Nat) :
    (st.define s x v).chain t = st.chain t := by
  refine chain_congr fun u _ => ?_
  rw [scopes_define]
  split
  · simp [Option.map_map, Function.comp_def]
  · rfl

theorem size_define (st : Store) (s : Nat) (x : String) (v : Value) :
    (st.define s x v).scopes.size = st.scopes.size := by
  simp [define]

/-- Binding a name shows under other names and through other chains not at all. -/
theorem get?_define_of_ne {st : Store} {s t : Nat} {x y : String} {v : Value}
    (h : s ∈ st.chain t -> y ≠ x) : (st.define s x v).get? t y = st.get? t y := by
  simp only [get?, find?_eq, chain_define]
  refine congrArg _ (findSome?_congr fun u hu => ?_)
  rw [binding?_define, if_neg]
  rintro ⟨rfl, hy, _⟩
  exact h hu hy

theorem binding?_push (st : Store) (outer : Option Nat) (t : Nat) (x : String) :
    (st.push outer).2.binding? t x = st.binding? t x := by
  rw [binding?, scopes_push, binding?]
  split
  next h => simp [h]
  next => rfl

theorem chain_push_old (st : Store) (outer : Option Nat) (h : s < st.scopes.size) :
    (st.push outer).2.chain s = st.chain s := by
  refine chain_congr fun t ht => ?_
  rw [scopes_push, if_neg (by omega)]

theorem chain_push_root (st : Store) :
    (st.push none).2.chain st.scopes.size = [st.scopes.size] := by
  rw [chain_some (by rw [scopes_push, if_pos rfl])]

theorem chain_push_new (st : Store) {o : Nat} (h : o < st.scopes.size) :
    (st.push (some o)).2.chain st.scopes.size = st.scopes.size :: st.chain o := by
  rw [chain_some (by rw [scopes_push, if_pos rfl])]
  simp only [if_pos h, chain_push_old st (some o) h]

theorem size_push (st : Store) (outer : Option Nat) :
    (st.push outer).2.scopes.size = st.scopes.size + 1 := by
  simp [push]

theorem get?_push_old (st : Store) (outer : Option Nat) (h : s < st.scopes.size) (x : String) :
    (st.push outer).2.get? s x = st.get? s x := by
  simp only [get?, find?_eq, chain_push_old st outer h, binding?_push]

def withMemory (memory : Memory) (st : Store) : Store :=
  { st with memory }

theorem find?_withMemory (memory : Memory) (st : Store) (s : Nat) (x : String) :
    (st.withMemory memory).find? s x = st.find? s x :=
  find?_of_scopes (show (st.withMemory memory).scopes = st.scopes from rfl) s x

theorem get?_withMemory (memory : Memory) (st : Store) (s : Nat) (x : String) :
    (st.withMemory memory).get? s x = st.get? s x :=
  get?_of_scopes (show (st.withMemory memory).scopes = st.scopes from rfl) s x

def log (name : String) (texts : List String) (st : Store) : Store :=
  { st with calls := st.calls.push (name ++ "(" ++ ", ".intercalate texts ++ ")") }

/-! ## Bindings left out -/

/-- The store with some names left out of one scope. -/
def hide (scope : Nat) (hidden : String -> Bool) (st : Store) : Store :=
  { st with scopes := st.scopes.modify scope fun sc =>
      { sc with bindings := Scope.without hidden sc.bindings } }

theorem scopes_hide (k : Nat) (hidden : String -> Bool) (st : Store) (t : Nat) :
    (st.hide k hidden).scopes[t]? = if t = k then
      st.scopes[t]?.map fun sc => { sc with bindings := Scope.without hidden sc.bindings }
    else st.scopes[t]? := by
  simp only [hide, Array.getElem?_modify]
  by_cases h : t = k
  · subst h
    simp
  · rw [if_neg h, if_neg (Ne.symm h)]

section Hide

variable {k : Nat} {hidden : String -> Bool}

theorem size_hide (st : Store) : (st.hide k hidden).scopes.size = st.scopes.size := by
  simp [hide]

theorem chain_hide (st : Store) (t : Nat) : (st.hide k hidden).chain t = st.chain t := by
  refine chain_congr fun u _ => ?_
  rw [scopes_hide]
  split
  · simp [Option.map_map, Function.comp_def]
  · rfl

/-- What is left is bound as before. -/
theorem binding?_hide {t : Nat} (h : t = k -> hidden x = false) (st : Store) :
    (st.hide k hidden).binding? t x = st.binding? t x := by
  rw [binding?, scopes_hide, binding?]
  split
  next ht =>
    cases st.scopes[t]? with
    | none => rfl
    | some sc => exact Scope.lookup_without (h ht) sc.bindings
  next => rfl

theorem find?_hide (h : k ∈ st.chain s -> hidden x = false) :
    (st.hide k hidden).find? s x = st.find? s x := by
  rw [find?_eq, find?_eq, chain_hide]
  refine findSome?_congr fun t ht => ?_
  rw [binding?_hide]
  rintro rfl
  exact h ht

/-- Stores that differ in no scope are the same if the rest is. -/
theorem ext_scopes {st st' : Store} (hscopes : ∀ t : Nat, st.scopes[t]? = st'.scopes[t]?)
    (hrest : st = { st' with scopes := st.scopes }) : st = st' := by
  rw [hrest, Array.ext_getElem? hscopes]

theorem hide_define (h : s = k -> hidden x = false) (v : Value) (st : Store) :
    (st.define s x v).hide k hidden = (st.hide k hidden).define s x v := by
  refine ext_scopes (fun t => ?_) rfl
  rw [scopes_hide, scopes_define, scopes_define, scopes_hide]
  by_cases hs : t = s
  · subst hs
    by_cases hk : t = k
    · cases st.scopes[t]? with
      | none => simp
      | some sc => simp only [if_pos hk, if_true, Option.map_some, Scope.without_bind (h hk)]
    · simp [hk]
  · simp [hs]

theorem hide_define_hidden (h : hidden x = true) (v : Value) (st : Store) :
    (st.define k x v).hide k hidden = st.hide k hidden := by
  refine ext_scopes (fun t => ?_) rfl
  rw [scopes_hide, scopes_define, scopes_hide]
  by_cases hk : t = k
  · cases st.scopes[t]? with
    | none => simp
    | some sc => simp [hk, Scope.without_bind_hidden h]
  · simp [hk]

theorem hide_push (outer : Option Nat) (st : Store) :
    (st.push outer).2.hide k hidden = ((st.hide k hidden).push outer).2 := by
  refine ext_scopes (fun t => ?_) rfl
  rw [scopes_hide, scopes_push, scopes_push, scopes_hide, size_hide]
  by_cases ht : t = st.scopes.size
  · simp [ht, Scope.without]
  · simp [ht]

end Hide

end Store

end EarlyExit
