import EarlyExit.Proofs.Eval.Confined
import EarlyExit.Proofs.Eval.Relocated
import EarlyExit.Proofs.Eval.Scopes

/-!
# An empty scope more

A store with an empty scope inserted behind some scope: what ran in that scope runs in the
empty one, where it sees the same variables.  Scopes that are made later have an address
that is larger by one, and so have the scopes that later closures are made in.
-/

namespace EarlyExit

open Eval

namespace Eval

def Addresses.ofScopes (scope : Nat -> Nat) : Addresses where
  scope := scope
  array := id
  closure := id

/-- The addresses after a scope was inserted behind the scope `p`. -/
def inserted (p : Nat) : Addresses :=
  .ofScopes fun s => if s < p then s else s + 1

/-- The address of the scope that then has the bindings of another. -/
def home (p s : Nat) : Nat :=
  if s ≤ p then s else s + 1

variable {p s t : Nat}

theorem scope_inserted : (inserted p).scope s = if s < p then s else s + 1 :=
  rfl

theorem scope_inserted_old (h : s < p) : (inserted p).scope s = s :=
  if_pos h

theorem scope_inserted_new (h : p ≤ s) : (inserted p).scope s = s + 1 :=
  if_neg (Nat.not_lt.2 h)

theorem scope_inserted_of_ne (h : s ≠ p) : (inserted p).scope s = home p s := by
  rw [scope_inserted, home]
  split <;> split <;> omega

theorem home_eq_home : home p s = home p t ↔ s = t := by
  unfold home
  split <;> split <;> omega

theorem home_ne : home p s ≠ p + 1 := by
  unfold home
  split <;> omega

theorem eq_home (h : t ≠ p + 1) : ∃ s, t = home p s := by
  by_cases ht : t ≤ p
  · exact ⟨t, (if_pos ht).symm⟩
  · exact ⟨t - 1, by rw [home, if_neg (by omega)]; omega⟩

/-- An enclosing scope has the smaller address still. -/
theorem scope_inserted_lt : (inserted p).scope s < home p t ↔ s < t := by
  rw [scope_inserted, home]
  split <;> split <;> omega

def Addresses.moved (ρ : Addresses) (sc : Scope) : Scope where
  bindings := sc.bindings.map fun b => (b.1, ρ.value b.2)
  outer := sc.outer.map ρ.scope

theorem Addresses.lookup_moved (ρ : Addresses) (sc : Scope) (x : String) :
    (ρ.moved sc).bindings.lookup x = (sc.bindings.lookup x).map ρ.value := by
  show List.lookup x (sc.bindings.map fun b => (b.1, ρ.value b.2)) = _
  induction sc.bindings with
  | nil => rfl
  | cons b rest ih =>
      rw [List.map_cons, Scope.lookup_cons, Scope.lookup_cons, ih]
      split <;> rfl

theorem Addresses.moved_bind (ρ : Addresses) (x : String) (v : Value)
    (bs : List (String × Value)) :
    (Scope.bind x v bs).map (fun b => (b.1, ρ.value b.2)) =
      Scope.bind x (ρ.value v) (bs.map fun b => (b.1, ρ.value b.2)) := by
  induction bs with
  | nil => rfl
  | cons b rest ih =>
      simp only [Scope.bind, List.map_cons]
      split
      · rfl
      · rw [List.map_cons, ih]

end Eval

namespace Store

variable {p : Nat} {memory : Memory} {st : Store}

/-- The store with an empty scope inserted behind the scope `p`, and a memory for that. -/
def widen (p : Nat) (memory : Memory) (st : Store) : Store :=
  { st with
    scopes := (st.scopes.map (inserted p).moved).insertIdxIfInBounds (p + 1) { outer := some p }
    arrays := st.arrays.map fun xs => xs.map (inserted p).value
    memory }

theorem getElem?_scopes_widen (h : p < st.scopes.size) (t : Nat) :
    (st.widen p memory).scopes[t]? = if t < p + 1 then st.scopes[t]?.map (inserted p).moved
      else if t = p + 1 then some { outer := some p }
      else st.scopes[t - 1]?.map (inserted p).moved := by
  have hsize : p + 1 ≤ (st.scopes.map (inserted p).moved).size := by
    rw [Array.size_map]
    exact h
  have hwiden : (st.widen p memory).scopes =
      (st.scopes.map (inserted p).moved).insertIdx (p + 1) { outer := some p } hsize :=
    dif_pos hsize
  rw [hwiden, Array.getElem?_insertIdx, Array.getElem?_map, Array.getElem?_map]
  by_cases ht : t = p + 1
  · subst ht
    simp only [if_pos hsize]
  · simp only [if_neg ht]

/-- The inserted scope is empty. -/
theorem scopes_widen_empty (h : p < st.scopes.size) :
    (st.widen p memory).scopes[p + 1]? = some { outer := some p } := by
  rw [getElem?_scopes_widen h, if_neg (Nat.lt_irrefl _), if_pos rfl]

theorem scopes_widen_home (h : p < st.scopes.size) (s : Nat) :
    (st.widen p memory).scopes[home p s]? = st.scopes[s]?.map (inserted p).moved := by
  rw [getElem?_scopes_widen h, home]
  by_cases hs : s ≤ p
  · rw [if_pos hs, if_pos (Nat.lt_succ_of_le hs)]
  · rw [if_neg hs, if_neg (by omega), if_neg (by omega), Nat.add_sub_cancel]

/-- A store is widened if its scopes are those of the other and the empty one. -/
theorem scopes_eq_widen {scopes : Array Scope} (h : p < st.scopes.size)
    (hempty : scopes[p + 1]? = some { outer := some p })
    (hhome : ∀ s, scopes[home p s]? = st.scopes[s]?.map (inserted p).moved) :
    scopes = (st.widen p memory).scopes := by
  refine Array.ext_getElem? fun t => ?_
  by_cases ht : t = p + 1
  · rw [ht, hempty, scopes_widen_empty h]
  · obtain ⟨s, rfl⟩ := eq_home ht
    rw [hhome, scopes_widen_home h]

/-! ## Look-ups -/

/-- Code in the empty scope sees what code in the scope around it sees. -/
theorem find?_widen_scope (h : p < st.scopes.size) (s : Nat) (x : String) :
    (st.widen p memory).find? ((inserted p).scope s) x =
      (st.widen p memory).find? (home p s) x := by
  by_cases hs : s = p
  · subst hs
    have hhome : home s s = s := if_pos (Nat.le_refl s)
    rw [scope_inserted_new (Nat.le_refl s), hhome, find?, scopes_widen_empty h]
    simp
  · rw [scope_inserted_of_ne hs]

theorem find?_widen_home (h : p < st.scopes.size) (s : Nat) (x : String) :
    (st.widen p memory).find? (home p s) x =
      (st.find? s x).map fun found => (home p found.1, (inserted p).value found.2) := by
  induction s using Nat.strongRecOn with
  | ind s ih =>
      rw [find?, find?, scopes_widen_home h]
      cases st.scopes[s]? with
      | none => rfl
      | some sc =>
          simp only [Option.map_some, Addresses.lookup_moved]
          cases sc.bindings.lookup x with
          | some v => rfl
          | none =>
              simp only [Option.map_none, Addresses.moved]
              cases sc.outer with
              | none => rfl
              | some o =>
                  simp only [Option.map_some, scope_inserted_lt]
                  split
                  next hlt => rw [find?_widen_scope h, ih o hlt]
                  next => rfl

theorem find?_widen (h : p < st.scopes.size) (s : Nat) (x : String) :
    (st.widen p memory).find? ((inserted p).scope s) x =
      (st.find? s x).map fun found => (home p found.1, (inserted p).value found.2) := by
  rw [find?_widen_scope h, find?_widen_home h]

theorem get?_widen (h : p < st.scopes.size) (s : Nat) (x : String) :
    (st.widen p memory).get? ((inserted p).scope s) x = (st.get? s x).map (inserted p).value := by
  rw [get?, find?_widen h, get?, Option.map_map, Option.map_map]
  rfl

/-! ## Changes -/

theorem define_widen (h : p < st.scopes.size) (s : Nat) (x : String) (v : Value) :
    (st.widen p memory).define (home p s) x ((inserted p).value v) =
      (st.define s x v).widen p memory := by
  have hscopes : ((st.widen p memory).define (home p s) x ((inserted p).value v)).scopes =
      ((st.define s x v).widen p memory).scopes := by
    refine scopes_eq_widen (by rwa [size_define]) ?_ fun t => ?_
    · rw [scopes_define, if_neg home_ne.symm, scopes_widen_empty h]
    · rw [scopes_define, scopes_define, scopes_widen_home h]
      simp only [home_eq_home]
      split
      · rw [Option.map_map, Option.map_map]
        refine congrArg (Option.map · _) (funext fun sc => ?_)
        simp only [Function.comp_apply, Addresses.moved, Addresses.moved_bind]
      · rfl
  exact ext_scopes (fun t => by rw [hscopes]) rfl

theorem assign?_widen (h : p < st.scopes.size) (s : Nat) (x : String) (v : Value) :
    (st.widen p memory).assign? ((inserted p).scope s) x ((inserted p).value v) =
      (st.assign? s x v).map (widen p memory) := by
  rw [assign?, find?_widen h, assign?, Option.map_map, Option.map_map]
  exact congrArg (Option.map · _) (funext fun found => define_widen h found.1 x v)

theorem size_widen (h : p < st.scopes.size) :
    (st.widen p memory).scopes.size = st.scopes.size + 1 := by
  have hsize : p + 1 ≤ (st.scopes.map (inserted p).moved).size := by
    rw [Array.size_map]
    exact h
  have hwiden : (st.widen p memory).scopes =
      (st.scopes.map (inserted p).moved).insertIdx (p + 1) { outer := some p } hsize :=
    dif_pos hsize
  rw [hwiden, Array.size_insertIdx, Array.size_map]

theorem push_widen (h : p < st.scopes.size) (outer : Option Nat) :
    (st.widen p memory).push (outer.map (inserted p).scope) =
      ((inserted p).scope (st.push outer).1, (st.push outer).2.widen p memory) := by
  have hsize : (inserted p).scope st.scopes.size = (st.widen p memory).scopes.size := by
    rw [size_widen h, scope_inserted_new (Nat.le_of_lt h)]
  have hhome : home p st.scopes.size = (st.widen p memory).scopes.size := by
    rw [← hsize, scope_inserted_of_ne (Nat.ne_of_gt h)]
  have hscopes : ((st.widen p memory).push (outer.map (inserted p).scope)).2.scopes =
      ((st.push outer).2.widen p memory).scopes := by
    refine scopes_eq_widen (by rw [size_push]; exact Nat.lt_succ_of_lt h) ?_ fun t => ?_
    · rw [scopes_push, if_neg, scopes_widen_empty h]
      exact hhome ▸ home_ne.symm
    · rw [scopes_push, scopes_push, scopes_widen_home h, ← hhome]
      simp only [home_eq_home]
      split <;> rfl
  exact Prod.ext hsize.symm (ext_scopes (fun t => by rw [hscopes]) rfl)

/-! ## Arrays and texts -/

theorem elems_widen (ref : Nat) :
    (st.widen p memory).elems ref = (st.elems ref).map (inserted p).value := by
  simp only [elems, widen, Array.getD_eq_getD_getElem?, Array.getElem?_map]
  cases st.arrays[ref]? with
  | some xs => rfl
  | none => exact Array.map_empty.symm

theorem setElem_widen (ref i : Nat) (v : Value) :
    (st.widen p memory).setElem ref i ((inserted p).value v) =
      (st.setElem ref i v).widen p memory := by
  have harrays : ((st.widen p memory).setElem ref i ((inserted p).value v)).arrays =
      ((st.setElem ref i v).widen p memory).arrays := by
    refine Array.ext_getElem? fun r => ?_
    simp only [setElem, widen, Array.getElem?_modify, Array.getElem?_map]
    split
    · rw [Option.map_map, Option.map_map]
      exact congrArg (Option.map · _) (funext fun xs => Array.map_setIfInBounds.symm)
    · rfl
  exact congrArg (fun arrays => { st.widen p memory with arrays }) harrays

theorem alloc_widen (xs : Array Value) :
    (st.widen p memory).alloc (xs.map (inserted p).value) =
      ((inserted p).value (st.alloc xs).1, (st.alloc xs).2.widen p memory) := by
  simp only [alloc, widen, Array.map_push, Array.size_map]
  rfl

end Store

namespace Eval

/--
The renaming that inserts a scope into the stores that have the scope behind which it goes,
with a memory that knows of the cells what was known of them.
-/
def widening (exact : Prop) (p : Nat) (memory : Memory) : Renaming where
  toAddresses := inserted p
  store := Store.widen p memory
  exact := exact
  Covers st := p < st.scopes.size ∧ (inserted p).Informs exact st.memory memory
  Own s := s ≠ p
  array_injective := Function.injective_id
  closure_injective := Function.injective_id
  covers_of_le h hmemory hscopes _ _ := ⟨Nat.lt_of_lt_of_le h.1 hscopes, hmemory ▸ h.2⟩
  own_size h := Nat.ne_of_gt h.1
  get? h := Store.get?_widen h.1
  assign? h := Store.assign?_widen h.1
  define h hs x v := by
    rw [scope_inserted_of_ne hs]
    exact Store.define_widen h.1 _ x v
  push h := Store.push_widen h.1
  alloc _ := Store.alloc_widen
  elems _ := Store.elems_widen
  setElem _ := Store.setElem_widen
  text? h _ := h.2.text? Function.injective_id (fun ref => Store.elems_widen ref)
  close _ := ⟨rfl, rfl⟩
  log _ _ := rfl
  depth _ := rfl
  enter _ := rfl
  leave _ := rfl

end Eval

end EarlyExit
