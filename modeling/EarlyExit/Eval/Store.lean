import EarlyExit.Eval.Value

/-!
# Stores

The state of a run: scopes, which closures share and change; arrays; the next
identity for a closure; the log of host calls; and the count of calls under way.
Scopes and arrays are only ever added, so a reference stays good.  The addresses in memory
come from outside; no program chooses them.
-/

namespace EarlyExit

/-- One lexical scope.  The enclosing scope has a smaller number. -/
structure Scope where
  bindings : List (String × Value) := []
  outer : Option Nat := none
deriving Inhabited

namespace Scope

/-- The bindings with one name bound, in place if it was bound already. -/
def bind (name : String) (v : Value) : List (String × Value) -> List (String × Value)
  | [] => [(name, v)]
  | (n, w) :: rest => if n == name then (n, v) :: rest else (n, w) :: bind name v rest

end Scope

structure Store where
  scopes : Array Scope := #[]
  arrays : Array (Array Value) := #[]
  closures : Nat := 0
  calls : Array String := #[]
  /-- How many calls are under way. -/
  depth : Nat := 0
  memory : Memory := .numbered

instance : Inhabited Store := ⟨{}⟩

namespace Store

/-! ## Scopes -/

def push (st : Store) (outer : Option Nat) : Nat × Store :=
  (st.scopes.size, { st with scopes := st.scopes.push { outer } })

/-- The address of the nearest scope that binds a name, with the value. -/
def find? (st : Store) (scope : Nat) (name : String) : Option (Nat × Value) :=
  match st.scopes[scope]? with
  | none => none
  | some sc =>
      match sc.bindings.lookup name with
      | some v => some (scope, v)
      | none =>
          match sc.outer with
          | some o => if o < scope then st.find? o name else none
          | none => none
termination_by scope

def get? (st : Store) (scope : Nat) (name : String) : Option Value :=
  (st.find? scope name).map (·.2)

def define (st : Store) (scope : Nat) (name : String) (v : Value) : Store :=
  { st with
    scopes := st.scopes.modify scope fun sc =>
      { sc with bindings := Scope.bind name v sc.bindings } }

/-- Rebind a name in the scope that binds it. -/
def assign? (st : Store) (scope : Nat) (name : String) (v : Value) : Option Store :=
  (st.find? scope name).map fun found => st.define found.1 name v

/-! ## Arrays -/

def alloc (st : Store) (elems : Array Value) : Value × Store :=
  (.array st.arrays.size, { st with arrays := st.arrays.push elems })

def elems (st : Store) (ref : Nat) : Array Value :=
  st.arrays.getD ref #[]

def setElem (st : Store) (ref i : Nat) (v : Value) : Store :=
  { st with arrays := st.arrays.modify ref fun xs => xs.setIfInBounds i v }

/-! ## Calls under way -/

def enter (st : Store) : Store :=
  { st with depth := st.depth + 1 }

def leave (st : Store) : Store :=
  { st with depth := st.depth - 1 }

/-! ## Texts -/

/-- The arrays that are not among some that have been seen. -/
def unseen (arrays : Array (Array Value)) (seen : List Nat) : List Nat :=
  (List.range arrays.size).filter fun ref => decide (ref ∉ seen)

theorem length_unseen_lt {arrays : Array (Array Value)} {seen : List Nat} {ref : Nat}
    (hsize : ref < arrays.size) (hseen : ref ∉ seen) :
    (unseen arrays (ref :: seen)).length < (unseen arrays seen).length := by
  have hmore : unseen arrays (ref :: seen) =
      (unseen arrays seen).filter fun r => decide (r ≠ ref) := by
    simp [unseen, List.filter_filter]
  have hmem : ref ∈ unseen arrays seen := by simp [unseen, hsize, hseen]
  rw [hmore]
  exact List.length_filter_lt_length_iff_exists.2 ⟨ref, hmem, by simp⟩

/--
The texts of arrays inside some others; one of these is cut off when it is met again.  By a
container an array is written with its elements, and inside that as an address.
-/
def arrayTexts (arrays : Array (Array Value)) (seen : List Nat) (manner : Value.Manner)
    (ref : Nat) : List Value.Piece :=
  match manner with
  | .alone =>
      if _h : ref < arrays.size ∧ ref ∉ seen then
        .chars "[" :: Value.Piece.row ", " (arrays[ref].toList.map
          (Value.piecesWith (arrayTexts arrays (ref :: seen)) .alone)) ++ [.chars "]"]
      else if ref ∈ seen then [.chars "[...]"]
      else [.chars "[", .chars "]"]
  | .held =>
      if _h : ref < arrays.size ∧ ref ∉ seen then
        .chars "&\x7b[" :: Value.Piece.row " " (arrays[ref].toList.map
          (Value.piecesWith (arrayTexts arrays (ref :: seen)) .element)) ++ [.chars "]\x7d"]
      else if ref ∈ seen then [.chars "[...]"]
      else [.chars "&\x7b[", .chars "]\x7d"]
  | .element => [.address (.array ref)]
termination_by (unseen arrays seen).length
decreasing_by all_goals exact length_unseen_lt _h.1 _h.2

def pieces (st : Store) (v : Value) : List Value.Piece :=
  v.piecesWith (arrayTexts st.arrays []) .alone

/-- The text of a value, unless it shows an address that is not known. -/
def text? (st : Store) (v : Value) : Option String :=
  Value.Piece.spell? st.memory (st.pieces v)

def text (st : Store) (v : Value) : String :=
  (st.text? v).getD ""

end Store

end EarlyExit
