import EarlyExit.Decimal.Notation

/-!
# Plain data

Nulls, truth values, numbers, texts, lists and maps: what documents and settings
are made of.  A number keeps the text it was written with, because `1`, `1.0` and
`1e0` are read differently.  Maps keep the order of their entries.
-/

namespace EarlyExit

inductive Data
  | null
  | bool (value : Bool)
  | number (text : String)
  | str (value : String)
  | list (items : List Data)
  | map (entries : List (String × Data))
deriving Inhabited

namespace Data

def ofInt (i : Int) : Data :=
  .number (toString i)

def ofNat (n : Nat) : Data :=
  .number (toString n)

def texts (ss : List String) : Data :=
  .list (ss.map .str)

def isNull : Data -> Bool
  | null => true
  | _ => false

def get? (d : Data) (key : String) : Option Data :=
  match d with
  | map es => es.lookup key
  | _ => none

/-- The entry of a map under a key; a null entry counts as absent. -/
def field? (d : Data) (key : String) : Option Data :=
  match d.get? key with
  | some null => none
  | other => other

/-- The items of a list; none for anything else. -/
def items : Data -> List Data
  | list xs => xs
  | _ => []

def itemsOf (d : Data) (key : String) : List Data :=
  match d.field? key with
  | some x => x.items
  | none => []

theorem sizeOf_lookup {key : String} {x : Data} :
    {es : List (String × Data)} -> es.lookup key = some x -> sizeOf x < sizeOf es
  | (k, v) :: rest, h => by
      rw [List.lookup_cons] at h
      split at h
      · simp only [Option.some.injEq] at h
        subst h
        simp
        omega
      · have := sizeOf_lookup h
        simp
        omega

/-- An entry of a map is smaller than the map. -/
theorem sizeOf_field? {d x : Data} {key : String} (h : d.field? key = some x) :
    sizeOf x < sizeOf d := by
  cases d with
  | map es =>
      have hx : es.lookup key = some x := by
        simp only [field?, get?] at h
        split at h
        · simp at h
        · exact h
      have := sizeOf_lookup hx
      simp
      omega
  | _ => simp [field?, get?] at h

/-- An item of a list entry is smaller than the map that holds the list. -/
theorem sizeOf_mem_itemsOf {d x : Data} {key : String} (h : x ∈ d.itemsOf key) :
    sizeOf x < sizeOf d := by
  unfold itemsOf at h
  split at h
  next y hy =>
    have := sizeOf_field? hy
    cases y with
    | list xs =>
        have := List.sizeOf_lt_of_mem (show x ∈ xs from h)
        simp at *
        omega
    | _ => simp [items] at h
  next => simp at h

/-! ## Numbers -/

/-- What a scalar stands for. -/
inductive Scalar
  | null
  | bool (value : Bool)
  | int (value : Int)
  | float (value : Float)
  | str (value : String)

/--
A number without point and exponent is an integer if it fits into 64 bits, with a
sign or without.  Any other number is a double; one beyond all doubles stays a text.
-/
def resolveNumber (text : String) : Scalar :=
  match text with
  | ".nan" => .float (0.0 / 0.0)
  | ".inf" => .float (1.0 / 0.0)
  | "-.inf" => .float (-1.0 / 0.0)
  | _ =>
      match Decimal.written? text with
      | none => .str text
      | some w =>
          let whole := text.toList.all fun c => c.isDigit || c == '-' || c == '+'
          let value : Int := if w.negative then -Int.ofNat w.digits else Int.ofNat w.digits
          if whole && decide (Int64.minValue.toInt ≤ value) && decide (value < UInt64.size) then
            .int value
          else
            let x := w.toFloat
            if x.isInf then .str text else .float x

/--
The whole part of a double as an integer of 64 bits.  A double beyond them, and one
that is no number, gives the least integer.
-/
def wholePart (x : Float) : Int :=
  if -9223372036854775808.0 ≤ x && x < 9223372036854775808.0 then x.toInt64.toInt
  else Int64.minValue.toInt

/-- The text under which a double is kept: special values have spellings of their own. -/
def ofFloat (x : Float) : Data :=
  if x.isNaN then .number ".nan"
  else if x.isInf then .number (if x < 0 then "-.inf" else ".inf")
  else .number (Decimal.text x)

/-- The scalar of a leaf; lists and maps have none. -/
def scalar? : Data -> Option Scalar
  | null => some .null
  | bool b => some (.bool b)
  | number t => some (resolveNumber t)
  | str s => some (.str s)
  | list _ | map _ => none

/-- A leaf as text, a number as it was written. -/
def leafText? : Data -> Option String
  | null => some ""
  | bool b => some (if b then "true" else "false")
  | number t => some t
  | str s => some s
  | list _ | map _ => none

/-- The text of a number with a point if it has neither point nor exponent. -/
def pointedText (t : String) : String :=
  if t.toList.any fun c => c == '.' || c == 'e' || c == 'E' then t else t ++ ".0"

mutual

/-- The data with every number a double, nothing if one is beyond all doubles. -/
def doubles? : Data -> Option Data
  | number t =>
      match resolveNumber (pointedText t) with
      | .float _ => some (.number (pointedText t))
      | _ => none
  | list xs => (itemDoubles? xs).map .list
  | map es => (entryDoubles? es).map .map
  | d => some d

def itemDoubles? : List Data -> Option (List Data)
  | [] => some []
  | x :: rest => do
      let x ← doubles? x
      let rest ← itemDoubles? rest
      return x :: rest

def entryDoubles? : List (String × Data) -> Option (List (String × Data))
  | [] => some []
  | (key, x) :: rest => do
      let x ← doubles? x
      let rest ← entryDoubles? rest
      return (key, x) :: rest

end

/-- Whether the data is a map, null included. -/
def isMap : Data -> Bool
  | null | map _ => true
  | _ => false

def isList : Data -> Bool
  | null | list _ => true
  | _ => false

end Data

end EarlyExit
