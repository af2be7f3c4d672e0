import EarlyExit.Data.Basic
import EarlyExit.Settings.Basic

/-!
# Reading settings

Settings come from a file and from environment variables, and a variable wins over
the file.  Keys may be in any case.  Values are taken loosely: a number stands for
its text and a text for its number, and one value stands for a list of one.  A kind
may be given key by key, and then each of its keys has a variable of its own.
-/

namespace EarlyExit

namespace Data

/-- An entry of a map under a key in lower case; a null entry counts as absent. -/
def fieldLower? (d : Data) (key : String) : Option Data :=
  match d with
  | map es => (es.find? fun x => Text.lower x.1 == key && !x.2.isNull).map (·.2)
  | _ => none

/-- An entry of a map under a key in any case; a null entry counts as absent. -/
def fieldFolded? (d : Data) (key : String) : Option Data :=
  match d with
  | map es => (es.find? fun x => Text.fold (Text.lower x.1) == key && !x.2.isNull).map (·.2)
  | _ => none

/-- A leaf taken as a text. -/
def looseText? : Data -> Option String
  | null => some ""
  | bool b => some (if b then "1" else "0")
  | number t =>
      match resolveNumber t with
      | .int i => some (toString i)
      | .float x => some (Decimal.plainText x)
      | _ => some t
  | str s => some s
  | list _ | map _ => none

def looseFlag? : Data -> Option Bool
  | null => some false
  | bool b => some b
  | number t =>
      match resolveNumber t with
      | .int i => some (i != 0)
      | .float x => some (x != 0.0)
      | _ => none
  | str s => if s.isEmpty then some false else Text.Numeral.truth? s
  | list _ | map _ => none

def looseWhole? : Data -> Option Int
  | null => some 0
  | bool b => some (if b then 1 else 0)
  | number t =>
      match resolveNumber t with
      | .int i => some (Int64.ofInt i).toInt
      | .float x => some (wholePart x)
      | _ => none
  | str s => if s.isEmpty then some 0 else (Text.Numeral.whole s).toOption
  | list _ | map _ => none

/-- A list of texts; a single text is cut at its commas. -/
def looseTexts? : Data -> Option (List String)
  | null | map [] => some []
  | list xs => xs.mapM looseText?
  | str s => some (if s.isEmpty then [] else s.splitOn ",")
  | d => d.looseText?.map fun s => [s]

end Data

namespace Settings

/-- A container kind from a map; names that are not given stay empty. -/
def kind? (d : Data) : Option Kind :=
  let text (key : String) : Option String := ((d.fieldFolded? key).getD .null).looseText?
  match d with
  | .null | .map _ => do
      return {
        name := ← text "name"
        types := ← ((d.fieldFolded? "types").getD .null).looseTexts?
        predicate := ← text "predicate"
        accessor := ← text "accessor"
        alternateAccessor := ← text "alternate_accessor"
        alternateFactory := ← text "alternate_factory"
        successFactory := ← text "success_factory" }
  | _ => none

/-- A list of kinds, or a single one. -/
def kinds? : Data -> Option (List Kind)
  | .null | .map [] | .str "" => some []
  | .list xs => xs.mapM kind?
  | d => (kind? d).map fun k => [k]

/-! ## Variables -/

/-- The variable for a setting, by the keys that lead to it. -/
def variableName (path : List String) : String :=
  "UNWRAPC_" ++ Text.upper ("_".intercalate path)

def keys : List String :=
  ["sentinel", "temp_prefix", "builtin_kinds", "kinds", "log_level", "color", "workers",
    "assertions"]

def kindKeys : List String :=
  ["name", "types", "predicate", "accessor", "alternate_accessor", "alternate_factory",
    "success_factory"]

/-- All variables that are looked at. -/
def variableNames : List String :=
  (keys.map fun key => variableName [key]) ++
    kindKeys.map fun key => variableName ["kinds", key]

/-- What a variable says; an empty one says nothing. -/
def said? (env : String -> Option String) (path : List String) : Option String :=
  (env (variableName path)).filter fun v => !v.isEmpty

/-- What is said under a key that has a default. -/
def value? (file : Data) (env : String -> Option String) (key : String) : Option Data :=
  match said? env [key] with
  | some v => some (.str v)
  | none => file.fieldLower? key

/-! ## Nested keys -/

mutual

/-- The leaves of data, each with the keys that lead to it; a dot in a key divides it. -/
def leaves (path : List String) : Data -> List (List String × Data)
  | .map es => entryLeaves path es
  | d => [(path, d)]

def entryLeaves (path : List String) : List (String × Data) -> List (List String × Data)
  | [] => []
  | (key, d) :: rest =>
      leaves (path ++ (Text.lower key).splitOn ".") d ++ entryLeaves path rest

end

/-- A leaf in force: its variable wins over it, and one for a key above it hides it. -/
def inForce? (env : String -> Option String) (path : List String) (d : Data) : Option Data :=
  match said? env path with
  | some v => some (.str v)
  | none =>
      let hidden := (List.range path.length).any fun n =>
        decide (0 < n) && (said? env (path.take n)).isSome
      if hidden || d.isNull then none else some d

def nested : List String -> Data -> Data
  | [], d => d
  | key :: rest, d => .map [(key, nested rest d)]

/-- What is said under `kinds`, which has no default: a leaf, or a map of the leaves below. -/
def kindsValue? (file : Data) (env : String -> Option String) : Option Data :=
  let found := (leaves [] file).filterMap fun x =>
    match x.1 with
    | key :: below =>
        if Text.fold key == "kinds" then (inForce? env x.1 x.2).map fun d => (below, d) else none
    | [] => none
  match found with
  | [] => none
  | ([], d) :: _ => some d
  | found => some (.map (found.filterMap fun x =>
      match x.1 with
      | key :: rest => some (key, nested rest x.2)
      | [] => none))

/-- Settings over a file and the environment, nothing if a value has the wrong type. -/
def read? (defaults : Settings) (file : Data) (env : String -> Option String) :
    Option Settings := do
  let take {α : Type} (key : String) (read : Data -> Option α) (default : α) : Option α :=
    match value? file env key with
    | some d => read d
    | none => some default
  return {
    sentinel := ← take "sentinel" Data.looseText? defaults.sentinel
    stem := ← take "temp_prefix" Data.looseText? defaults.stem
    builtinKinds := ← take "builtin_kinds" Data.looseFlag? defaults.builtinKinds
    kinds := ← match kindsValue? file env with
      | some d => kinds? d
      | none => some defaults.kinds
    logLevel := ← take "log_level" Data.looseText? defaults.logLevel
    color := ← take "color" Data.looseText? defaults.color
    workers := ← take "workers" Data.looseWhole? defaults.workers
    assertions := ← take "assertions" Data.looseFlag? defaults.assertions }

end Settings

end EarlyExit
