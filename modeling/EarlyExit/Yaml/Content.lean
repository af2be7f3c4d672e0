import EarlyExit.Text.Base64
import EarlyExit.Yaml.Node
import EarlyExit.Yaml.Word

/-!
# What a text holds

The value of the first document of a text.  All of the document has to make sense: a
leaf fits its type, and a map has no key twice and no list or map as a key.
-/

namespace EarlyExit.Yaml

inductive Content
  | scalar (value : Data.Scalar)
  /-- A list, a map, a date, or a number beyond 64 bits with a sign. -/
  | other

/-- The meaning of a leaf with a type; unknown types leave the text as it is. -/
def leafMeaning? (type text : String) : Option Meaning :=
  match type with
  | "" => some (Word.meaning true text)
  | "!!int" =>
      match Word.meaning false text with
      | .int i => some (.int i)
      | .large => some .large
      | _ => none
  | "!!float" =>
      match Word.meaning false text with
      | .int i => some (.float (Float.ofInt i))
      | .float x => some (.float x)
      | _ => none
  | "!!bool" =>
      match Word.meaning false text with
      | .bool b => some (.bool b)
      | _ => none
  | "!!null" =>
      match Word.meaning false text with
      | .null => some .null
      | _ => none
  | "!!timestamp" =>
      match Word.meaning true text with
      | .date => some .date
      | _ => none
  | "!!binary" => (Text.Base64.decode? text).map .text
  | _ => some (.text text)

def Meaning.content : Meaning -> Content
  | .null => .scalar .null
  | .bool b => .scalar (.bool b)
  | .int i => .scalar (.int i)
  | .large => .other
  | .float x => .scalar (.float x)
  | .date => .other
  | .text s => .scalar (.str s)

namespace Node

/-- Keys of one form with the same text are the same key; lists have no text of their own. -/
def isSameKey : Node -> Node -> Bool
  | .leaf _ a, .leaf _ b => a == b
  | .list _, .list _ => true
  | .map _, .map _ => true
  | .alias a _, .alias b _ => a == b
  | _, _ => false

def isLeaf : Node -> Bool
  | .leaf _ _ | .alias _ (.leaf _ _) => true
  | _ => false

def isMap : Node -> Bool
  | .map _ | .alias _ (.map _) => true
  | _ => false

/-- Whether a value can be merged into the map that has it under the key for that. -/
def isMergeable : Node -> Bool
  | .list xs => xs.all isMap
  | n => n.isMap

def isMergeKey : Node -> Bool
  | .leaf type text => type == "!!merge" && text == "<<"
  | _ => false

/-- Whether a value can stand behind a key; `later` are the keys behind it. -/
def isEntry (k v : Node) (later : List Node) : Bool :=
  k.isLeaf && !later.any k.isSameKey && (!k.isMergeKey || v.isMergeable)

mutual

/-- Whether a node makes sense; a node under a name is judged where it stands. -/
def isSound : Node -> Bool
  | .leaf type text => (leafMeaning? type text).isSome
  | .list xs => areSound xs
  | .map es => areSoundEntries es
  | .alias _ _ => true

def areSound : List Node -> Bool
  | [] => true
  | n :: ns => n.isSound && areSound ns

def areSoundEntries : List (Node × Node) -> Bool
  | [] => true
  | (k, v) :: es =>
      k.isSound && v.isSound && isEntry k v (es.map Prod.fst) && areSoundEntries es

end

/-- The value of a node that makes sense. -/
def content? (n : Node) : Option Content :=
  match n with
  | .leaf type text => (leafMeaning? type text).map Meaning.content
  | n => if n.isSound then some .other else none

end Node

/-- What a text holds, if it can be read; a text without a document is null. -/
def read? (s : String) : Option Content :=
  let cs := s.toList
  let cs := if cs.head? == some '\ufeff' then cs.drop 1 else cs
  if !cs.all isAllowed then none
  else
    match document? (String.ofList cs) with
    | none => none
    | some none => some (.scalar .null)
    | some (some n) => n.content?

end EarlyExit.Yaml
