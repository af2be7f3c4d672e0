import EarlyExit.Yaml.Scan

/-!
# Nodes

The first document of a text as a tree of leaves, lists and maps.  What follows the
document is not looked at, beyond the tokens that settle where it ends.

The `fuel` argument of the reader bounds the tokens that are left.
-/

namespace EarlyExit.Yaml

inductive Node
  /-- A leaf with its type; bare text without a type has an empty one. -/
  | leaf (type text : String)
  | list (items : List Node)
  | map (entries : List (Node × Node))
  /-- A node that stands elsewhere under a name. -/
  | alias (name : String) (target : Node)
deriving Inhabited

namespace Node

def absent : Node :=
  .leaf "" ""

end Node

/-! ## Types -/

/-- The beginning of the types of the format itself. -/
def ownTypes : String := "tag:yaml.org,2002:"

def shortType (type : String) : String :=
  let cs := type.toList
  if ownTypes.toList.isPrefixOf cs then
    "!!" ++ String.ofList (cs.drop ownTypes.length)
  else type

/-- The type of a leaf: the one that is given, or the one that its form tells. -/
def leafType (given text : String) (isBare : Bool) : String :=
  if given != "" && given != "!" then shortType given
  else if !isBare then "!!str"
  else if text = "<<" then "!!merge"
  else ""

/-! ## Reading -/

/-- The tokens left, the nodes with names, and the handles of types. -/
structure Reader where
  scan : Scan
  /-- In order of the names; a node that is still being read is not there yet. -/
  named : Array (String × Option Node) := #[]
  handles : List (String × String) := []

namespace Reader

def peek? (r : Reader) : Option (Token × Reader) :=
  r.scan.peek?.map fun (t, scan) => (t, { r with scan := scan })

def take (r : Reader) : Reader :=
  { r with scan := r.scan.take }

def next? (r : Reader) : Option (Token × Reader) :=
  r.peek?.map fun (t, r) => (t, r.take)

/-- The node that a name stands for at this point. -/
def target? (r : Reader) (name : String) : Option Node :=
  (r.named.toList.reverse.find? fun n => n.1 == name).bind Prod.snd

/-- Give a name to the node that comes next. -/
def announce (r : Reader) (name : Option String) : Reader :=
  match name with
  | some s => { r with named := r.named.push (s, none) }
  | none => r

/-- The node announced as the one with an index has been read. -/
def settle (r : Reader) (index : Nat) (name : Option String) (n : Node) : Reader :=
  match name with
  | some s => { r with named := r.named.setIfInBounds index (s, some n) }
  | none => r

def type? (r : Reader) (handle rest : String) : Option String :=
  if handle.isEmpty then some rest
  else (r.handles.lookup handle).map (· ++ rest)

/-- A name and a type before a node, in either order. -/
def properties? (r : Reader) : Option (Option String × String × Reader) := do
  let (t, r) ← r.peek?
  match t with
  | .anchor name =>
      let (t, r) ← r.take.peek?
      match t with
      | .tag handle rest => return (some name, ← r.type? handle rest, r.take)
      | _ => return (some name, "", r)
  | .tag handle rest =>
      let type ← r.type? handle rest
      let (t, r) ← r.take.peek?
      match t with
      | .anchor name => return (some name, type, r.take)
      | _ => return (none, type, r)
  | _ => return (none, "", r)

end Reader

mutual

/-- A node; lists and maps told by indentation count if `block`, and dashes at the
indentation of a map around them if `dashes`. -/
def readNode (block dashes : Bool) : Nat -> Reader -> Option (Node × Reader)
  | 0, _ => none
  | fuel + 1, r =>
      match r.peek? with
      | none => none
      | some (.alias name, r) => (r.target? name).map fun n => (.alias name n, r.take)
      | some (_, r) =>
          match r.properties? with
          | none => none
          | some (name, type, r) =>
              let index := r.named.size
              let read :=
                readContent block dashes (name.isSome || type != "") type fuel (r.announce name)
              read.map fun (n, r) => (n, r.settle index name n)

/-- A node behind its name and its type; with one of them it may be left out. -/
def readContent (block dashes mayLack : Bool) (type : String) :
    Nat -> Reader -> Option (Node × Reader)
  | 0, _ => none
  | fuel + 1, r =>
      match r.peek? with
      | none => none
      | some (t, r) =>
          match t with
          | .item =>
              if dashes then readDashes fuel [] r else lacking r
          | .leaf text isBare => some (.leaf (leafType type text isBare) text, r.take)
          | .flowList => readFlowItems true fuel [] r.take
          | .flowMap => readFlowEntries true fuel [] r.take
          | .blockList => if block then readItems fuel [] r.take else lacking r
          | .blockMap => if block then readEntries fuel [] r.take else lacking r
          | _ => lacking r
where
  lacking (r : Reader) : Option (Node × Reader) :=
    if mayLack then some (.leaf (leafType type "" true) "", r) else none

/-- A node, unless one of some tokens follows in its place. -/
def readUnless (ends : List Token) (block dashes : Bool) :
    Nat -> Reader -> Option (Node × Reader)
  | 0, _ => none
  | fuel + 1, r =>
      match r.peek? with
      | none => none
      | some (t, r) =>
          if ends.contains t then some (.absent, r) else readNode block dashes fuel r

def readItems : Nat -> List Node -> Reader -> Option (Node × Reader)
  | 0, _, _ => none
  | fuel + 1, seen, r =>
      match r.next? with
      | some (.item, r) =>
          (readUnless [.item, .blockEnd] true false fuel r).bind fun (n, r) =>
            readItems fuel (n :: seen) r
      | some (.blockEnd, r) => some (.list seen.reverse, r)
      | _ => none

/-- The items of a list whose dashes stand at the indentation of the map around it. -/
def readDashes : Nat -> List Node -> Reader -> Option (Node × Reader)
  | 0, _, _ => none
  | fuel + 1, seen, r =>
      match r.peek? with
      | none => none
      | some (.item, r) =>
          (readUnless [.item, .key, .value, .blockEnd] true false fuel r.take).bind fun (n, r) =>
            readDashes fuel (n :: seen) r
      | some (_, r) => some (.list seen.reverse, r)

/-- The value behind a key; without a colon it is left out. -/
def readValue (ends : List Token) (block : Bool) : Nat -> Reader -> Option (Node × Reader)
  | 0, _ => none
  | fuel + 1, r =>
      match r.peek? with
      | none => none
      | some (.value, r) => readUnless ends block block fuel r.take
      | some (_, r) => some (.absent, r)

def readEntries : Nat -> List (Node × Node) -> Reader -> Option (Node × Reader)
  | 0, _, _ => none
  | fuel + 1, seen, r =>
      let ends : List Token := [.key, .value, .blockEnd]
      match r.next? with
      | some (.key, r) =>
          (readUnless ends true true fuel r).bind fun (k, r) =>
            (readValue ends true fuel r).bind fun (v, r) => readEntries fuel ((k, v) :: seen) r
      | some (.blockEnd, r) => some (.map seen.reverse, r)
      | _ => none

/-- The items of a list in brackets; an item with a key is a map of one entry.  Where
that key is left out, the token in its place is passed over. -/
def readFlowItems (first : Bool) : Nat -> List Node -> Reader -> Option (Node × Reader)
  | 0, _, _ => none
  | fuel + 1, seen, r =>
      match r.peek? with
      | none => none
      | some (.flowListEnd, r) => some (.list seen.reverse, r.take)
      | some (t, r) =>
          if !first && t != .comma then none
          else
            match (if first then r else r.take).peek? with
            | none => none
            | some (.flowListEnd, r) => some (.list seen.reverse, r.take)
            | some (.key, r) =>
                let ends : List Token := [.value, .comma, .flowListEnd]
                match r.take.peek? with
                | none => none
                | some (t, r) =>
                    let key :=
                      if ends.contains t then some (.absent, r.take)
                      else readNode false false fuel r
                    key.bind fun (k, r) =>
                      (readValue [.comma, .flowListEnd] false fuel r).bind fun (v, r) =>
                        readFlowItems false fuel (.map [(k, v)] :: seen) r
            | some (_, r) =>
                (readNode false false fuel r).bind fun (n, r) =>
                  readFlowItems false fuel (n :: seen) r

/-- The entries of a map in braces; a node that is no key is one without a value. -/
def readFlowEntries (first : Bool) :
    Nat -> List (Node × Node) -> Reader -> Option (Node × Reader)
  | 0, _, _ => none
  | fuel + 1, seen, r =>
      match r.peek? with
      | none => none
      | some (.flowMapEnd, r) => some (.map seen.reverse, r.take)
      | some (t, r) =>
          if !first && t != .comma then none
          else
            match (if first then r else r.take).peek? with
            | none => none
            | some (.flowMapEnd, r) => some (.map seen.reverse, r.take)
            | some (.key, r) =>
                (readUnless [.value, .comma, .flowMapEnd] false false fuel r.take).bind
                  fun (k, r) =>
                    (readValue [.comma, .flowMapEnd] false fuel r).bind fun (v, r) =>
                      readFlowEntries false fuel ((k, v) :: seen) r
            | some (_, r) =>
                (readNode false false fuel r).bind fun (k, r) =>
                  (r.peek?).bind fun (_, r) => readFlowEntries false fuel ((k, .absent) :: seen) r

end

/-! ## Documents -/

def commonHandles : List (String × String) := [("!", "!"), ("!!", ownTypes)]

/-- The directives before a document: at most one version, and no handle twice. -/
def readDirectives : Nat -> Bool -> Reader -> Option Reader
  | 0, _, _ => none
  | fuel + 1, hasVersion, r =>
      match r.peek? with
      | none => none
      | some (.version major minor, r) =>
          if hasVersion || major ≠ 1 || minor ≠ 1 then none
          else readDirectives fuel true r.take
      | some (.handle name start, r) =>
          if (r.handles.lookup name).isSome then none
          else readDirectives fuel hasVersion { r.take with handles := r.handles ++ [(name, start)] }
      | some (_, r) => some { r with handles := r.handles ++ commonHandles }

/-- Whether a token shows that a document has no content. -/
def endsDocument : Token -> Bool
  | .version _ _ | .handle _ _ | .documentStart | .documentEnd | .textEnd => true
  | _ => false

/-- The content of the first document of a text, if there is a document. -/
def document? (s : String) : Option (Option Node) := do
  let fuel := 10 * (s.length + 4)
  let (_, r) ← ({ scan := .ofText s } : Reader).next?
  let (t, r) ← r.peek?
  if t = .textEnd then return none
  let isMarked := endsDocument t && t != .documentEnd
  let r ← readDirectives fuel false r
  let (t, r) ← r.peek?
  if isMarked && t != .documentStart then none
  let (t, r) ← (if isMarked then r.take else r).peek?
  if isMarked && endsDocument t then return some .absent
  let (n, r) ← readNode true false fuel r
  let _ ← r.peek?
  return some n

end EarlyExit.Yaml
