import EarlyExit.Yaml.Scalar

/-!
# Tokens

The parts of a text that lists, maps and leaves are read from.  Lists and maps that
are told by their indentation begin and end with tokens of no characters.  Here too
are the parts with a form of their own: names, types and directives.
-/

namespace EarlyExit.Yaml

inductive Token
  | textStart
  | textEnd
  /-- A directive that gives the version of the format. -/
  | version (major minor : Nat)
  /-- A directive that lets a handle stand for the beginning of a type. -/
  | handle (name start : String)
  | documentStart
  | documentEnd
  | blockList
  | blockMap
  | blockEnd
  | flowList
  | flowListEnd
  | flowMap
  | flowMapEnd
  /-- A dash before an item. -/
  | item
  /-- A comma between items. -/
  | comma
  | key
  | value
  | alias (name : String)
  | anchor (name : String)
  /-- A type as a handle and what follows it; a type in full has no handle. -/
  | tag (handle rest : String)
  | leaf (text : String) (isBare : Bool)
deriving DecidableEq, Repr

/-! ## Names -/

def name? (c : Cursor) : Option (String × Cursor) :=
  let c := c.skip
  let name := c.rest.takeWhile isNameChar
  let c := c.skip name.length
  let ends (d : Char) : Bool := isGap d || "?:,]\x7d%@`".toList.contains d
  if name.isEmpty || !c.holds ends then none else some (String.ofList name, c)

/-! ## Types -/

def isTypeChar (c : Char) : Bool :=
  isNameChar c || ";/?:@&=+$,.!~*'()[]%".toList.contains c

/-- How many bytes follow the first one of a character, and what the first one gives. -/
def firstByte? (b : Nat) : Option (Nat × Nat) :=
  if b < 128 then some (0, b)
  else if 192 ≤ b && b < 224 then some (1, b - 192)
  else if 224 ≤ b && b < 240 then some (2, b - 224)
  else if 240 ≤ b && b < 248 then some (3, b - 240)
  else none

/-- A byte as two hexadecimal digits behind a percent sign. -/
def codedByte? : List Char -> Option (Nat × List Char)
  | '%' :: a :: b :: rest =>
      match hexValue? a, hexValue? b with
      | some x, some y => some (x * 16 + y, rest)
      | _, _ => none
  | _ => none

def codedTail? : Nat -> Nat -> List Char -> Option (Nat × List Char)
  | 0, n, cs => some (n, cs)
  | count + 1, n, cs =>
      match codedByte? cs with
      | some (b, rest) =>
          if 128 ≤ b && b < 192 then codedTail? count (n * 64 + b % 64) rest else none
      | none => none

def codedChar? (cs : List Char) : Option (Char × List Char) :=
  match codedByte? cs with
  | none => none
  | some (b, rest) =>
      match firstByte? b with
      | none => none
      | some (count, n) =>
          (codedTail? count n rest).map fun (n, rest) => (Char.ofNat n, rest)

/-- The characters of a type, with those read so far in reverse. -/
def typeText? : Nat -> List Char -> List Char -> Option (String × List Char)
  | 0, _, _ => none
  | _ + 1, seen, [] => some (String.ofList seen.reverse, [])
  | fuel + 1, seen, c :: rest =>
      if c == '%' then
        match codedChar? (c :: rest) with
        | some (d, rest) => typeText? fuel (d :: seen) rest
        | none => none
      else if isTypeChar c then typeText? fuel (c :: seen) rest
      else some (String.ofList seen.reverse, c :: rest)

/-- The characters of a type at a place, at least one if none stands before it. -/
def typePart? (before : List Char) (c : Cursor) : Option (String × Cursor) :=
  match typeText? (c.rest.length + 1) [] c.rest with
  | none => none
  | some (text, rest) =>
      if before.isEmpty && rest.length = c.rest.length then none
      else
        some (String.ofList (before.drop 1) ++ text, c.skip (c.rest.length - rest.length))

/-- A handle, and whether it is closed by a second sign. -/
def handleText (c : Cursor) : List Char × Bool × Cursor :=
  let name := c.rest.head?.toList ++ (c.rest.drop 1).takeWhile isNameChar
  let next := c.skip name.length
  if next.isAt (· == '!') then (name ++ ['!'], true, next.skip) else (name, false, next)

def tag? (c : Cursor) : Option (Token × Cursor) :=
  let read : Option (Token × Cursor) :=
    if (c.skip).isAt (· == '<') then
      match typePart? [] (c.skip 2) with
      | some (text, next) =>
          if next.isAt (· == '>') then some (.tag "" text, next.skip) else none
      | none => none
    else
      let (handle, isClosed, next) := handleText c
      if isClosed then
        (typePart? [] next).map fun (text, next) => (.tag (String.ofList handle) text, next)
      else
        (typePart? handle next).map fun (text, next) =>
          (if text.isEmpty then .tag "" "!" else .tag "!" text, next)
  read.bind fun (t, next) => if next.holds isGap then some (t, next) else none

/-! ## Directives -/

/-- A number of one or two digits. -/
def shortNumber? (c : Cursor) : Option (Nat × Cursor) :=
  match c.rest.takeWhile Char.isDigit with
  | [a] => some (a.toNat - 48, c.skip)
  | [a, b] => some ((a.toNat - 48) * 10 + (b.toNat - 48), c.skip 2)
  | _ => none

def version? (c : Cursor) : Option (Token × Cursor) :=
  match shortNumber? c with
  | some (major, next) =>
      if next.isAt (· == '.') then
        (shortNumber? next.skip).map fun (minor, next) => (.version major minor, next)
      else none
  | none => none

def handle? (c : Cursor) : Option (Token × Cursor) :=
  let (handle, isClosed, next) := handleText c
  if !c.isAt (· == '!') || (!isClosed && handle != ['!']) || !next.isAt isBlank then none
  else
    match typePart? [] (next.skipWhile isBlank) with
    | some (text, next) =>
        if next.holds isGap then some (.handle (String.ofList handle) text, next) else none
    | none => none

/-- A directive with the rest of its line, which may hold a comment. -/
def directive? (c : Cursor) : Option (Token × Cursor) :=
  let name := c.skip.rest.takeWhile isNameChar
  let next := (c.skip).skip name.length
  let body := next.skipWhile isBlank
  let read : Option (Token × Cursor) :=
    if !next.holds isGap then none
    else if name == "YAML".toList then version? body
    else if name == "TAG".toList then handle? body
    else none
  read.bind fun (t, next) =>
    let next := next.skipWhile isBlank
    let next := if next.isAt (· == '#') then next.skipWhile fun d => !isBreak d else next
    if next.holds isBreak then some (t, next.skipBreak) else none

end EarlyExit.Yaml
