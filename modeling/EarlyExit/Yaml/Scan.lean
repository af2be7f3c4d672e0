import EarlyExit.Yaml.Token

/-!
# The tokens of a text

Tokens are taken from a queue that is filled from the text on demand.  A leaf or a
list may turn out to be a key only at the colon behind it, so a token that may begin a
key waits in the queue until that is settled, and the token of the key is put before
it.  Every step gives nothing where no token can begin or a key lacks its colon.

The `fuel` argument of the loops bounds the characters left; each turn but the last
few, which only tell that the text has ended, takes one.
-/

namespace EarlyExit.Yaml

/-- The last place of a nesting level where a key without a sign may have begun. -/
structure KeyPlace where
  isPossible : Bool := false
  /-- Nothing but a key may stand there. -/
  isRequired : Bool := false
  /-- Whether its token waits for the colon. -/
  isAwaited : Bool := false
  /-- The number of the token that begins the key. -/
  token : Nat := 0
  index : Nat := 0
  line : Nat := 0
  column : Nat := 0

structure Scan where
  cursor : Cursor
  queue : List Token := [.textStart]
  /-- How many tokens have been taken from the queue. -/
  taken : Nat := 0
  /-- The place of the level reached, and those of the levels around it. -/
  place : KeyPlace := {}
  outer : List KeyPlace := []
  mayBeginKey : Bool := true
  /-- The column of the innermost list or map told by indentation. -/
  indent : Int := -1
  indents : List Int := []

namespace Scan

def ofText (s : String) : Scan :=
  { cursor := ⟨s.toList, 0, 0, 0⟩ }

def inFlow (s : Scan) : Bool :=
  !s.outer.isEmpty

def push (s : Scan) (t : Token) : Scan :=
  { s with queue := s.queue ++ [t] }

/-- Put a token before one with a number, or last if that one has been taken. -/
def insert (s : Scan) (number : Nat) (t : Token) : Scan :=
  if number < s.taken then s.push t
  else
    let (before, behind) := s.queue.splitAt (number - s.taken)
    { s with queue := before ++ t :: behind }

/-! ## Keys -/

/-- A key and its colon are on one line, and near each other. -/
def isNear (s : Scan) (k : KeyPlace) : Bool :=
  k.line == s.cursor.line && decide (s.cursor.index ≤ k.index + 1024)

/-- Forget the place of the level reached. -/
def dropPlace? (s : Scan) : Option Scan :=
  if s.place.isPossible && s.place.isRequired then none
  else
    let place := { s.place with
      isPossible := false
      isAwaited := s.place.isAwaited && !s.place.isPossible }
    some { s with place := place }

/-- Keep the place reached if a key may begin there. -/
def keepPlace? (s : Scan) : Option Scan :=
  if !s.mayBeginKey then some s
  else
    let c := s.cursor
    let place : KeyPlace :=
      { isPossible := true
        isRequired := !s.inFlow && s.indent == Int.ofNat c.column
        isAwaited := true
        token := s.taken + s.queue.length
        index := c.index
        line := c.line
        column := c.column }
    s.dropPlace?.map fun s => { s with place := place }

/-- Whether the first token of the queue still waits for a colon. -/
def awaits? (s : Scan) : Option Bool :=
  match (s.place :: s.outer).find? fun k => k.isAwaited && k.token == s.taken with
  | none => some false
  | some k =>
      if !k.isPossible then some false
      else if s.isNear k then some true
      else if k.isRequired then none
      else some false

/-! ## Indentation -/

/-- Begin a list or a map at a column, unless it has begun; its token goes before a number. -/
def indentTo (s : Scan) (column : Nat) (number : Option Nat) (t : Token) : Scan :=
  if s.inFlow || decide (Int.ofNat column ≤ s.indent) then s
  else
    let s := { s with indents := s.indent :: s.indents, indent := Int.ofNat column }
    match number with
    | some n => s.insert n t
    | none => s.push t

/-- End the lists and maps that are indented beyond a column. -/
def dedentTo (s : Scan) (column : Int) : Scan :=
  if s.inFlow then s
  else
    let ended := (s.indent :: s.indents).takeWhile fun i => decide (column < i)
    let left := (s.indent :: s.indents).drop ended.length
    { s with
      queue := s.queue ++ List.replicate ended.length .blockEnd
      indent := left.head?.getD (-1)
      indents := left.drop 1 }

/-! ## Gaps -/

/-- Past a comment and the comments on the lines behind it, however they are indented. -/
def skipComments : Nat -> Cursor -> Cursor
  | 0, c => c
  | fuel + 1, c =>
      let c := c.skipWhile fun d => !isBreak d
      let gap := c.rest.takeWhile isGap
      if (c.rest.drop gap.length).head? == some '#' then
        skipComments fuel (gap.foldl (fun c d => if isBlank d then c.skip else c.skipBreak) c)
      else c

/-- To the next token; a tab may not stand where a key may begin. -/
def skipGaps : Nat -> Scan -> Scan
  | 0, s => s
  | fuel + 1, s =>
      let c := s.cursor
      let c := if c.column == 0 && c.isAt (· == '\ufeff') then c.skip else c
      let c := c.skipWhile fun d => d == ' ' || ((s.inFlow || !s.mayBeginKey) && d == '\t')
      let c := if c.isAt (· == '#') then skipComments (c.rest.length + 1) c else c
      if c.isAt isBreak then
        skipGaps fuel
          { s with cursor := c.skipBreak, mayBeginKey := s.mayBeginKey || !s.inFlow }
      else { s with cursor := c }

def skipComment (s : Scan) : Scan :=
  let c := s.cursor.skipWhile isBlank
  if c.isAt (· == '#') then { s with cursor := c.skipWhile fun d => !isBreak d } else s

/-! ## Tokens -/

def advance (s : Scan) (t : Token) (count : Nat := 1) : Scan :=
  { s with cursor := s.cursor.skip count }.push t

/-- The end of the text ends all that has begun. -/
def addEnd? (s : Scan) : Option Scan :=
  let c := s.cursor
  let c := if c.column == 0 then c else { c with column := 0, line := c.line + 1 }
  (dedentTo { s with cursor := c } (-1)).dropPlace?.map fun s =>
    { s with mayBeginKey := false }.push .textEnd

def addMarker? (s : Scan) (t : Token) : Option Scan :=
  (s.dedentTo (-1)).dropPlace?.map fun s => { s with mayBeginKey := false }.advance t 3

def addDirective? (s : Scan) : Option Scan := do
  let s ← (s.dedentTo (-1)).dropPlace?
  let (t, c) ← directive? s.cursor
  return { s with cursor := c, mayBeginKey := false }.push t

def openFlow? (s : Scan) (t : Token) : Option Scan :=
  s.keepPlace?.map fun s =>
    { s with
      place := { token := s.taken + s.queue.length }
      outer := s.place :: s.outer
      mayBeginKey := true }.advance t

/-- A level that kept no place of its own ends the wait of the bracket that opened it. -/
def closeFlow? (s : Scan) (t : Token) : Option Scan :=
  s.dropPlace?.map fun s =>
    let s := match s.outer with
      | [] => s
      | place :: outer =>
          let isAwaited := place.isAwaited && place.token != s.place.token
          { s with place := { place with isAwaited := isAwaited }, outer := outer }
    { s with mayBeginKey := false }.advance t

def addComma? (s : Scan) : Option Scan :=
  s.dropPlace?.map fun s => { s with mayBeginKey := true }.advance .comma

def addItem? (s : Scan) : Option Scan :=
  if !s.inFlow && !s.mayBeginKey then none
  else
    (s.indentTo s.cursor.column none .blockList).dropPlace?.map fun s =>
      { s with mayBeginKey := true }.advance .item

def addKey? (s : Scan) : Option Scan :=
  if !s.inFlow && !s.mayBeginKey then none
  else
    (s.indentTo s.cursor.column none .blockMap).dropPlace?.map fun s =>
      { s with mayBeginKey := !s.inFlow }.advance .key

/-- A colon makes a key of what began at the place kept, or stands behind a key with a sign. -/
def addValue? (s : Scan) : Option Scan :=
  let k := s.place
  if k.isPossible && s.isNear k then
    let s := (s.insert k.token .key).indentTo k.column (some k.token) .blockMap
    let s := { s with
      place := { k with isPossible := false, isAwaited := false }
      mayBeginKey := false }
    some (s.advance .value)
  else if k.isPossible && k.isRequired then none
  else if !s.inFlow && !s.mayBeginKey then none
  else
    let s := { s with place := { k with isPossible := false } }
    let s := s.indentTo s.cursor.column none .blockMap
    some ({ s with mayBeginKey := !s.inFlow }.advance .value)

def addPart? (s : Scan) (read : Cursor -> Option (Token × Cursor)) : Option Scan := do
  let s ← s.keepPlace?
  let (t, c) ← read s.cursor
  return { s with cursor := c, mayBeginKey := false }.push t

def addBlock? (s : Scan) : Option Scan := do
  let s ← s.dropPlace?
  let (text, c) ← block? s.indent s.cursor
  return { s with cursor := c, mayBeginKey := true }.push (.leaf text false)

def addBare? (s : Scan) : Option Scan := do
  let s ← s.keepPlace?
  let (text, isBroken, c) ← bare? s.inFlow (s.indent + 1) s.cursor
  return { s with cursor := c, mayBeginKey := isBroken }.push (.leaf text true)

def beginsBare (s : Scan) (d : Char) : Bool :=
  !(isGap d || "-?:,[]\x7b\x7d#&*!|>'\"%@`".toList.contains d) ||
    (d == '-' && !(s.cursor.skip).isAt isBlank) ||
    (!s.inFlow && (d == '?' || d == ':') && !s.cursor.holds isGap 1)

/-- The token that a character begins, with a comment on the same line. -/
def addAt? (s : Scan) (d : Char) : Option Scan :=
  let isAlone := s.cursor.holds isGap 1
  let added : Option Scan :=
    match d with
    | '[' => s.openFlow? .flowList
    | '\x7b' => s.openFlow? .flowMap
    | ']' => s.closeFlow? .flowListEnd
    | '\x7d' => s.closeFlow? .flowMapEnd
    | ',' => s.addComma?
    | '*' => s.addPart? fun c => (name? c).map fun (name, c) => (.alias name, c)
    | '&' => s.addPart? fun c => (name? c).map fun (name, c) => (.anchor name, c)
    | '!' => s.addPart? tag?
    | '\x27' => s.addPart? fun c => (quoted? d c).map fun (text, c) => (.leaf text false, c)
    | '"' => s.addPart? fun c => (quoted? d c).map fun (text, c) => (.leaf text false, c)
    | d =>
        if d == '?' && (s.inFlow || isAlone) then s.addKey?
        else if d == ':' && (s.inFlow || isAlone) then s.addValue?
        else if (d == '|' || d == '>') && !s.inFlow then s.addBlock?
        else if s.beginsBare d then s.addBare?
        else none
  added.map skipComment

def add? (s : Scan) : Option Scan :=
  let s := skipGaps (s.cursor.rest.length + 1) s
  let s := s.dedentTo (Int.ofNat s.cursor.column)
  let c := s.cursor
  match c.peek? with
  | none => s.addEnd?
  | some d =>
      if d == '%' && c.column == 0 then s.addDirective?
      else if c.isAtMark "---" then s.addMarker? .documentStart
      else if c.isAtMark "..." then s.addMarker? .documentEnd
      else if d == '-' && c.holds isGap 1 then s.addItem?
      else s.addAt? d

/-- Fill the queue until its first token is settled and two others stand behind it. -/
def fill? : Nat -> Scan -> Option Scan
  | 0, _ => none
  | fuel + 1, s =>
      if s.queue.length < 3 then s.add?.bind (fill? fuel)
      else
        match s.awaits? with
        | none => none
        | some false => some s
        | some true => s.add?.bind (fill? fuel)

def peek? (s : Scan) : Option (Token × Scan) :=
  (fill? (s.cursor.rest.length + 4) s).bind fun s => s.queue.head?.map fun t => (t, s)

def take (s : Scan) : Scan :=
  { s with queue := s.queue.drop 1, taken := s.taken + 1 }

end Scan

end EarlyExit.Yaml
