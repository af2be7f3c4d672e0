/-!
# Places in a text

A text read from left to right, with the line and the column of the place reached.
A place at the end of the text counts as one before a line break.
-/

namespace EarlyExit.Yaml

/-! ## Characters -/

def isBreak (c : Char) : Bool :=
  c == '\n' || c == '\r' || c == '\u0085' || c == '\u2028' || c == '\u2029'

def isBlank (c : Char) : Bool :=
  c == ' ' || c == '\t'

def isGap (c : Char) : Bool :=
  isBlank c || isBreak c

def isNameChar (c : Char) : Bool :=
  c.isAlphanum || c == '_' || c == '-'

/-- Whether a text may hold a character at all. -/
def isAllowed (c : Char) : Bool :=
  c == '\t' || c == '\n' || c == '\r' || c == '\u0085' ||
    (decide (' ' ≤ c) && decide (c ≤ '~')) ||
    (decide ('\u00a0' ≤ c) && c != '\ufffe' && c != '\uffff')

def hexValue? (c : Char) : Option Nat :=
  if c.isDigit then some (c.toNat - 48)
  else if 'a' ≤ c && c ≤ 'f' then some (c.toNat - 87)
  else if 'A' ≤ c && c ≤ 'F' then some (c.toNat - 55)
  else none

/-- The number of so many hexadecimal digits, after one read so far. -/
def hexNumber? : Nat -> Nat -> List Char -> Option Nat
  | 0, n, _ => some n
  | _ + 1, _, [] => none
  | count + 1, n, c :: rest =>
      match hexValue? c with
      | some d => hexNumber? count (n * 16 + d) rest
      | none => none

/-! ## Cursors -/

structure Cursor where
  rest : List Char
  index : Nat := 0
  line : Nat := 0
  column : Nat := 0

namespace Cursor

def peek? (c : Cursor) : Option Char :=
  c.rest.head?

def isAtEnd (c : Cursor) : Bool :=
  c.rest.isEmpty

/-- Whether a character, if there is one so far ahead, is of a class. -/
def holds (c : Cursor) (p : Char -> Bool) (ahead : Nat := 0) : Bool :=
  (c.rest.drop ahead).head?.all p

def isAt (c : Cursor) (p : Char -> Bool) : Bool :=
  c.peek?.any p

def step (c : Cursor) : Cursor :=
  match c.rest with
  | _ :: rest => { c with rest := rest, index := c.index + 1, column := c.column + 1 }
  | [] => c

def skip (c : Cursor) (count : Nat := 1) : Cursor :=
  Nat.repeat step count c

def skipWhile (c : Cursor) (p : Char -> Bool) : Cursor :=
  c.skip (c.rest.takeWhile p).length

/-- The line break here as part of a text. -/
def breakText (c : Cursor) : List Char :=
  match c.rest with
  | d :: _ => if d == '\u2028' || d == '\u2029' then [d] else if isBreak d then ['\n'] else []
  | [] => []

/-- Past the line break here; two characters may be one break. -/
def skipBreak (c : Cursor) : Cursor :=
  match c.rest with
  | '\r' :: '\n' :: rest => ⟨rest, c.index + 2, c.line + 1, 0⟩
  | d :: rest => if isBreak d then ⟨rest, c.index + 1, c.line + 1, 0⟩ else c
  | [] => c

/-- Whether a text stands here at the beginning of a line, with a gap behind it. -/
def isAtMark (c : Cursor) (mark : String) : Bool :=
  c.column == 0 && mark.toList.isPrefixOf c.rest && c.holds isGap mark.length

/-- Whether a document begins or ends here. -/
def isAtMarker (c : Cursor) : Bool :=
  c.isAtMark "---" || c.isAtMark "..."

end Cursor

end EarlyExit.Yaml
