import EarlyExit.Yaml.Cursor

/-!
# The texts of leaves

Bare text, quoted text and indented blocks of lines.  A leaf may go on over several
lines: in bare and quoted text a single line break is a blank and further ones stay,
and a block says by its header how its lines are joined and how it ends.

The `fuel` argument of the loops bounds the characters left; each turn takes one.
-/

namespace EarlyExit.Yaml

/-- A text with the gap that follows it so far; all parts are in reverse. -/
structure Joined where
  text : List Char := []
  blanks : List Char := []
  /-- The first line break of the gap, and the further ones. -/
  first : List Char := []
  further : List Char := []
  isBroken : Bool := false

namespace Joined

def settle (j : Joined) : Joined :=
  let gap :=
    if !j.isBroken then j.blanks
    else if j.first == ['\n'] then (if j.further.isEmpty then [' '] else j.further)
    else j.further ++ j.first
  { text := gap ++ j.text }

def push (j : Joined) (c : Char) : Joined :=
  { j with text := c :: j.text }

/-- Take in the gap at a place; at the start of a line no tab may stand left of `indent`. -/
def gap (indent : Int) : Nat -> Joined -> Cursor -> Option (Joined × Cursor)
  | 0, _, _ => none
  | fuel + 1, j, c =>
      match c.peek? with
      | none => some (j, c)
      | some d =>
          if isBlank d then
            if !j.isBroken then gap indent fuel { j with blanks := d :: j.blanks } c.skip
            else if d == '\t' && decide (Int.ofNat c.column < indent) then none
            else gap indent fuel j c.skip
          else if isBreak d then
            let j :=
              if j.isBroken then { j with further := c.breakText ++ j.further }
              else { j with blanks := [], first := c.breakText, isBroken := true }
            gap indent fuel j c.skipBreak
          else some (j, c)

end Joined

/-! ## Bare text -/

/-- Whether bare text ends at a character, which may be a mark of a list or a map. -/
def endsBare (inFlow : Bool) (c : Cursor) (d : Char) : Bool :=
  isGap d || (d == ':' && c.holds isGap 1) || (inFlow && ",?[]\x7b\x7d".toList.contains d)

def bareWord (inFlow : Bool) : Nat -> Joined -> Cursor -> Joined × Cursor
  | 0, j, c => (j, c)
  | fuel + 1, j, c =>
      match c.peek? with
      | none => (j, c)
      | some d =>
          if endsBare inFlow c d then (j, c) else bareWord inFlow fuel (j.settle.push d) c.skip

def bareFrom (inFlow : Bool) (indent : Int) : Nat -> Joined -> Cursor -> Option (Joined × Cursor)
  | 0, _, _ => none
  | fuel + 1, j, c =>
      if c.isAtMarker || c.isAt (· == '#') then some (j, c)
      else
        let (j, c) := bareWord inFlow (c.rest.length + 1) j c
        if !c.isAt isGap then some (j, c)
        else
          match Joined.gap indent (c.rest.length + 1) j c with
          | none => none
          | some (j, c) =>
              if !inFlow && decide (Int.ofNat c.column < indent) then some (j, c)
              else bareFrom inFlow indent fuel j c

/-- Bare text, and whether a line break was taken behind it. -/
def bare? (inFlow : Bool) (indent : Int) (c : Cursor) : Option (String × Bool × Cursor) :=
  (bareFrom inFlow indent (c.rest.length + 1) {} c).map fun (j, c) =>
    (String.ofList j.text.reverse, j.isBroken, c)

/-! ## Quoted text -/

def charOf? (n : Nat) : Option Char :=
  if h : n.isValidChar then some (Char.ofNatAux n h) else none

/-- An escape behind its backslash: the character, and how many characters spell it. -/
def escape? : List Char -> Option (Char × Nat)
  | [] => none
  | c :: rest =>
      let coded (count : Nat) : Option (Char × Nat) :=
        ((hexNumber? count 0 rest).bind charOf?).map fun d => (d, count + 1)
      match c with
      | '0' => some ('\x00', 1)
      | 'a' => some ('\x07', 1)
      | 'b' => some ('\x08', 1)
      | 't' | '\t' => some ('\t', 1)
      | 'n' => some ('\n', 1)
      | 'v' => some ('\x0b', 1)
      | 'f' => some ('\x0c', 1)
      | 'r' => some ('\r', 1)
      | 'e' => some ('\x1b', 1)
      | 'N' => some ('\u0085', 1)
      | '_' => some ('\u00a0', 1)
      | 'L' => some ('\u2028', 1)
      | 'P' => some ('\u2029', 1)
      | 'x' => coded 2
      | 'u' => coded 4
      | 'U' => coded 8
      | c => if " \"'/\\".toList.contains c then some (c, 1) else none

/-- Quoted text up to a gap, the closing quote, or a line break behind a backslash. -/
def quotedWord (quote : Char) : Nat -> Joined -> Cursor -> Option (Joined × Cursor)
  | 0, _, _ => none
  | fuel + 1, j, c =>
      match c.rest with
      | [] => some (j, c)
      | d :: rest =>
          if isGap d then some (j, c)
          else if d == quote then
            if quote == '\x27' && rest.head? == some quote then
              quotedWord quote fuel (j.push d) (c.skip 2)
            else some (j, c)
          else if d == '\\' && quote == '"' then
            if rest.head?.any isBreak then some ({ j with isBroken := true }, c.skip.skipBreak)
            else
              match escape? rest with
              | some (e, count) => quotedWord quote fuel (j.push e) (c.skip (count + 1))
              | none => none
          else quotedWord quote fuel (j.push d) c.skip

def quotedFrom (quote : Char) : Nat -> Joined -> Cursor -> Option (String × Cursor)
  | 0, _, _ => none
  | fuel + 1, j, c =>
      if c.isAtMarker || c.isAtEnd then none
      else
        match quotedWord quote (c.rest.length + 1) j c with
        | none => none
        | some (j, c) =>
            if c.isAt (· == quote) then some (String.ofList j.text.reverse, c.skip)
            else
              match Joined.gap (-1) (c.rest.length + 1) j c with
              | none => none
              | some (j, c) => quotedFrom quote fuel j.settle c

def quoted? (quote : Char) (c : Cursor) : Option (String × Cursor) :=
  quotedFrom quote (c.rest.length + 1) {} c.skip

/-! ## Blocks of lines -/

/-- What a block does with the line breaks at its end. -/
inductive Chomp
  | strip
  | clip
  | keep
deriving DecidableEq, Repr

def chomp? : Char -> Option Chomp
  | '+' => some .keep
  | '-' => some .strip
  | _ => none

/-- The marks behind the sign of a block: how it ends, and its indentation if it is given. -/
def blockHeader? (c : Cursor) : Option (Chomp × Nat × Cursor) :=
  let digit (c : Cursor) : Option (Nat × Cursor) :=
    match c.peek? with
    | some d =>
        if !d.isDigit then some (0, c) else if d == '0' then none else some (d.toNat - 48, c.skip)
    | none => some (0, c)
  let mark (c : Cursor) : Chomp × Cursor :=
    match c.peek?.bind chomp? with
    | some m => (m, c.skip)
    | none => (.clip, c)
  match c.peek?.bind chomp? with
  | some m => (digit c.skip).map fun (n, c) => (m, n, c)
  | none =>
      (digit c).map fun (n, c) =>
        if n = 0 then (.clip, 0, c)
        else
          let (m, c) := mark c
          (m, n, c)

/-- Empty lines and the indentation of the next; an indentation of zero is still to be found. -/
def blockBreaks (outer : Int) (indent : Nat) :
    Nat -> Nat -> List Char -> Cursor -> Option (Nat × List Char × Cursor)
  | 0, _, _, _ => none
  | fuel + 1, widest, breaks, c =>
      let spaces := (c.rest.takeWhile (· == ' ')).length
      let c := c.skip (if indent = 0 then spaces else min spaces (indent - c.column))
      let widest := max widest c.column
      if (indent = 0 || c.column < indent) && c.isAt (· == '\t') then none
      else if c.isAt isBreak then
        blockBreaks outer indent fuel widest (c.breakText ++ breaks) c.skipBreak
      else
        let found := max (max widest (outer + 1).toNat) 1
        some (if indent = 0 then found else indent, breaks, c)

/-- The lines of a block: text, last line break, and the breaks behind it, all in reverse. -/
def blockLines (outer : Int) (literal : Bool) (indent : Nat) :
    Nat -> List Char -> List Char -> List Char -> Bool -> Cursor ->
      Option (List Char × List Char × List Char × Cursor)
  | 0, _, _, _, _, _ => none
  | fuel + 1, text, last, breaks, wasBlank, c =>
      if c.column != indent || c.isAtEnd then some (text, last, breaks, c)
      else
        let blank := c.isAt isBlank
        let text :=
          if !literal && !wasBlank && !blank && last == ['\n'] then
            (if breaks.isEmpty then ' ' :: text else text)
          else last ++ text
        let line := c.rest.takeWhile fun d => !isBreak d
        let text := line.reverse ++ breaks ++ text
        let c := c.skip line.length
        match blockBreaks outer indent (c.rest.length + 1) 0 [] c.skipBreak with
        | none => none
        | some (_, breaks, next) =>
            blockLines outer literal indent fuel text c.breakText breaks blank next

/-- A block of lines from its sign on, inside an indentation. -/
def block? (outer : Int) (c : Cursor) : Option (String × Cursor) := do
  let literal := c.isAt (· == '|')
  let (chomp, given, c) ← blockHeader? c.skip
  let c := c.skipWhile isBlank
  let c := if c.isAt (· == '#') then c.skipWhile fun d => !isBreak d else c
  if !c.holds isBreak then none
  let c := c.skipBreak
  let indent := if given = 0 then 0 else (max outer 0).toNat + given
  let (indent, breaks, c) ← blockBreaks outer indent (c.rest.length + 1) 0 [] c
  let (text, last, breaks, c) ←
    blockLines outer literal indent (c.rest.length + 1) [] [] breaks false c
  let tail :=
    match chomp with
    | .strip => []
    | .clip => last
    | .keep => breaks ++ last
  return (String.ofList (tail ++ text).reverse, c)

end EarlyExit.Yaml
