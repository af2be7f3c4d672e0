import EarlyExit.Data.Basic

/-!
# Reading plain data

The flow form: `null`, `true`, `[1, 2]`, `"text"` and maps in braces.  Each
function takes the characters left and gives back what it read with the rest.
The `fuel` argument bounds the steps; no character takes more than two, so twice
the length of the input is always enough.
-/

namespace EarlyExit.Data

def isGap (c : Char) : Bool :=
  c == ' ' || c == '\t' || c == '\n' || c == '\r'

def skipGaps : List Char -> List Char :=
  List.dropWhile isGap

def hexValue? (c : Char) : Option Nat :=
  if c.isDigit then some (c.toNat - 48)
  else if 'a' ≤ c && c ≤ 'f' then some (c.toNat - 87)
  else if 'A' ≤ c && c ≤ 'F' then some (c.toNat - 55)
  else none

def hex4? : List Char -> Option (Nat × List Char)
  | a :: b :: c :: d :: rest => do
      let a ← hexValue? a
      let b ← hexValue? b
      let c ← hexValue? c
      let d ← hexValue? d
      some (((a * 16 + b) * 16 + c) * 16 + d, rest)
  | _ => none

/-- One escape after its backslash; a pair of surrogates is one character. -/
def escape? : List Char -> Option (Char × List Char)
  | 'n' :: r => some ('\n', r)
  | 't' :: r => some ('\t', r)
  | 'r' :: r => some ('\r', r)
  | 'b' :: r => some ('\x08', r)
  | 'f' :: r => some ('\x0c', r)
  | 'u' :: r => do
      let (hi, r) ← hex4? r
      if 0xd800 ≤ hi && hi < 0xdc00 then
        match r with
        | '\\' :: 'u' :: r2 =>
            let (lo, r2) ← hex4? r2
            if 0xdc00 ≤ lo && lo < 0xe000 then
              some (Char.ofNat (0x10000 + (hi - 0xd800) * 0x400 + (lo - 0xdc00)), r2)
            else some ('\ufffd', r)
        | _ => some ('\ufffd', r)
      else if 0xdc00 ≤ hi && hi < 0xe000 then some ('\ufffd', r)
      else some (Char.ofNat hi, r)
  | c :: r => some (c, r)
  | [] => none

/-- The rest of a text after its opening quote, with the characters so far in reverse. -/
def text? : Nat -> List Char -> List Char -> Option (String × List Char)
  | 0, _, _ => none
  | _ + 1, _, [] => none
  | _ + 1, seen, '"' :: rest => some (String.ofList seen.reverse, rest)
  | fuel + 1, seen, '\\' :: rest =>
      match escape? rest with
      | some (c, rest) => text? fuel (c :: seen) rest
      | none => none
  | fuel + 1, seen, c :: rest => text? fuel (c :: seen) rest

def isNumberChar (c : Char) : Bool :=
  c.isDigit || c == '-' || c == '+' || c == '.' || c == 'e' || c == 'E'

mutual

def value? : Nat -> List Char -> Option (Data × List Char)
  | 0, _ => none
  | fuel + 1, cs =>
      match skipGaps cs with
      | 'n' :: 'u' :: 'l' :: 'l' :: rest => some (.null, rest)
      | 't' :: 'r' :: 'u' :: 'e' :: rest => some (.bool true, rest)
      | 'f' :: 'a' :: 'l' :: 's' :: 'e' :: rest => some (.bool false, rest)
      | '"' :: rest =>
          match text? fuel [] rest with
          | some (s, rest) => some (.str s, rest)
          | none => none
      | '[' :: rest =>
          match skipGaps rest with
          | ']' :: rest => some (.list [], rest)
          | rest => (items? fuel rest).map fun (xs, rest) => (.list xs, rest)
      | '\x7b' :: rest =>
          match skipGaps rest with
          | '\x7d' :: rest => some (.map [], rest)
          | rest => (entries? fuel rest).map fun (es, rest) => (.map es, rest)
      | c :: rest =>
          let number := (c :: rest).takeWhile isNumberChar
          if number.isEmpty then none
          else some (.number (String.ofList number), (c :: rest).dropWhile isNumberChar)
      | [] => none

def items? : Nat -> List Char -> Option (List Data × List Char)
  | 0, _ => none
  | fuel + 1, cs =>
      match value? fuel cs with
      | none => none
      | some (x, rest) =>
          match skipGaps rest with
          | ',' :: rest => (items? fuel rest).map fun (xs, rest) => (x :: xs, rest)
          | ']' :: rest => some ([x], rest)
          | _ => none

def entries? : Nat -> List Char -> Option (List (String × Data) × List Char)
  | 0, _ => none
  | fuel + 1, cs =>
      match skipGaps cs with
      | '"' :: rest =>
          match text? fuel [] rest with
          | none => none
          | some (key, rest) =>
              match skipGaps rest with
              | ':' :: rest =>
                  match value? fuel rest with
                  | none => none
                  | some (x, rest) =>
                      match skipGaps rest with
                      | ',' :: rest =>
                          (entries? fuel rest).map fun (es, rest) => ((key, x) :: es, rest)
                      | '\x7d' :: rest => some ([(key, x)], rest)
                      | _ => none
              | _ => none
      | _ => none

end

def parse? (s : String) : Option Data :=
  let cs := s.toList
  match value? (2 * cs.length + 2) cs with
  | some (d, rest) => if (skipGaps rest).isEmpty then some d else none
  | none => none

end EarlyExit.Data
