/-!
# Bytes written with 64 characters

Four characters stand for three bytes; equals signs fill the last four.  Line breaks
between the characters do not count.  Bytes that spell no character become the mark
for one that is unknown.
-/

namespace EarlyExit.Text.Base64

def value? (c : Char) : Option Nat :=
  if 'A' ≤ c && c ≤ 'Z' then some (c.toNat - 65)
  else if 'a' ≤ c && c ≤ 'z' then some (c.toNat - 71)
  else if c.isDigit then some (c.toNat + 4)
  else if c == '+' then some 62
  else if c == '/' then some 63
  else none

def number? (cs : List Char) : Option Nat :=
  cs.foldlM (fun n c => (value? c).map (n * 64 + ·)) 0

/-- The bytes of characters without line breaks. -/
def bytes? : List Char -> Option (List Nat)
  | [] => some []
  | [a, b, '=', '='] => (number? [a, b]).map fun n => [n / 16]
  | [a, b, c, '='] => (number? [a, b, c]).map fun n => [n / 1024, n / 4 % 256]
  | a :: b :: c :: d :: rest =>
      match number? [a, b, c, d], bytes? rest with
      | some n, some bs => some (n / 65536 :: n / 256 % 256 :: n % 256 :: bs)
      | _, _ => none
  | _ => none

/-- The number of a character from the bits of its first byte and the bytes behind it. -/
def codePoint? (n : Nat) (tail : List Nat) : Option Nat :=
  tail.foldlM (fun n b => if 128 ≤ b && b < 192 then some (n * 64 + b % 64) else none) n

/-- A character of so many bytes, from the first of them without its mark; no fewer bytes
could spell it, as it is at least `least`. -/
def longChar? (count first least : Nat) (rest : List Nat) : Option Char :=
  if rest.length < count then none
  else
    match codePoint? first (rest.take count) with
    | some n =>
        if h : n.isValidChar then if least ≤ n then some (Char.ofNatAux n h) else none
        else none
    | none => none

/-- The first character that bytes spell, and how many bytes come after its first one. -/
def firstChar (b : Nat) (rest : List Nat) : Char × Nat :=
  let long (count first least : Nat) : Char × Nat :=
    match longChar? count first least rest with
    | some c => (c, count)
    | none => ('\ufffd', 0)
  if b < 128 then (Char.ofNat b, 0)
  else if b < 192 then ('\ufffd', 0)
  else if b < 224 then long 1 (b - 192) 128
  else if b < 240 then long 2 (b - 224) 2048
  else if b < 248 then long 3 (b - 240) 65536
  else ('\ufffd', 0)

/-- The characters that bytes spell; `skipped` bytes belong to the last one. -/
def chars (skipped : Nat) : List Nat -> List Char
  | [] => []
  | b :: rest =>
      match skipped with
      | n + 1 => chars n rest
      | 0 =>
          let (c, count) := firstChar b rest
          c :: chars count rest

def decode? (s : String) : Option String :=
  (bytes? (s.toList.filter fun c => c != '\n' && c != '\r')).map fun bs =>
    String.ofList (chars 0 bs)

end EarlyExit.Text.Base64
