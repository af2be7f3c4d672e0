import EarlyExit.Data.Basic

/-!
# Stored documents

A text of several lines is stored as an indented block of lines where that is
possible.  The reader of such a block takes an empty first line for the end of its
header, so a text that begins with a line break comes back without it.
-/

namespace EarlyExit.Document

/-- Whether a character can stand in a block of lines as it is. -/
def plainInBlock (c : Char) : Bool :=
  c == '\n' || c == '\t' ||
    (' ' ≤ c && c ≤ '~') ||
    ('\u00a0' ≤ c && c ≤ '\ufffd' && c != '\ufeff')

/-- Whether a blank stands in front of a line break or at the end. -/
def hasTrailingBlank : List Char -> Bool
  | [] => false
  | ' ' :: [] => true
  | ' ' :: '\n' :: _ => true
  | _ :: rest => hasTrailingBlank rest

def isBlockText (cs : List Char) : Bool :=
  cs.contains '\n' && !hasTrailingBlank cs && cs.all plainInBlock

/-- What is read back of a stored text. -/
def storedText (s : String) : String :=
  match s.toList with
  | '\n' :: rest => if isBlockText ('\n' :: rest) then String.ofList rest else s
  | _ => s

mutual

/-- What is read back of a stored document. -/
def stored : Data -> Data
  | .str s => .str (storedText s)
  | .list xs => .list (storedItems xs)
  | .map es => .map (storedEntries es)
  | d => d

def storedItems : List Data -> List Data
  | [] => []
  | x :: rest => stored x :: storedItems rest

def storedEntries : List (String × Data) -> List (String × Data)
  | [] => []
  | (key, x) :: rest => (key, stored x) :: storedEntries rest

end

end EarlyExit.Document
