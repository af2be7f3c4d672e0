/-!
# Lists with commas

Texts with commas between them, one line of a table.  A text that begins with a
quote ends at the next quote that stands alone; in between, commas and line ends are
part of it and a quote is written twice.  Empty lines in front are skipped, and what
follows the line is not looked at.
-/

namespace EarlyExit.CommandLine.CommaList

/-- A place in the text: its line, and its byte within the line, both from one. -/
structure Place where
  line : Nat := 1
  column : Nat := 1

def Place.after (p : Place) (c : Char) : Place :=
  { p with column := p.column + c.utf8Size }

inductive Fault
  /-- There is no line that is not empty. -/
  | blank
  | bareQuote (start : Nat) (place : Place)
  /-- A quoted text does not end, or something follows the quote that ends it. -/
  | openQuote (start : Nat) (place : Place)

def Fault.text : Fault -> String
  | blank => "EOF"
  | bareQuote start p => located start p ++ "bare \" in non-quoted field"
  | openQuote start p => located start p ++ "extraneous or missing \" in quoted-field"
where
  located (start : Nat) (p : Place) : String :=
    (if start = p.line then "" else "record on line " ++ toString start ++ "; ") ++
      "parse error on line " ++ toString p.line ++ ", column " ++ toString p.column ++ ": "

/-- How far a text of the list has been read. -/
inductive Mode
  | start
  | bare
  | quoted
  /-- Just behind a quote, at this place, that may end the text. -/
  | closing (quote : Place)

/-- Texts from a place on; `seen` holds the characters of the current one in reverse. -/
def texts (start : Nat) (mode : Mode) (p : Place) (seen : List Char) :
    List Char -> Except Fault (List String)
  | [] =>
      match mode with
      | .quoted => .error (.openQuote start p)
      | _ => .ok [String.ofList seen.reverse]
  | c :: rest =>
      let next := p.after c
      let ended : Except Fault (List String) :=
        if c == ',' then (texts start .start next [] rest).map (String.ofList seen.reverse :: ·)
        else .ok [String.ofList seen.reverse]
      match mode with
      | .quoted =>
          if c == '"' then texts start (.closing p) next seen rest
          else if c == '\n' && !rest.isEmpty then
            texts start .quoted ⟨p.line + 1, 1⟩ (c :: seen) rest
          else texts start .quoted next (c :: seen) rest
      | .closing quote =>
          if c == '"' then texts start .quoted next (c :: seen) rest
          else if c == ',' || c == '\n' then ended
          else .error (.openQuote start quote)
      | .start | .bare =>
          if c == ',' || c == '\n' then ended
          else if c == '"' then
            match mode with
            | .start => texts start .quoted next seen rest
            | _ => .error (.bareQuote start p)
          else texts start .bare next (c :: seen) rest

/-- Line ends of two characters as one; a return at the very end is dropped. -/
def plainLines : List Char -> List Char
  | [] => []
  | ['\r'] => []
  | '\r' :: '\n' :: rest => '\n' :: plainLines rest
  | c :: rest => c :: plainLines rest

/-- The texts of a list; the empty text holds none. -/
def parse (s : String) : Except Fault (List String) :=
  if s.isEmpty then .ok []
  else
    let cs := plainLines s.toList
    let line := (cs.takeWhile (· == '\n')).length + 1
    match cs.dropWhile (· == '\n') with
    | [] => .error .blank
    | cs => texts line .start ⟨line, 1⟩ [] cs

end EarlyExit.CommandLine.CommaList
