/-!
# Source positions

Points and stretches of source text.  A point with no line stands for "nowhere":
nodes that were made up rather than read carry it, and it is shown as `-`.
-/

namespace EarlyExit

/-- The last element of a slash-separated path, without trailing slashes. -/
def baseName (path : String) : String :=
  let kept := (path.toList.reverse.dropWhile (· == '/'))
  if path.isEmpty then "."
  else if kept.isEmpty then "/"
  else String.ofList (kept.takeWhile (· != '/')).reverse

/-- One point: lines and columns count from one, the offset from zero. -/
structure Position where
  file : String := ""
  line : Int := 0
  column : Int := 0
  offset : Int := 0
deriving DecidableEq, Repr, Inhabited

namespace Position

def isValid (p : Position) : Bool :=
  decide (0 < p.line) && decide (0 < p.column) && decide (0 ≤ p.offset)

def text (p : Position) : String :=
  if !p.isValid then "-"
  else if p.file.isEmpty then toString p.line ++ ":" ++ toString p.column
  else baseName p.file ++ ":" ++ toString p.line ++ ":" ++ toString p.column

/-- File name first, then line, column and offset. -/
def before (p q : Position) : Bool :=
  if p.file ≠ q.file then decide (p.file < q.file)
  else if p.line ≠ q.line then decide (p.line < q.line)
  else if p.column ≠ q.column then decide (p.column < q.column)
  else decide (p.offset < q.offset)

def after (p q : Position) : Bool :=
  q.before p

end Position

/-- A stretch of text from `start` up to, and not including, `stop`. -/
structure Span where
  start : Position := {}
  stop : Position := {}
deriving DecidableEq, Repr, Inhabited

namespace Span

/-- The span of a node that stands nowhere in the source. -/
def nowhere : Span := {}

/-- The empty span at a line and column of a file. -/
def point (file : String) (line column : Int) : Span :=
  let p : Position := { file, line, column }
  ⟨p, p⟩

def isValid (s : Span) : Bool :=
  s.start.isValid && s.stop.isValid && s.start.file == s.stop.file &&
    !s.stop.before s.start

/-- A span is shown by its first character. -/
def text (s : Span) : String :=
  s.start.text

/-- Both ends; the line of the end is left out when it is the line of the start. -/
def range (s : Span) : String :=
  if s.start.line = s.stop.line then
    s.start.text ++ "-" ++ toString s.stop.column
  else
    s.start.text ++ "-" ++ toString s.stop.line ++ ":" ++ toString s.stop.column

def contains (s : Span) (p : Position) : Bool :=
  s.isValid && p.isValid && s.start.file == p.file &&
    !p.before s.start && p.before s.stop

/-- The least span around both; an invalid span, or one of another file, adds nothing. -/
def union (s t : Span) : Span :=
  if !s.isValid then t
  else if !t.isValid then s
  else if s.start.file ≠ t.start.file then s
  else
    { start := if t.start.before s.start then t.start else s.start
      stop := if t.stop.after s.stop then t.stop else s.stop }

def less (s t : Span) : Bool :=
  if s.start ≠ t.start then s.start.before t.start else s.stop.before t.stop

end Span

end EarlyExit
