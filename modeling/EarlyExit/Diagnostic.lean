import EarlyExit.Source.Position

/-!
# Diagnostics

Messages to the author of a program, each at a place of the source, and how a list
of them is ordered, shown and counted.
-/

namespace EarlyExit

inductive Severity
  | error
  | warning
  | info
  | hint
  /-- A number that stands for no severity. -/
  | unknown (number : Int)
deriving DecidableEq, Repr, Inhabited

namespace Severity

def number : Severity -> Int
  | error => 0
  | warning => 1
  | info => 2
  | hint => 3
  | unknown n => n

def ofNumber : Int -> Severity
  | 0 => error
  | 1 => warning
  | 2 => info
  | 3 => hint
  | n => unknown n

def text : Severity -> String
  | error => "error"
  | warning => "warning"
  | info => "info"
  | hint => "hint"
  | unknown _ => "unknown"

end Severity

structure Diagnostic where
  code : String := ""
  message : String
  span : Span := .nowhere
  severity : Severity := .error
deriving DecidableEq, Repr, Inhabited

namespace Diagnostic

/-- A site where no exit can be placed. -/
def unsupported (span : Span) : Diagnostic where
  code := "U0001"
  message := "Unsupported position for unwrap method call"
  span := span

def text (d : Diagnostic) : String :=
  d.span.text ++ ": " ++ d.severity.text ++ ": " ++ d.message

/-- Whether a diagnostic may stand before another: by place, then by severity. -/
def precedes (a b : Diagnostic) : Bool :=
  if a.span.start ≠ b.span.start then !b.span.less a.span
  else decide (a.severity.number ≤ b.severity.number)

/-- By place, the more severe first; equals keep their order. -/
def sort (ds : List Diagnostic) : List Diagnostic :=
  ds.mergeSort precedes

def hasErrors (ds : List Diagnostic) : Bool :=
  ds.any fun d => d.severity == .error

def lines (ds : List Diagnostic) : String :=
  "\n".intercalate (ds.map text)

/-! ## Terminal output -/

/-- A text between a colour and the code that ends it. -/
def painted (on off : String) (text : String) : String :=
  "\x1b[" ++ on ++ "m" ++ text ++ "\x1b[" ++ off ++ "m"

def paintedSeverity (s : Severity) : String :=
  match s with
  | .error => painted "31;1" "0;22" s.text
  | .warning => painted "33;1" "0;22" s.text
  | .info => painted "36" "0" s.text
  | .hint => painted "32" "0" s.text
  | .unknown _ => s.text

/-- The line that a terminal shows for a diagnostic. -/
def line (color : Bool) (d : Diagnostic) : String :=
  if color then
    painted "1" "22" d.span.text ++ ": " ++ paintedSeverity d.severity ++ ": " ++ d.message ++ "\n"
  else d.text ++ "\n"

/-- How many diagnostics there were; nothing for none. -/
def summary (count : Nat) : String :=
  match count with
  | 0 => ""
  | 1 => "1 error\n"
  | n => toString n ++ " errors\n"

end Diagnostic

end EarlyExit
