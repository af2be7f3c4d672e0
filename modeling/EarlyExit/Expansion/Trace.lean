import EarlyExit.Data.Basic
import EarlyExit.Expansion.Placement

/-!
# Traces

What an expansion did, as a list of events, and the log record of each.
-/

namespace EarlyExit.Expansion

inductive Event
  | found (sites : Nat)
  | rejected (site : Span) (reason : Reason)
  | placed (site : Span) (exit : Exit) (depth : Nat)
  | wrapped (lambda : Span)
  | lifted (conditional : Span)
  | hoisted (anchor : Span) (name : String) (sites statements : Nat)
  | finished (sites steps : Nat)

namespace Event

def level : Event -> String
  | finished .. => "info"
  | _ => "debug"

def message : Event -> String
  | found _ => "found unwrap sites"
  | rejected .. => "rejected unwrap site"
  | placed .. => "classified unwrap site"
  | wrapped _ => "wrapped lambda body"
  | lifted _ => "lifted conditional"
  | hoisted _ _ _ statements => "hoisted into " ++ toString statements ++ " statements"
  | finished .. => "rewrote unit"

def fields : Event -> List (String × Data)
  | found sites => [("sites", .ofNat sites)]
  | rejected site reason => [("pos", .str site.text), ("reason", .str reason.text)]
  | placed site exit depth =>
      [("pos", .str site.text), ("exit", .str exit.text), ("depth", .ofNat depth)]
  | wrapped span | lifted span => [("pos", .str span.text)]
  | hoisted span name sites _ =>
      [("pos", .str span.text), ("anchor", .str name), ("sites", .ofNat sites)]
  | finished sites steps => [("sites", .ofNat sites), ("steps", .ofNat steps)]

def record (file : String) (e : Event) : Data :=
  .map ([("level", .str e.level), ("component", .str "unwrap"), ("unit", .str file)] ++ e.fields ++
    [("message", .str e.message)])

end Event

end EarlyExit.Expansion
