import EarlyExit.Source.Position

/-!
# Defects

Faults of a tree or of the expansion itself, as against mistakes of a program's
author, which are diagnostics.
-/

namespace EarlyExit

inductive Defect
  /-- A statement to exit from that no method, lambda or switch expression encloses. -/
  | missingScope (span : Span) (anchor : String)
  /-- A node that is not where it should be. -/
  | inconsistentTree (span : Span) (details : String)
  /-- A node of a kind that cannot stand where it was accepted. -/
  | unsupportedNode (span : Span) (type : String)
  /-- An expansion that took more steps than it may. -/
  | diverged (span : Span) (steps : Int)
  /-- A site that was accepted at first and rejected after a step. -/
  | lateRejection (span : Span)
  | invalidConfig (details : String)
  | other (category code message : String) (span : Span)
deriving DecidableEq, Repr

namespace Defect

def category : Defect -> String
  | missingScope .. | inconsistentTree .. | unsupportedNode .. => "TREE"
  | diverged .. | lateRejection .. => "PASS"
  | invalidConfig .. => "CONFIG"
  | other c .. => c

def code : Defect -> String
  | missingScope .. => "MISSING_SCOPE"
  | inconsistentTree .. => "INCONSISTENT_TREE"
  | unsupportedNode .. => "UNSUPPORTED_NODE"
  | diverged .. => "REWRITE_DIVERGED"
  | lateRejection .. => "LATE_REJECTION"
  | invalidConfig .. => "INVALID_CONFIG"
  | other _ c .. => c

def message : Defect -> String
  | missingScope _ anchor => anchor ++ " has no enclosing method, lambda or switch expression"
  | inconsistentTree _ details => details
  | unsupportedNode _ type => "unexpected " ++ type
  | diverged _ steps => "rewrite did not converge after " ++ toString steps ++ " steps"
  | lateRejection _ => "site became unsupported during rewrite"
  | invalidConfig details => details
  | other _ _ m _ => m

def span : Defect -> Span
  | missingScope s _ | inconsistentTree s _ | unsupportedNode s _ | diverged s _
  | lateRejection s | other _ _ _ s => s
  | invalidConfig _ => .nowhere

def context : Defect -> List (String × String)
  | missingScope _ anchor => [("anchor", anchor)]
  | inconsistentTree _ details => [("details", details)]
  | unsupportedNode _ type => [("node", type)]
  | diverged _ steps => [("iterations", toString steps)]
  | lateRejection _ => []
  | invalidConfig details => [("details", details)]
  | other .. => []

def text (d : Defect) : String :=
  "internal error [" ++ d.category ++ ":" ++ d.code ++ "] at " ++ d.span.text ++ ": " ++ d.message

def textFrom (caller : String) (d : Defect) : String :=
  d.text ++ " (caller: " ++ caller ++ ")"

end Defect

end EarlyExit
