import EarlyExit.Defect
import EarlyExit.Expansion.Site
import EarlyExit.Syntax.Spine

/-!
# Where an exit can be placed

For each site, the statement in front of which its test belongs, and the kind of
exit that leaves the scope there; or the reason why there is no such place.  The
answer is read off the spine of the site: an operand that runs only under a
condition, or more than once, has no statement of its own in front of it.
-/

namespace EarlyExit

namespace Stmt

/-- The slot of a statement whose expression runs once, before anything else in it. -/
def anchorSlot? : Stmt -> Option Slot
  | ret .. | throw .. | yield .. | var .. | expr .. => some .value
  | branch .. => some .test
  | switch .. => some .selector
  | sync .. => some .monitor
  | forEach .. => some .iterable
  | _ => none

/-- What kind of statement an anchor is, in words. -/
def anchorName : Stmt -> String
  | ret .. => "return statement"
  | throw .. => "throw statement"
  | yield .. => "yield statement"
  | var .. => "variable declaration"
  | expr .. => "expression statement"
  | branch .. => "if statement"
  | switch .. => "switch statement"
  | sync .. => "synchronized statement"
  | forEach .. => "for statement"
  | _ => "statement"

/-- Whether a conditional can only leave the statement through a variable of its own. -/
def needsTypedTemp : Stmt -> Bool
  | var _ _ type _ => type.isEmpty
  | branch .. | switch .. | sync .. | forEach .. => true
  | _ => false

end Stmt

/-- The type that the branch of a conditional gives the whole, empty when unknown. -/
def branchType : Expr -> String
  | .literal _ (.int _) _ => "int"
  | .literal _ (.float _) _ => "double"
  | .literal _ (.str _) _ => "String"
  | .literal _ (.bool _) _ => "boolean"
  | .literal _ .null _ => ""
  | e => e.staticType

/-- The type of a conditional: its own, else that of the first branch that has one. -/
def conditionalType (type : String) (onTrue onFalse : Expr) : String :=
  if !type.isEmpty then type
  else if !(branchType onTrue).isEmpty then branchType onTrue
  else branchType onFalse

namespace Expansion

/-- The statement that leaves a scope. -/
inductive Exit
  | ret
  | throw
  | yield
deriving DecidableEq, Repr, Inhabited

def Exit.text : Exit -> String
  | ret => "return"
  | throw => "throw"
  | yield => "yield"

inductive Reason
  | other
  | labeled
  | shortCircuit
  | conditional
  | loopClause
  | resource
  | assert
  | template
  | assignTarget
  | caseLabel
deriving DecidableEq, Repr

def Reason.text : Reason -> String
  | other => "unsupported construct"
  | labeled => "labeled statement"
  | shortCircuit => "short-circuit operand"
  | conditional => "conditional branch"
  | loopClause => "loop clause"
  | resource => "resource specification"
  | assert => "assert statement"
  | template => "string template"
  | assignTarget => "assignment target"
  | caseLabel => "case label"

/-- What has to be done for a site. -/
inductive Place
  /-- The site can be hoisted in front of its anchor. -/
  | anchored (anchor : Path)
  /-- A conditional has to become an `if` statement first. -/
  | lifted (anchor conditional : Path)
  /-- The body of a lambda has to become a block first. -/
  | wrapped (lambda : Path)
deriving DecidableEq, Repr

structure Context where
  exit : Exit
  /-- The method, lambda or arm of a switch expression that the exit leaves. -/
  scope : Path
  /-- How many lambdas and arms of switch expressions the site is in. -/
  depth : Nat
  place : Place

inductive Verdict
  | accepted (context : Context)
  | rejected (reason : Reason) (node : Path)
  | failed (defect : Defect)

structure Placement where
  /-- The expressions between the site and its statement, the nearest first. -/
  chain : List Path
  /-- The nearest statement, if it was reached. -/
  statement : Option Path := none
  verdict : Verdict

/-- How many lambdas and arms of switch expressions there are on a spine. -/
def scopeDepth : List Above -> Nat
  | [] => 0
  | up :: rest =>
      match up.node with
      | .expr (.lambda ..) => scopeDepth rest + 1
      | .arm _ => scopeDepth rest + if rest.head?.any Above.isSwitchExpr then 1 else 0
      | _ => scopeDepth rest

def innermost? : List Above -> Option (Path × Exit)
  | [] => none
  | up :: rest =>
      match up.node with
      | .method _ | .expr (.lambda ..) => some (up.path, .ret)
      | .arm _ => if rest.head?.any Above.isSwitchExpr then some (up.path, .yield) else innermost? rest
      | _ => innermost? rest

/-- Whether a statement has an early part that the place it stands in rules out. -/
def misplaced? (stmt : Above) : List Above -> Option (Reason × Path)
  | [] => some (.other, stmt.path)
  | up :: _ =>
      match up.node with
      | .stmt (.labeled ..) => some (.labeled, up.path)
      | .stmt (.forLoop ..) => if up.slot = .body then none else some (.loopClause, up.path)
      | .stmt (.tryCatch ..) => some (.resource, up.path)
      | .stmt (.block _) | .arm _ | .stmt (.branch ..) | .stmt (.forEach ..)
      | .stmt (.whileLoop ..) | .stmt (.doWhile ..) => none
      | _ => some (.other, stmt.path)

/-- Whether the site came up through a slot of the statement that rules it out. -/
def slotFault? (s : Stmt) (slot : Slot) : Option Reason :=
  match s with
  | .forLoop .. | .whileLoop .. | .doWhile .. => some .loopClause
  | .assert .. => some .assert
  | s => if s.anchorSlot? = some slot then none else some .other

/-- The exit of an anchor: a throw statement throws, any other leaves its scope. -/
def Exit.ofAnchor : Stmt -> Exit -> Exit
  | .throw .., _ => .throw
  | _, exit => exit

/-- Decide about a site from the statement reached and the spine above it. -/
def judge (depth : Nat) (chain : List Path) (up : Above) (s : Stmt) (rest : List Above)
    (place : Place) : Placement :=
  let reached (verdict : Verdict) : Placement := ⟨chain, some up.path, verdict⟩
  match slotFault? s up.slot with
  | some reason => reached (.rejected reason up.path)
  | none =>
      match misplaced? up rest with
      | some (reason, node) => reached (.rejected reason node)
      | none =>
          match innermost? rest with
          | none => reached (.failed (.missingScope s.span s.anchorName))
          | some (scope, exit) =>
              reached (.accepted { exit := .ofAnchor s exit, scope, depth, place })

def inLambda (depth : Nat) (chain : List Path) (lambda : Path) : Placement :=
  ⟨chain, none, .accepted { exit := .ret, scope := lambda, depth, place := .wrapped lambda }⟩

/-- A nest of conditionals from the inside: those below the outermost, it, and what is above. -/
def nest (up : Above) : List Above -> List Above × Above × List Above
  | [] => ([], up, [])
  | next :: rest =>
      if next.isConditional then
        let (inner, top, outer) := nest next rest
        (up :: inner, top, outer)
      else ([], up, next :: rest)

/-- Whether a conditional can leave the statement that has it in its anchor slot. -/
def liftsFrom (s : Stmt) (slot : Slot) : Node -> Bool
  | .expr (.conditional _ _ onTrue onFalse type) =>
      s.anchorSlot? = some slot &&
        (!s.needsTypedTemp || !(conditionalType type onTrue onFalse).isEmpty)
  | _ => false

/--
A site in a conditional.  The outermost conditional around it has to be all that a
statement evaluates, the value assigned to a variable, or the value of a lambda.
-/
def inConditional (depth : Nat) (chain : List Path) (up : Above) (rest : List Above) :
    Placement :=
  let rejected : Placement := ⟨chain, none, .rejected .conditional up.path⟩
  let (inner, top, outer) := nest up rest
  let chain := chain ++ inner.map (·.path) ++ [top.path]
  match outer with
  | [] => rejected
  | next :: rest =>
      match next.node with
      | .expr (.lambda ..) => inLambda depth chain next.path
      | .expr (.assign _ (.ident ..) _ _) =>
          match rest with
          | stmt :: rest =>
              match stmt.node with
              | .stmt s@(.expr ..) =>
                  if next.slot = .value then
                    judge depth (chain ++ [next.path]) stmt s rest (.lifted stmt.path top.path)
                  else rejected
              | _ => rejected
          | [] => rejected
      | .stmt s =>
          if liftsFrom s next.slot top.node then
            judge depth chain next s rest (.lifted next.path top.path)
          else rejected
      | _ => rejected

/-- Walk up the spine of a site to its statement. -/
def climb (span : Span) (depth : Nat) (chain : List Path) : List Above -> Placement
  | [] => ⟨chain, none, .failed (.inconsistentTree span "site is not inside a statement")⟩
  | up :: rest =>
      let rejected (reason : Reason) : Placement := ⟨chain, none, .rejected reason up.path⟩
      let higher : Placement := climb span depth (chain ++ [up.path]) rest
      match up.node with
      | .expr (.binary _ _ op _) =>
          if up.slot = .right && op.isShortCircuit then rejected .shortCircuit else higher
      | .expr (.conditional ..) => inConditional depth chain up rest
      | .expr (.template ..) => rejected .template
      | .expr (.assign ..) => if up.slot = .target then rejected .assignTarget else higher
      | .expr (.lambda ..) => inLambda depth chain up.path
      | .arm _ => rejected .caseLabel
      | .stmt s => judge depth chain up s rest (.anchored up.path)
      | .expr _ => higher
      | _ => rejected .other

def place (root : Node) (path : Path) (span : Span) : Placement :=
  let spine := root.spine path
  climb span (scopeDepth spine) [] spine

end Expansion

end EarlyExit
