import EarlyExit.Expansion.Names
import EarlyExit.Expansion.Placement

/-!
# Hoisting

The sites of one statement are moved in front of it in the order they are
evaluated.  Each becomes a temporary for its container and a test that exits in the
alternate state; what is left in the statement is the success value of the
temporary.  An operand that is evaluated before a hoisted site gets a temporary too,
unless evaluating it later gives the same value and has no effect.
-/

namespace EarlyExit

namespace Stmt

def anchorExpr : Stmt -> Expr
  | ret _ e | throw _ e | yield _ e _ | var _ _ _ e | expr _ e | branch _ e _ _
  | switch _ e _ | sync _ e _ | forEach _ _ _ e _ => e
  | _ => .missing

def withAnchorExpr (e : Expr) : Stmt -> Stmt
  | ret s _ => ret s e
  | throw s _ => throw s e
  | yield s _ implicit => yield s e implicit
  | var s name type _ => var s name type e
  | expr s _ => expr s e
  | branch s _ onTrue onFalse => branch s e onTrue onFalse
  | switch s _ cases => switch s e cases
  | sync s _ body => sync s e body
  | forEach s name type _ body => forEach s name type e body
  | s => s

end Stmt

namespace Expansion

def writtenName? : Node -> Option String
  | .expr (.assign _ (.ident _ name _) _ _) => some name
  | .expr (.unary _ op (.ident _ name _) _) => if op.isStep then some name else none
  | _ => none

def writtenNames (e : Expr) : List String :=
  (Node.expr e).nodes.filterMap writtenName?

/-- The sites below an expression, and every expression on the way to one, by path. -/
structure Marks where
  hot : List Path := []
  sites : List (Path × Kind) := []

namespace Marks

/-- The marks below a slot. -/
def under (m : Marks) (slot : Slot) : Marks where
  hot := m.hot.filterMap (Path.below? [slot])
  sites := m.sites.filterMap fun x => (Path.below? [slot] x.1).map fun p => (p, x.2)

def isHot (m : Marks) : Bool :=
  m.hot.contains []

def isHotAt (m : Marks) (slot : Slot) : Bool :=
  m.hot.contains [slot]

/-- Whether the expression in one of the slots `slot i`, …, `slot (i + count - 1)` is hot. -/
def isHotFrom (m : Marks) (slot : Nat -> Slot) (i : Nat) : Nat -> Bool
  | 0 => false
  | count + 1 => m.isHotAt (slot i) || m.isHotFrom slot (i + 1) count

/-- The kind of the expression, if it is a site. -/
def kind? (m : Marks) : Option Kind :=
  m.sites.lookup []

/-- Marks for sites given with the expressions above them, below a common place. -/
def ofSites (place : Path) (sites : List (Path × Kind × List Path)) : Marks where
  hot := (sites.flatMap fun x => x.1 :: x.2.2).filterMap place.below?
  sites := sites.filterMap fun x => (place.below? x.1).map fun p => (p, x.2.1)

end Marks

/-- What hoisting has produced so far. -/
structure Draft where
  names : Names
  /-- The statements to go in front, in order. -/
  prologue : List Stmt := []

abbrev Hoisting := EStateM Defect Draft

def fresh : Hoisting String :=
  modifyGet fun d => (d.names.fresh.1, { d with names := d.names.fresh.2 })

def emit (ss : List Stmt) : Hoisting Unit :=
  modify fun d => { d with prologue := d.prologue ++ ss }

/-- Bind an expression to a temporary. -/
def spill (e : Expr) : Hoisting Expr := do
  let name ← fresh
  emit [.var e.span name e.staticType e]
  return .ident e.span name e.staticType

/--
Whether evaluating an expression later gives the same value and has no effect:
constants, lambdas, and variables that are not written meanwhile.
-/
def isStable (written : List String) : Expr -> Bool
  | .missing | .literal .. | .lambda .. => true
  | .ident _ name _ => !written.contains name
  | _ => false

/-- Bind an expression to a temporary unless it is stable. -/
def settle (written : List String) (e : Expr) : Hoisting Expr :=
  if isStable written e then return e else spill e

/-- Whether the target of a compound assignment may change while the value is evaluated. -/
def targetMoves (written : List String) (target value : Expr) : Bool :=
  match target with
  | .ident _ name _ => (writtenNames value).contains name
  | target => !isStable written target

def Exit.statement (exit : Exit) (value : Expr) : Stmt :=
  match exit with
  | .ret => .ret value.span value
  | .throw => .throw value.span value
  | .yield => .yield value.span value false

/-- The temporary for a container, and the exit in its alternate state. -/
def guardStatements (exit : Exit) (kind : Kind) (span : Span) (name type : String)
    (receiver : Expr) : List Stmt :=
  let temp : Expr := .ident span name type
  [.var span name type receiver,
    .branch span (kind.guard temp span)
      (.block (.mk span [exit.statement (kind.reconstruct temp span)])) .missing]

/-- Hoist a site whose receiver has been hoisted; the success value stands in for it. -/
def hoistSite (exit : Exit) (kind : Kind) (span : Span) (receiverType type : String)
    (receiver : Expr) : Hoisting Expr := do
  let name ← fresh
  emit (guardStatements exit kind span name receiverType receiver)
  return kind.extract (.ident span name receiverType) span type

/-- What hoisting needs to know of the whole statement. -/
structure Setting where
  exit : Exit
  /-- The variables that the statement's expression writes. -/
  written : List String

/-- Settle an operand that is followed by a hot one.  The success value of a site is stable. -/
def Setting.operand (c : Setting) (m : Marks) (later : Bool) (e : Expr) : Hoisting Expr :=
  if later && m.kind?.isNone then settle c.written e else return e

/-- The operands of an assignment's target are evaluated before its value. -/
def Setting.target (c : Setting) : Expr -> Hoisting Expr
  | .index s array position type => do
      let array ← settle c.written array
      let position ← settle c.written position
      return .index s array position type
  | .field s target name type => do return .field s (← settle c.written target) name type
  | e => return e

mutual

def hoist (c : Setting) (m : Marks) (e : Expr) : Hoisting Expr :=
  if !m.isHot then return e else
  match e with
  | .call s receiver name args type => do
      let r ← hoist c (m.under .receiver) receiver
      match m.kind? with
      | some kind => hoistSite c.exit kind s receiver.staticType type r
      | none =>
          let r ← c.operand (m.under .receiver) (m.isHotFrom .arg 0 args.length) r
          return .call s r name (← hoistList c m .arg 0 false args) type
  | .field s target name type => do
      return .field s (← hoist c (m.under .target) target) name type
  | .index s array position type => do
      let a ← hoist c (m.under .array) array
      let a ← c.operand (m.under .array) (m.isHotAt .position) a
      return .index s a (← hoist c (m.under .position) position) type
  | .newArray s elemType dims elements isListed => do
      let ds ← hoistList c m .dim 0 (m.isHotFrom .element 0 elements.length) dims
      return .newArray s elemType ds (← hoistList c m .element 0 false elements) isListed
  | .newObject s className args => do
      return .newObject s className (← hoistList c m .arg 0 false args)
  | .unary s op operand trailing => do
      return .unary s op (← hoist c (m.under .operand) operand) trailing
  | .binary s left op right => do
      let l ← hoist c (m.under .left) left
      if op.isShortCircuit then return .binary s l op right
      let l ← c.operand (m.under .left) (m.isHotAt .right) l
      return .binary s l op (← hoist c (m.under .right) right)
  | .assign s target op value => do
      let t ← c.target target
      match op.applied?, m.isHotAt .value && targetMoves c.written t value with
      | some applied, true =>
          let old ← spill t
          return .assign s t .assign (.binary s old applied (← hoist c (m.under .value) value))
      | _, _ => return .assign s t op (← hoist c (m.under .value) value)
  | .switch s selector cases type => do
      return .switch s (← hoist c (m.under .selector) selector) cases type
  | e => throw (.unsupportedNode e.span (Node.expr e).qualifiedTypeName)

/-- Hoist operands from left to right; `after` tells whether a hot one follows the list. -/
def hoistList (c : Setting) (m : Marks) (slot : Nat -> Slot) (i : Nat) (after : Bool) :
    List Expr -> Hoisting (List Expr)
  | [] => return []
  | e :: rest => do
      let v ← hoist c (m.under (slot i)) e
      let v ← c.operand (m.under (slot i)) (m.isHotFrom slot (i + 1) rest.length || after) v
      let vs ← hoistList c m slot (i + 1) after rest
      return v :: vs

end

/-- Statements for one anchor: what goes in front, and the anchor without its sites. -/
structure Hoisted where
  prologue : List Stmt
  continuation : Stmt
  names : Names

def Hoisted.statements (h : Hoisted) : List Stmt :=
  h.prologue ++ [h.continuation]

def hoistAnchor (names : Names) (anchor : Stmt) (exit : Exit) (marks : Marks) :
    Except Defect Hoisted :=
  match anchor.anchorSlot? with
  | none => .error (.unsupportedNode anchor.span (Node.stmt anchor).qualifiedTypeName)
  | some slot =>
      let e := anchor.anchorExpr
      match (hoist ⟨exit, writtenNames e⟩ (marks.under slot) e).run { names } with
      | .ok v d => .ok ⟨d.prologue, anchor.withAnchorExpr v, d.names⟩
      | .error defect _ => .error defect

end Expansion

end EarlyExit
