import EarlyExit.Syntax.Node

/-!
# Replacing parts of a tree

`Node.set?` puts a node into a slot of a given parent and refuses a node that the
slot cannot hold: an expression where a statement belongs, or anything but a
block as the body of a method, a `try`, a catch clause or a `synchronized`.
`Node.put?` does so at the end of a path.
-/

namespace EarlyExit

namespace Node

/-- A list with one entry replaced, if it has that entry. -/
def setEntry (l : List α) (i : Nat) (a : α) : Option (List α) :=
  if i < l.length then some (l.set i a) else none

def setExprSlot : Expr -> Slot -> Node -> Option Expr
  | .call s _ n as t, .receiver, .expr e => some (.call s e n as t)
  | .call s r n as t, .arg i, .expr e => (setEntry as i e).map fun as => .call s r n as t
  | .field s _ n t, .target, .expr e => some (.field s e n t)
  | .assign s _ op v, .target, .expr e => some (.assign s e op v)
  | .assign s t op _, .value, .expr e => some (.assign s t op e)
  | .binary s _ op r, .left, .expr e => some (.binary s e op r)
  | .binary s l op _, .right, .expr e => some (.binary s l op e)
  | .unary s op _ p, .operand, .expr e => some (.unary s op e p)
  | .conditional s _ a b t, .test, .expr e => some (.conditional s e a b t)
  | .conditional s c _ b t, .onTrue, .expr e => some (.conditional s c e b t)
  | .conditional s c a _ t, .onFalse, .expr e => some (.conditional s c a e t)
  | .index s _ p t, .array, .expr e => some (.index s e p t)
  | .index s a _ t, .position, .expr e => some (.index s a e t)
  | .newArray s t ds es l, .dim i, .expr e =>
      (setEntry ds i e).map fun ds => .newArray s t ds es l
  | .newArray s t ds es l, .element i, .expr e =>
      (setEntry es i e).map fun es => .newArray s t ds es l
  | .newObject s c as, .arg i, .expr e => (setEntry as i e).map fun as => .newObject s c as
  | .lambda s ps b, .param i, .param p => (setEntry ps i p).map fun ps => .lambda s ps b
  | .lambda s ps _, .body, .expr e => some (.lambda s ps (.value e))
  | .lambda s ps _, .body, .stmt (.block b) => some (.lambda s ps (.block b))
  | .switch s _ cs t, .selector, .expr e => some (.switch s e cs t)
  | .switch s sel cs t, .arm i, .arm c => (setEntry cs i c).map fun cs => .switch s sel cs t
  | .template s p fs vs, .element i, .expr e =>
      (setEntry vs i e).map fun vs => .template s p fs vs
  | _, _, _ => none

def setStmtSlot : Stmt -> Slot -> Node -> Option Stmt
  | .block (.mk s ss), .stmt i, .stmt t => (setEntry ss i t).map fun ss => .block (.mk s ss)
  | .expr s _, .value, .expr e => some (.expr s e)
  | .var s n t _, .value, .expr e => some (.var s n t e)
  | .ret s _, .value, .expr e => some (.ret s e)
  | .throw s _, .value, .expr e => some (.throw s e)
  | .yield s _ i, .value, .expr e => some (.yield s e i)
  | .branch s _ a b, .test, .expr e => some (.branch s e a b)
  | .branch s c _ b, .onTrue, .stmt t => some (.branch s c t b)
  | .branch s c a _, .onFalse, .stmt t => some (.branch s c a t)
  | .forLoop s is c us b, .init i, .stmt t =>
      (setEntry is i t).map fun is => .forLoop s is c us b
  | .forLoop s is _ us b, .test, .expr e => some (.forLoop s is e us b)
  | .forLoop s is c us b, .update i, .expr e =>
      (setEntry us i e).map fun us => .forLoop s is c us b
  | .forLoop s is c us _, .body, .stmt t => some (.forLoop s is c us t)
  | .forEach s n t _ b, .iterable, .expr e => some (.forEach s n t e b)
  | .forEach s n t i _, .body, .stmt b => some (.forEach s n t i b)
  | .whileLoop s _ b, .test, .expr e => some (.whileLoop s e b)
  | .whileLoop s c _, .body, .stmt t => some (.whileLoop s c t)
  | .doWhile s _ c, .body, .stmt t => some (.doWhile s t c)
  | .doWhile s b _, .test, .expr e => some (.doWhile s b e)
  | .switch s _ cs, .selector, .expr e => some (.switch s e cs)
  | .switch s sel cs, .arm i, .arm c => (setEntry cs i c).map fun cs => .switch s sel cs
  | .tryCatch s rs b cs f, .resource i, .stmt t =>
      (setEntry rs i t).map fun rs => .tryCatch s rs b cs f
  | .tryCatch s rs _ cs f, .body, .stmt (.block b) => some (.tryCatch s rs b cs f)
  | .tryCatch s rs b cs f, .clause i, .clause c =>
      (setEntry cs i c).map fun cs => .tryCatch s rs b cs f
  | .tryCatch s rs b cs _, .cleanup, .stmt (.block f) => some (.tryCatch s rs b cs (some f))
  | .sync s _ b, .monitor, .expr e => some (.sync s e b)
  | .sync s m _, .body, .stmt (.block b) => some (.sync s m b)
  | .labeled s l _, .body, .stmt t => some (.labeled s l t)
  | .assert s _ m, .test, .expr e => some (.assert s e m)
  | .assert s c _, .message, .expr e => some (.assert s c e)
  | _, _, _ => none

/-- The node with another child in a slot, if the slot can hold it. -/
def set? : Node -> Slot -> Node -> Option Node
  | unit u, .method i, method m =>
      (setEntry u.methods i m).map fun ms => unit { u with methods := ms }
  | method m, .param i, param p =>
      (setEntry m.params i p).map fun ps => method { m with params := ps }
  | method m, .body, stmt (.block b) => some (method { m with body := some b })
  | arm (.mk s ls a b), .label i, expr e =>
      (setEntry ls i e).map fun ls => arm (.mk s ls a b)
  | arm (.mk s ls a b), .stmt i, stmt t => (setEntry b i t).map fun b => arm (.mk s ls a b)
  | clause (.mk s _ b), .param 0, param p => some (clause (.mk s (some p) b))
  | clause (.mk s p _), .body, stmt (.block b) => some (clause (.mk s p b))
  | stmt s, slot, n => (setStmtSlot s slot n).map .stmt
  | expr e, slot, n => (setExprSlot e slot n).map .expr
  | _, _, _ => none

/-! ## Places -/

def at? (n : Node) : Path -> Option Node
  | [] => some n
  | slot :: rest => (n.get? slot).bind fun c => c.at? rest

/-- The tree with another node at the end of a path, if its slot can hold it. -/
def put? (n : Node) (new : Node) : Path -> Option Node
  | [] => some new
  | slot :: rest =>
      (n.get? slot).bind fun c => (c.put? new rest).bind fun c => n.set? slot c

def isOperand : Node -> Bool
  | stmt _ | expr _ => true
  | _ => false

/-- Why a child was not replaced: what was to be replaced, under what, by what. -/
structure Misfit where
  old : Node
  parent : Node
  new : Node

def Misfit.message (m : Misfit) : String :=
  m.old.qualifiedTypeName ++ " is not a child of " ++ m.parent.qualifiedTypeName ++
    " or cannot hold " ++ m.new.qualifiedTypeName

def Misfit.text (m : Misfit) : String :=
  "transformation error at " ++ m.old.span.text ++ ": " ++ m.message

/--
Replace the statement or expression in a slot.  Parameters, methods, arms and
catch clauses are not replaced this way.
-/
def replaceChild (parent : Node) (slot : Slot) (new : Node) : Option Node :=
  match parent.get? slot with
  | some old => if old.isOperand then parent.set? slot new else none
  | none => none

end Node

end EarlyExit
