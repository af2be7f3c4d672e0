import EarlyExit.Syntax.Node

/-!
# Spines

The way from a place in a tree up to its root: every node above the place, each
with the slot through which the place is reached.  What surrounds a node is decided
by walking its spine.
-/

namespace EarlyExit

/-- A node above a place, with the slot that leads down to the place. -/
structure Above where
  path : Path
  node : Node
  slot : Slot

namespace Node

/-- The nodes above a place, the nearest first. -/
def spine (n : Node) : Path -> List Above
  | [] => []
  | slot :: rest =>
      match n.get? slot with
      | none => []
      | some c => (c.spine rest).map (fun a => { a with path := slot :: a.path }) ++ [⟨[], n, slot⟩]

end Node

namespace Path

/-- The rest of a path that passes through another. -/
def below? (p : Path) : Path -> Option Path
  | [] => match p with
      | [] => some []
      | _ :: _ => none
  | t :: rest =>
      match p with
      | [] => some (t :: rest)
      | s :: p => if s = t then below? p rest else none

end Path

namespace Above

def isConditional (a : Above) : Bool :=
  match a.node with
  | .expr (.conditional ..) => true
  | _ => false

def isSwitchExpr (a : Above) : Bool :=
  match a.node with
  | .expr (.switch ..) => true
  | _ => false

end Above

end EarlyExit
