import EarlyExit.Syntax.Index

/-!
# Fresh names

Temporaries are a stem with a number behind it.  The numbers are handed out in
order, without those that would make a name of the tree.
-/

namespace EarlyExit.Expansion

/-- The name that a node uses or introduces. -/
def usedName? : Node -> Option String
  | .expr (.ident _ name _) | .stmt (.var _ name _ _) | .stmt (.forEach _ name _ _ _)
  | .stmt (.labeled _ name _) => some name
  | .param p => some p.name
  | _ => none

/-- Every name that a tree uses or introduces. -/
def usedNames (root : Node) : List String :=
  root.nodes.filterMap usedName?

structure Names where
  stem : String
  /-- Names that are not handed out. -/
  taken : List String
  /-- The least number not tried yet. -/
  next : Nat := 0

namespace Names

def ofTree (stem : String) (root : Node) : Names where
  stem := stem
  taken := usedNames root

def name (ns : Names) (n : Nat) : String :=
  ns.stem ++ toString n

/-- The first number from `n` on whose name is free, among `fuel` of them. -/
def firstFree (ns : Names) : Nat -> Nat -> Nat
  | 0, n => n
  | fuel + 1, n => if ns.taken.contains (ns.name n) then ns.firstFree fuel (n + 1) else n

/-- A new name.  More numbers are tried than names are taken, so one of them is free. -/
def fresh (ns : Names) : String × Names :=
  let n := ns.firstFree ns.taken.length ns.next
  (ns.name n, { ns with next := n + 1 })

def several (ns : Names) : Nat -> List String
  | 0 => []
  | k + 1 => ns.fresh.1 :: ns.fresh.2.several k

end Names

end EarlyExit.Expansion
