import EarlyExit.Syntax.Node

/-!
# Numbering a tree

The nodes of a tree in the order they are visited, parents before children, each
with its path.  The number of a node is its place in that list.
-/

namespace EarlyExit

namespace Node

/-- Every node of the tree with its path, parents first. -/
def walk (n : Node) : List (Path × Node) :=
  ([], n) :: n.slots.attach.flatMap fun ⟨x, _h⟩ =>
    (walk x.2).map fun y => (x.1 :: y.1, y.2)
termination_by sizeOf n
decreasing_by exact sizeOf_lt_of_mem_slots _h

def nodes (n : Node) : List Node :=
  n.walk.map (·.2)

theorem walk_eq (n : Node) :
    n.walk = ([], n) :: n.slots.flatMap fun x => x.2.walk.map fun y => (x.1 :: y.1, y.2) := by
  rw [walk]
  conv => rhs; rw [← List.attach_map_subtype_val n.slots, List.flatMap_map]

/-- To prove a statement of all nodes, prove it of each from its children. -/
theorem childInduction {motive : Node -> Prop}
    (step : ∀ n : Node, (∀ x ∈ n.slots, motive x.2) -> motive n) (n : Node) : motive n :=
  step n fun x _h => childInduction step x.2
termination_by sizeOf n
decreasing_by exact sizeOf_lt_of_mem_slots _h

end Node

/-- Every proper beginning of a path, the longest first. -/
def Path.above (p : Path) : List Path :=
  match p with
  | [] => []
  | slot :: rest => (Path.above rest).map (slot :: ·) ++ [[]]

/--
A tree with the parent and the number of every place in it, the latest entries first.  The
index is a table beside the tree: it is made for one tree and does not follow its changes.
-/
structure Index where
  root : Node
  parents : List (Path × Option Path) := []
  numbers : List (Path × Nat) := []
  /-- A parent is nearer to the root, so going up comes to an end. -/
  nearer : ∀ p q, (p, some q) ∈ parents -> q.length < p.length := by simp

namespace Index

/-- Enter a place with its parent; its number is how many places have been entered before. -/
def enter (idx : Index) (p : Path) (parent : Option Path)
    (h : ∀ q, parent = some q -> q.length < p.length) : Index where
  root := idx.root
  parents := (p, parent) :: idx.parents
  numbers := (p, idx.numbers.length) :: idx.numbers
  nearer p' q hq := by
    rcases List.mem_cons.1 hq with heq | hq
    · obtain ⟨rfl, hparent⟩ := Prod.mk.inj heq
      exact h q hparent.symm
    · exact idx.nearer p' q hq

/-- Enter a node and then, child by child, all that is below it. -/
def build (n : Node) (idx : Index) (p : Path) (parent : Option Path)
    (h : ∀ q, parent = some q -> q.length < p.length) : Index :=
  n.slots.attach.foldl
    (fun idx ⟨x, _h⟩ => build x.2 idx (p ++ [x.1]) (some p) fun q hq => by simp_all)
    (idx.enter p parent h)
termination_by sizeOf n
decreasing_by exact Node.sizeOf_lt_of_mem_slots _h

def ofNode (root : Node) : Index :=
  build root { root } [] none nofun

/-- Every place with its node, in the order of a visit. -/
def places (idx : Index) : List (Path × Node) :=
  idx.root.walk

def place? (idx : Index) (number : Nat) : Option (Path × Node) :=
  idx.places[number]?

/-- The number of the node at a path. -/
def order? (idx : Index) (p : Path) : Option Nat :=
  idx.numbers.lookup p

def contains (idx : Index) (p : Path) : Bool :=
  (idx.parents.lookup p).isSome

/-- The path of the node above a place; the root and places that are not in the tree have none. -/
def parent? (idx : Index) (p : Path) : Option Path :=
  (idx.parents.lookup p).join

theorem length_parent? {idx : Index} {p q : Path} (h : idx.parent? p = some q) :
    q.length < p.length := by
  obtain ⟨l, r, hsplit, -⟩ := List.lookup_eq_some_iff.1 (Option.join_eq_some_iff.1 h)
  exact idx.nearer p q (by simp [hsplit])

def ancestors (idx : Index) (p : Path) : List Path :=
  match _h : idx.parent? p with
  | none => []
  | some q => q :: idx.ancestors q
termination_by p.length
decreasing_by exact length_parent? _h

def isAncestor (idx : Index) (a d : Path) : Bool :=
  match _h : idx.parent? d with
  | none => false
  | some q => q == a || idx.isAncestor a q
termination_by d.length
decreasing_by exact length_parent? _h

end Index

end EarlyExit
