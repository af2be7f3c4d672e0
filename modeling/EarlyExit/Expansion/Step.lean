import EarlyExit.Expansion.Splice
import EarlyExit.Expansion.Trace

/-!
# One step of an expansion

A step changes the tree in one place: it wraps the body of a lambda, lifts a
conditional, or hoists the sites of one anchor.  It takes the deepest site, since a
scope inside a statement has to be finished before the statement is taken apart, and
of equally deep ones the first.
-/

namespace EarlyExit.Expansion

structure Work where
  names : Names
  root : Node

structure Task where
  site : Site
  chain : List Path
  context : Context

def placements (o : Options) (root : Node) : List (Site × Placement) :=
  (sites o root).map fun s => (s, place root s.path s.span)

/-- The accepted sites; by now all of them have to be. -/
def tasks : List (Site × Placement) -> Except Defect (List Task)
  | [] => .ok []
  | (site, p) :: rest =>
      match p.verdict with
      | .failed d => .error d
      | .rejected .. => .error (.lateRejection site.span)
      | .accepted context =>
          match tasks rest with
          | .ok ts => .ok (⟨site, p.chain, context⟩ :: ts)
          | .error d => .error d

def deepest (t : Task) : List Task -> Task
  | [] => t
  | u :: rest => if t.context.depth < u.context.depth then deepest u rest else deepest t rest

/-- The sites to be hoisted out of an anchor. -/
def group (anchor : Path) (ts : List Task) : List Task :=
  ts.filter fun t => t.context.place == .anchored anchor

structure Change where
  work : Work
  event : Event

def wrapAt (w : Work) (path : Path) : Except Defect Change :=
  match w.root.at? path with
  | some (.expr e) => do
      let root ← putAt w.root path e.span (.expr (← wrapLambda e))
      return ⟨{ w with root }, .wrapped e.span⟩
  | _ => .error (.inconsistentTree .nowhere "place not found")

/-- Split a statement by a conditional. -/
def liftAt (w : Work) (anchor conditional : Path) : Except Defect Change :=
  match w.root.at? anchor, (w.root.at? conditional).bind Conditional.ofNode? with
  | some (.stmt s), some c => do
      let (statements, names) ← lift w.names s c
      return ⟨⟨names, ← splice w.root anchor s statements⟩, .lifted c.span⟩
  | _, _ => .error (.inconsistentTree .nowhere "place not found")

def hoistAt (w : Work) (anchor : Path) (exit : Exit) (ts : List Task) : Except Defect Change :=
  match w.root.at? anchor with
  | some (.stmt s) => do
      let marks := Marks.ofSites anchor (ts.map fun t => (t.site.path, t.site.kind, t.chain))
      let h ← hoistAnchor w.names s exit marks
      return ⟨⟨h.names, ← splice w.root anchor s h.statements⟩,
        .hoisted s.span s.anchorName ts.length h.prologue.length⟩
  | _ => .error (.inconsistentTree .nowhere "place not found")

/-- One step, or nothing when no site is left. -/
def step (o : Options) (w : Work) : Except Defect (Option Change) := do
  match ← tasks (placements o w.root) with
  | [] => return none
  | first :: rest =>
      let next := (deepest first rest).context
      match next.place with
      | .wrapped lambda => some <$> wrapAt w lambda
      | .lifted anchor conditional => some <$> liftAt w anchor conditional
      | .anchored anchor => some <$> hoistAt w anchor next.exit (group anchor (first :: rest))

end EarlyExit.Expansion
