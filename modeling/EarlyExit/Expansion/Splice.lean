import EarlyExit.Expansion.Lift
import EarlyExit.Syntax.Edit

/-!
# Splicing

Statements put in the place of one statement.  A list of statements takes them as
they are; a place for a single statement, and the body of an arrow arm, takes a
block of them.
-/

namespace EarlyExit.Expansion

/-- A list with one entry replaced by several. -/
def spliceEntry (l : List α) (i : Nat) (new : List α) : List α :=
  l.take i ++ new ++ l.drop (i + 1)

/-- The single statement, or else a block of all of them. -/
def asOne (span : Span) : List Stmt -> Stmt
  | [s] => s
  | ss => .block (.mk span ss)

def spliceInto (parent : Node) (slot : Slot) (anchor : Stmt) (new : List Stmt) :
    Except Defect Node :=
  match parent, slot with
  | .stmt (.block (.mk s ss)), .stmt i =>
      .ok (.stmt (.block (.mk s (spliceEntry ss i (new.map Stmt.explicit)))))
  | .arm (.mk s labels true body), .stmt _ =>
      if body.length = 1 then
        .ok (.arm (.mk s labels true [.block (.mk anchor.span (new.map Stmt.explicit))]))
      else
        .error (.inconsistentTree anchor.span "anchor is not the body of its case rule")
  | .arm (.mk s labels false body), .stmt i =>
      let new := if new.length = 1 then new else new.map Stmt.explicit
      .ok (.arm (.mk s labels false (spliceEntry body i new)))
  | parent, slot =>
      let new := if new.length = 1 then new else new.map Stmt.explicit
      let one : Node := .stmt (asOne anchor.span new)
      match parent.replaceChild slot one with
      | some n => .ok n
      | none =>
          .error (.inconsistentTree anchor.span (Node.Misfit.text ⟨.stmt anchor, parent, one⟩))

/-- The tree with another node at a place. -/
def putAt (root : Node) (path : Path) (span : Span) (new : Node) : Except Defect Node :=
  match root.put? new path with
  | some n => .ok n
  | none => .error (.inconsistentTree span "place not found")

/-- The tree with statements in place of the one at a path. -/
def splice (root : Node) (path : Path) (anchor : Stmt) (new : List Stmt) : Except Defect Node :=
  match path.getLast?, root.at? path.dropLast with
  | some slot, some parent =>
      match spliceInto parent slot anchor new with
      | .ok changed => putAt root path.dropLast anchor.span changed
      | .error d => .error d
  | _, _ => .error (.inconsistentTree anchor.span "place not found")

end EarlyExit.Expansion
