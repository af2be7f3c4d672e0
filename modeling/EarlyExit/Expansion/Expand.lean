import EarlyExit.Diagnostic
import EarlyExit.Expansion.Step

/-!
# Expanding a unit

Every site is placed before anything changes.  If one is rejected, the result is a
diagnostic for each rejected site and no tree; else steps are taken until no site is
left.
-/

namespace EarlyExit.Expansion

structure Report where
  /-- The expanded unit, or why there is none. -/
  result : Except (List Diagnostic) CompilationUnit
  /-- How many sites there were. -/
  sites : Nat
  /-- How many steps were taken. -/
  steps : Nat := 0
  events : List Event

namespace Report

def diagnostics (r : Report) : List Diagnostic :=
  match r.result with
  | .ok _ => []
  | .error ds => ds

def unit? (r : Report) : Option CompilationUnit :=
  match r.result with
  | .ok u => some u
  | .error _ => none

end Report

def firstDefect? (ps : List (Site × Placement)) : Option Defect :=
  ps.findSome? fun x =>
    match x.2.verdict with
    | .failed d => some d
    | _ => none

/-- The diagnostics for rejected sites, in source order. -/
def rejections (ps : List (Site × Placement)) : List Diagnostic :=
  Diagnostic.sort (ps.filterMap fun x =>
    match x.2.verdict with
    | .rejected .. => some (.unsupported x.1.span)
    | _ => none)

def placementEvent? (x : Site × Placement) : Option Event :=
  match x.2.verdict with
  | .accepted c => some (.placed x.1.span c.exit c.depth)
  | .rejected reason _ => some (.rejected x.1.span reason)
  | .failed _ => none

structure Run where
  root : Node
  steps : Nat
  events : List Event

/-- Steps until no site is left, at most `left` of them. -/
def run (o : Options) (limit : Nat) : Nat -> Work -> Except Defect Run
  | left, w => do
      match ← step o w with
      | none => return ⟨w.root, 0, []⟩
      | some change =>
          match left with
          | 0 => throw (.diverged .nowhere (limit + 1))
          | left + 1 =>
              let rest ← run o limit left change.work
              return { rest with steps := rest.steps + 1, events := change.event :: rest.events }

def stepLimit (o : Options) (sites : Nat) : Nat :=
  (o.maxSteps * (Int64.ofNat sites + 1)).toInt.toNat

def expand (o : Options) (u : CompilationUnit) : Except Defect Report := do
  let ps := placements o (.unit u)
  if let some d := firstDefect? ps then throw d
  let count := ps.length
  let seen := .found count :: ps.filterMap placementEvent?
  let rejected := rejections ps
  if !rejected.isEmpty then
    return { result := .error rejected, sites := count, events := seen }
  let limit := stepLimit o count
  let r ← run o limit limit ⟨.ofTree o.stem (.unit u), .unit u⟩
  match r.root with
  | .unit v =>
      return { result := .ok v, sites := count, steps := r.steps
               events := seen ++ r.events ++ [.finished count r.steps] }
  | _ => throw (.inconsistentTree .nowhere "place not found")

def noUnit : Defect :=
  .inconsistentTree .nowhere "nil compilation unit"

end EarlyExit.Expansion
