import EarlyExit.Document.Reader
import EarlyExit.Expansion.Expand
import EarlyExit.Files

/-!
# Batches

Many units expanded independently: one that is rejected or cannot be read does not
stop the others, and the outcomes stand in the order of the jobs.
-/

namespace EarlyExit

namespace Batch

/-- A unit to expand; without one, the document at the path is read. -/
structure Job where
  path : String := ""
  unit : Option CompilationUnit := none

def Job.name (j : Job) : String :=
  if !j.path.isEmpty then j.path
  else
    match j.unit with
    | some u => u.file
    | none => "<unit>"

inductive Trouble
  | unreadable (path : String) (fault : Files.ReadFault)
  | document (name : String) (fault : Document.Fault)
  | defect (d : Defect)

def Trouble.message : Trouble -> String
  | unreadable path fault => "reading tree " ++ path ++ ": " ++ fault.message path
  | document name fault => fault.message name
  | defect d => d.text

structure Outcome where
  name : String
  result : Except Trouble Expansion.Report

namespace Outcome

def failure? (o : Outcome) : Option String :=
  match o.result with
  | .error t => some t.message
  | .ok r =>
      match r.result with
      | .ok _ => none
      | .error ds => some (Diagnostic.lines ds)

def failed (o : Outcome) : Bool :=
  o.failure?.isSome

def unit? (o : Outcome) : Option CompilationUnit :=
  match o.result with
  | .ok r => r.unit?
  | .error _ => none

end Outcome

def load (fs : Files) (path : String) : Except Trouble CompilationUnit :=
  match fs.content path with
  | .error fault => .error (.unreadable path fault)
  | .ok none => .error (.document path .shape)
  | .ok (some d) =>
      match Document.read path d with
      | .ok u => .ok u
      | .error fault => .error (.document path fault)

def runJob (fs : Files) (o : Expansion.Options) (j : Job) : Outcome where
  name := j.name
  result := do
    let u ← match j.unit with
      | some u => pure u
      | none => load fs j.path
    match Expansion.expand o u with
    | .ok r => return r
    | .error d => throw (.defect d)

def run (fs : Files) (o : Expansion.Options) (js : List Job) : List Outcome :=
  js.map (runJob fs o)

def failedCount (os : List Outcome) : Nat :=
  (os.filter Outcome.failed).length

def failureText? (os : List Outcome) : Option String :=
  let messages := os.filterMap fun o => o.failure?.map fun m => o.name ++ ": " ++ m
  if messages.isEmpty then none else some (Document.bulletList messages)

end Batch

end EarlyExit
