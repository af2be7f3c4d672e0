import EarlyExit.Batch
import EarlyExit.CommandLine.Argument
import EarlyExit.CommandLine.Command
import EarlyExit.CommandLine.Release
import EarlyExit.Document.Writer
import EarlyExit.Eval.Host
import EarlyExit.Eval.Outcome
import EarlyExit.Settings.Load
import EarlyExit.Syntax.Printer

/-!
# Running a command

A command as a function from its surroundings and arguments to what it prints, the
files it writes and how it fails.
-/

namespace EarlyExit.CommandLine

structure Surroundings where
  files : Files := {}
  env : String -> Option String := fun _ => none
  defaults : Settings := {}
  release : Release := {}
  /-- Whether output goes to a terminal. -/
  terminal : Bool := false

inductive Failure
  | usage (message : String)
  | settings (fault : Settings.LoadFault)
  | document (trouble : Batch.Trouble)
  | argument (fault : ArgumentFault)
  | rejected (ds : List Diagnostic)
  | message (text : String)
  /-- What went wrong has been printed. -/
  | reported

def Failure.text : Failure -> String
  | usage m | message m => m
  | settings fault => fault.message
  | document t => t.message
  | argument fault => fault.message
  | rejected ds => Diagnostic.lines ds
  | reported => "unwrapc: failed"

inductive Piece
  | text (s : String)
  | document (d : Data)

structure Output where
  stdout : List Piece := []
  stderr : String := ""
  written : List (String × Data) := []
  failure : Option Failure := none

namespace Output

def failing (f : Failure) : Output where
  failure := some f

def printing (s : String) : Output where
  stdout := if s.isEmpty then [] else [.text s]

/-- The output of one part after another, which ends at the first failure. -/
def andThen (o p : Output) : Output :=
  match o.failure with
  | some _ => o
  | none => ⟨o.stdout ++ p.stdout, o.stderr ++ p.stderr, o.written ++ p.written, p.failure⟩

/-- What each written file holds in the end: of two writes to a path the last counts. -/
def files (o : Output) : List (String × Data) :=
  o.written.foldl (fun done x => done.filter (fun y => y.1 != x.1) ++ [x]) []

end Output

/-! ## Settings of a run -/

/-- A run that is ready to start. -/
structure Session where
  settings : Settings
  registry : Registry
  color : Bool

def withFlags (p : Parsed) (s : Settings) : Settings :=
  { s with
    logLevel := p.text "log-level" s.logLevel
    color := p.text "color" s.color
    workers := match (p.value? "workers").map Text.Numeral.whole with
      | some (.ok n) => n
      | _ => s.workers }

def openSession (env : Surroundings) (p : Parsed) : Except Settings.LoadFault Session := do
  let s := withFlags p (← Settings.load env.defaults env.files env.env (p.text "config" ""))
  match s.check with
  | .error f => throw (.fault f)
  | .ok r =>
      return ⟨s, r, Settings.useColor s.color (env.env "NO_COLOR").isSome env.terminal⟩

def Session.options (s : Session) : Expansion.Options :=
  s.settings.options s.registry

/-! ## Batches of documents -/

/-- The documents that paths name; a folder names those directly in it, by name. -/
def jobsAt (fs : Files) (path : String) : Except Failure (List Batch.Job) :=
  match fs.find path with
  | .error t => .error (.message ("stat " ++ path ++ ": " ++ t.text))
  | .ok (_, .file _) => .ok [{ path }]
  | .ok (place, .folder) =>
      let names := ((fs.filesIn place).filter Files.isTreeFile).map (Files.join path)
      .ok ((names.mergeSort fun a b => decide (a ≤ b)).map fun path => { path })

def collectJobs (fs : Files) (paths : List String) : Except Failure (List Batch.Job) := do
  let jobs := (← paths.mapM (jobsAt fs)).flatten
  if jobs.isEmpty then
    throw (.message ("no tree documents in [" ++ " ".intercalate paths ++ "]"))
  return jobs

def failuresText (color : Bool) (os : List Batch.Outcome) : String :=
  let one (o : Batch.Outcome) : String :=
    match o.result with
    | .error t => o.name ++ ": " ++ t.message ++ "\n"
    | .ok r => String.join (r.diagnostics.map (Diagnostic.line color))
  let count := (os.flatMap fun o =>
    match o.result with
    | .error _ => []
    | .ok r => r.diagnostics).length
  String.join (os.map one) ++ Diagnostic.summary count

def batchFailure? (os : List Batch.Outcome) : Option Failure :=
  if os.any Batch.Outcome.failed then some .reported else none

def check (env : Surroundings) (s : Session) (paths : List String) : Output :=
  match collectJobs env.files paths with
  | .error f => .failing f
  | .ok jobs =>
      let os := Batch.run env.files s.options jobs
      { Output.printing (failuresText s.color os) with failure := batchFailure? os }

/-! ## Expanded documents -/

/-- Where the result for a document is written: its own name in the output folder. -/
def outputPath (folder name : String) : String :=
  Files.join folder (baseName name)

def writeUnit (fs : Files) (folder name : String) (u : CompilationUnit) : Output :=
  let path := outputPath folder name
  match Document.write u with
  | .error e => .failing (.message e.message)
  | .ok d =>
      match fs.find path with
      | .ok (_, .folder) =>
          .failing (.message ("open " ++ path ++ ": " ++ Files.Trouble.isFolder.text))
      | _ => { written := [(path, d)] }

def showUnit (format name : String) (u : CompilationUnit) : Output :=
  if format = "yaml" then
    match Document.write u with
    | .error e => .failing (.message e.message)
    | .ok d => { stdout := [.document d] }
  else .printing ("// " ++ name ++ "\n" ++ (Node.unit u).print ++ "\n")

def emit (fs : Files) (folder format : String) (os : List Batch.Outcome) : Output :=
  match if folder.isEmpty then .ok fs else fs.makeFolder folder with
  | .error m => .failing (.message m)
  | .ok fs =>
      os.foldl (fun done o =>
        match o.unit? with
        | none => done
        | some u => done.andThen
            (if folder.isEmpty then showUnit format o.name u else writeUnit fs folder o.name u)) {}

def expand (env : Surroundings) (s : Session) (p : Parsed) : Output :=
  let format := p.text "format" "text"
  if format ≠ "text" ∧ format ≠ "yaml" then
    .failing (.message ("unknown format " ++ Text.quote format))
  else
    match collectJobs env.files p.args with
    | .error f => .failing f
    | .ok jobs =>
        let os := Batch.run env.files s.options jobs
        (emit env.files (p.text "out" "") format os).andThen
          { stderr := failuresText s.color os, failure := batchFailure? os }

/-- Watching needs its paths to exist; it ends when it is told to, and then well. -/
def watch (env : Surroundings) (paths : List String) : Output :=
  match paths.findSome? fun p => match env.files.find (Files.clean p) with
      | .error t => some t
      | .ok _ => none with
  | some t => .failing (.message t.text)
  | none => {}

/-! ## Runs of a method -/

def outcomeLine (label : String) (o : Eval.Outcome) : Output :=
  .printing ((if label.isEmpty then "" else label ++ ": ") ++ o.text ++ "\n")

def call (m : Eval.Machine) (method : String) (args : List Value) : Except Failure Eval.Outcome :=
  match Eval.outcome m Eval.plenty {} method args with
  | .ok o => .ok o
  | .error e => .error (.message e.message)

def expandUnit (s : Session) (u : CompilationUnit) : Except Failure CompilationUnit :=
  match Expansion.expand s.options u with
  | .error d => .error (.document (.defect d))
  | .ok r =>
      match r.result with
      | .ok v => .ok v
      | .error ds => .error (.rejected ds)

/-- Run a method as it stands, expanded, or both ways to compare. -/
def runMethod (s : Session) (p : Parsed) (u : CompilationUnit) (method : String)
    (args : List Value) : Output :=
  let machine : Eval.Machine :=
    { unit := u, registry := s.registry, sentinel := s.settings.sentinel
      assertions := s.settings.assertions
      hosts := Eval.Host.table ((p.texts "host").map fun n => (n, Eval.Host.first)) }
  let native := call { machine with native := true } method args
  let expanded (_ : Unit) : Except Failure Eval.Outcome := do
    call { machine with unit := ← expandUnit s u } method args
  if p.isOn "compare" then
    match native with
    | .error f => .failing f
    | .ok before =>
        (outcomeLine "native" before).andThen <|
          match expanded () with
          | .error f => .failing f
          | .ok after =>
              (outcomeLine "rewritten" after).andThen <|
                if before.equal after then {} else .failing (.message "outcomes differ")
  else
    match if p.isOn "native" then native else expanded () with
    | .error f => .failing f
    | .ok o => outcomeLine (if p.isOn "native" then "native" else "") o

def run (env : Surroundings) (s : Session) (p : Parsed) : Output :=
  match p.args with
  | path :: method :: texts =>
      match Batch.load env.files path with
      | .error t => .failing (.document t)
      | .ok u =>
          match texts.mapM (argument s.registry) with
          | .error fault => .failing (.argument fault)
          | .ok args => runMethod s p u method args
  | _ => {}

/-! ## The whole command line -/

def usage : String :=
  "Usage:\n  unwrapc check PATH...\n  unwrapc rewrite [-o DIR] [-f text|yaml] PATH...\n" ++
  "  unwrapc watch [-o DIR] PATH...\n  unwrapc run [--native] [--compare] [--host NAMES] " ++
  "FILE METHOD [ARG...]\n  unwrapc version [--json]\n"

def runCommand (env : Surroundings) (c : Command) (p : Parsed) : Output :=
  match c with
  | .version =>
      .printing (if p.isOn "json" then env.release.record "unwrapc" else env.release.text "unwrapc")
  | .completion | .help => .printing usage
  | c =>
      match openSession env p with
      | .error fault => .failing (.settings fault)
      | .ok s =>
          match c with
          | .check => check env s p.args
          | .expand => expand env s p
          | .watch => watch env p.args
          | _ => run env s p

def execute (env : Surroundings) (args : List String) : Output :=
  match locate args with
  | .unknown typed => .failing (.usage (unknownCommand typed))
  | .root args =>
      match parse (Command.sharedFlags ++ [Command.helpFlag]) args with
      | .error e => .failing (.usage e.message)
      | .ok _ => .printing usage
  | .command c args =>
      match parse c.flags args with
      | .error e => .failing (.usage e.message)
      | .ok p =>
          if p.isOn "help" then .printing usage
          else
            match c.argsFault? p.args with
            | some m => .failing (.usage m)
            | none => runCommand env c p

end EarlyExit.CommandLine
