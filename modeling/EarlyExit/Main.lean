import EarlyExit.CommandLine.Execute
import EarlyExit.Data.Reader
import EarlyExit.Data.Writer

/-!
# The program

The outer layer of the command line.  It fetches the files and variables that a
command may look at, runs the command, and carries out what comes of it.  Documents
are read and written as JSON.
-/

namespace EarlyExit.CommandLine

/-- What a path stands for: a file, or a folder with the files directly in it. -/
def fetch (path : String) : IO (List (String × Entry)) := do
  let file (path : String) : IO (List (String × Entry)) :=
    return [(path, .file (Data.parse? (← IO.FS.readFile path)))]
  try file path
  catch _ =>
    try
      let entries ← ((← IO.currentDir).join path).readDir
      let files ← entries.toList.mapM fun e => do
        try file (Files.join path e.fileName)
        catch _ => return [(Files.join path e.fileName, .folder)]
      return (path, .folder) :: files.flatten
    catch _ => return []

/-- The surroundings that arguments can point at. -/
def surroundings (args : List String) : IO Surroundings := do
  let named := args ++ args.filterMap fun a => (cut '=' a).2
  let entries ← (named ++ Settings.defaultNames).mapM fetch
  let env ← ("NO_COLOR" :: Settings.variableNames).filterMapM fun name => do
    return (← IO.getEnv name).map fun v => (name, v)
  return {
    files := .ofList entries.flatten
    env := fun name => env.lookup name
    terminal := ← (← IO.getStdout).isTty }

def Piece.render : Piece -> String
  | text s => s
  | document d => d.render ++ "\n"

/-- Print and write what a command gives; the exit code tells whether it failed. -/
def Output.carryOut (o : Output) : IO UInt32 := do
  for piece in o.stdout do IO.print piece.render
  for (path, d) in o.files do
    IO.FS.createDirAll (Files.join path "..")
    IO.FS.writeFile path (d.render ++ "\n")
  IO.eprint o.stderr
  match o.failure with
  | none => return 0
  | some .reported => return 1
  | some f =>
      IO.eprintln f.text
      return 1

end EarlyExit.CommandLine

def main (args : List String) : IO UInt32 := do
  (EarlyExit.CommandLine.execute (← EarlyExit.CommandLine.surroundings args) args).carryOut
