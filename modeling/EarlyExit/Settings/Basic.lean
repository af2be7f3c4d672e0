import EarlyExit.Defect
import EarlyExit.Expansion.Site
import EarlyExit.Settings.LogLevel
import EarlyExit.Text.Quoted

/-!
# Settings

Everything a run can be told, and which settings a run can be made with.  The last
check keeps the sentinel apart from the members of the container kinds: code that an
expansion puts in is never a site itself.
-/

namespace EarlyExit

structure Settings where
  sentinel : String := "unwrap"
  /-- What the names of temporaries start with. -/
  stem : String := "$unwrap"
  builtinKinds : Bool := true
  kinds : List Kind := []
  logLevel : String := "warn"
  color : String := "auto"
  /-- How many units may be worked on at once. -/
  workers : Int := 1
  assertions : Bool := false

namespace Settings

/-- A letter, underscore or dollar sign, then those and digits. -/
def isIdentifier (s : String) : Bool :=
  let starts (c : Char) : Bool := c.isAlpha || c == '_' || c == '$'
  match s.toList with
  | [] => false
  | c :: rest => starts c && rest.all fun c => starts c || c.isDigit

def registry (s : Settings) : Except Registry.Fault Registry :=
  Registry.configured s.builtinKinds s.kinds

inductive Fault
  | sentinel (text : String)
  | stem (text : String)
  | workers (count : Int)
  | color (text : String)
  | logLevel (fault : LogLevel.Fault)
  | registry (fault : Registry.Fault)
  | sentinelIsMember (sentinel kind : String)
deriving DecidableEq, Repr

def Fault.message : Fault -> String
  | sentinel s => "sentinel " ++ Text.quote s ++ " is not an identifier"
  | stem s => "temp_prefix " ++ Text.quote s ++ " is not an identifier"
  | workers n => "workers must be positive, got " ++ toString n
  | color s => "color must be auto, always or never, got " ++ Text.quote s
  | logLevel fault => "log_level: " ++ fault.message
  | registry fault => fault.message
  | sentinelIsMember s kind =>
      "sentinel " ++ Text.quote s ++ " is a member of container kind " ++ kind

def Fault.defect (fault : Fault) : Defect :=
  .invalidConfig fault.message

/-- The members of a kind that an expansion calls. -/
def calledMembers (k : Kind) : List String :=
  [k.predicate, k.accessor, k.alternateAccessor]

def colorModes : List String := ["auto", "always", "never"]

/-- The registry of settings that a run can be made with. -/
def check (s : Settings) : Except Fault Registry := do
  if !isIdentifier s.sentinel then throw (.sentinel s.sentinel)
  if !isIdentifier s.stem then throw (.stem s.stem)
  if s.workers < 1 then throw (.workers s.workers)
  if !colorModes.contains s.color then throw (.color s.color)
  if let .error fault := LogLevel.parse s.logLevel then throw (.logLevel fault)
  match s.registry with
  | .error fault => throw (.registry fault)
  | .ok r =>
      match r.kinds.find? fun k => (calledMembers k).contains s.sentinel with
      | some k => throw (.sentinelIsMember s.sentinel k.name)
      | none => return r

def options (s : Settings) (r : Registry) : Expansion.Options :=
  .ofTexts s.sentinel s.stem r 0

/-- Whether output is coloured; without a fixed choice the terminal decides. -/
def useColor (mode : String) (refused terminal : Bool) : Bool :=
  match mode with
  | "always" => true
  | "never" => false
  | _ => !refused && terminal

end Settings

end EarlyExit
