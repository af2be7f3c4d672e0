import EarlyExit.Files
import EarlyExit.Settings.Reader

/-!
# Loading settings

The file that settings are read from: the one that is named, or else a file of the
default name in the working folder, which need not exist.
-/

namespace EarlyExit.Settings

inductive LoadFault
  | unreadable (path : String) (fault : Files.ReadFault)
  | unsupportedType (type : String)
  /-- The file does not spell a map, or a key has a value of the wrong type. -/
  | malformed
  | fault (f : Fault)

def LoadFault.message : LoadFault -> String
  | unreadable path why => "reading config: " ++ why.message path
  | unsupportedType type => "reading config: Unsupported Config Type " ++ Text.quote type
  | malformed => "reading config: malformed"
  | fault f => f.defect.text

/-- File types in the order in which a default file is looked for. -/
def fileTypes : List String :=
  ["json", "toml", "yaml", "yml", "properties", "props", "prop", "hcl", "tfvars", "dotenv", "env",
    "ini"]

/-- File types whose text can spell settings here. -/
def readTypes : List String := ["json", "yaml", "yml"]

def fileType (path : String) : String :=
  String.ofList ((Files.extension path).toList.drop 1)

/-- The map that a file holds; a file that says nothing holds the empty one. -/
def fileMap (fs : Files) (path : String) : Except LoadFault Data :=
  match fs.content path with
  | .error fault => .error (.unreadable path fault)
  | .ok (some d) => if d.isMap then .ok d else .error .malformed
  | .ok none => .error .malformed

/-- The names that the default file may have, the one without a type last. -/
def defaultNames : List String :=
  fileTypes.map ("unwrapc." ++ ·) ++ ["unwrapc"]

/-- The map of the default file, empty without one. -/
def defaultMap (fs : Files) : Except LoadFault Data :=
  match defaultNames.find? fun name => (fs.filesIn "").contains name with
  | some name => fileMap fs name
  | none => .ok .null

/-- The map of the file that is named, if it is of a type that can be read. -/
def namedMap (fs : Files) (path : String) : Except LoadFault Data :=
  let type := fileType path
  if !fileTypes.contains type then .error (.unsupportedType type)
  else
    match fileMap fs path with
    | .error fault => .error fault
    | .ok d =>
        if !readTypes.contains type then .error .malformed
        else if type = "json" then (Data.doubles? d).elim (.error .malformed) .ok
        else .ok d

/-- The settings in force; an empty path stands for the default file. -/
def load (defaults : Settings) (fs : Files) (env : String -> Option String) (path : String) :
    Except LoadFault Settings := do
  let file ← if path.isEmpty then defaultMap fs else namedMap fs path
  match read? defaults file env with
  | none => throw .malformed
  | some s =>
      match s.check with
      | .ok _ => return s
      | .error f => throw (.fault f)

end EarlyExit.Settings
