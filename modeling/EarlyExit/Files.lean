import EarlyExit.Data.Basic
import EarlyExit.Text.Blank
import EarlyExit.Text.LetterCase

/-!
# Files

A tree of files as a list of paths, each with the data that the file holds.  Paths
start at the working folder or, with a slash, at the root; a folder exists when it is
listed or when something is in it.
-/

namespace EarlyExit

inductive Entry
  | folder
  /-- A file with its data, or nothing if its text spells no data. -/
  | file (content : Option Data)

structure Files where
  /-- Paths without empty parts and dots. -/
  entries : List (String × Entry) := []

namespace Files

/-! ## Path texts -/

def parts (path : String) : List String :=
  (path.toList.splitOn '/').map String.ofList

/-- Parts without blanks and dots; two dots take back the part before them. -/
def reduce (rooted : Bool) (done : List String) : List String -> List String
  | [] => done.reverse
  | p :: rest =>
      if p.isEmpty || p = "." then reduce rooted done rest
      else if p = ".." then
        match done with
        | [] => if rooted then reduce rooted [] rest else reduce rooted [".."] rest
        | q :: before =>
            if q = ".." then reduce rooted (".." :: done) rest else reduce rooted before rest
      else reduce rooted (p :: done) rest

/-- The shortest path to the same place. -/
def clean (path : String) : String :=
  let rooted := path.startsWith "/"
  let kept := "/".intercalate (reduce rooted [] (parts path))
  if rooted then "/" ++ kept else if kept.isEmpty then "." else kept

def join (folder name : String) : String :=
  if folder.isEmpty then clean name else clean (folder ++ "/" ++ name)

/-- The end of the last part of a path, from its last point on. -/
def extension (path : String) : String :=
  let last := (path.toList.reverse.takeWhile (· != '/'))
  if last.contains '.' then String.ofList ('.' :: (last.takeWhile (· != '.')).reverse) else ""

def isTreeFile (path : String) : Bool :=
  [".yaml", ".yml"].contains (Text.lower (extension path))

/-! ## Looking things up -/

inductive Trouble
  | absent
  | notFolder
  | isFolder
  /-- Something is where something else was to be made. -/
  | occupied
deriving DecidableEq, Repr

def Trouble.text : Trouble -> String
  | absent => "no such file or directory"
  | notFolder => "not a directory"
  | isFolder => "is a directory"
  | occupied => "file exists"

/-- What is at a clean path, the empty one being the folder where paths start. -/
def entry? (fs : Files) (path : String) : Option Entry :=
  if path.isEmpty then some .folder
  else
    match fs.entries.lookup path with
    | some e => some e
    | none => if fs.entries.any fun x => x.1.startsWith (path ++ "/") then some .folder else none

/-- The folder above a place; the root is above itself. -/
def above (here : List String) : List String :=
  if here = [""] then here
  else if here.all (· = "..") then here ++ [".."]
  else here.dropLast

def follow (fs : Files) (here : List String) : List String -> Except Trouble (String × Entry)
  | [] =>
      match fs.entry? ("/".intercalate here) with
      | some e => .ok ("/".intercalate here, e)
      | none => .error .absent
  | p :: rest =>
      match fs.entry? ("/".intercalate here) with
      | none => .error .absent
      | some (.file _) => .error .notFolder
      | some .folder =>
          if p.isEmpty || p = "." then follow fs here rest
          else if p = ".." then follow fs (above here) rest
          else follow fs (here ++ [p]) rest

/-- What is at a path, with its clean form. -/
def find (fs : Files) (path : String) : Except Trouble (String × Entry) :=
  if path.isEmpty then .error .absent
  else fs.follow (if path.startsWith "/" then [""] else []) (parts path)

def partsBelow? (folder path : String) : Option (List String) :=
  if folder.isEmpty then some (parts path)
  else
    let ps := parts path
    let fs := parts folder
    if fs.isPrefixOf ps && decide (fs.length < ps.length) then some (ps.drop fs.length) else none

def filesIn (fs : Files) (folder : String) : List String :=
  fs.entries.filterMap fun x =>
    match x.2, partsBelow? folder x.1 with
    | .file _, some [name] => some name
    | _, _ => none

/-- How a file could not be read: the step that failed, and why. -/
structure ReadFault where
  step : String
  trouble : Trouble

/-- The data of a file; the inner nothing is a text that spells none. -/
def content (fs : Files) (path : String) : Except ReadFault (Option Data) :=
  match fs.find path with
  | .error t => .error ⟨"open", t⟩
  | .ok (_, .folder) => .error ⟨"read", .isFolder⟩
  | .ok (_, .file d) => .ok d

def ReadFault.message (path : String) (f : ReadFault) : String :=
  f.step ++ " " ++ path ++ ": " ++ f.trouble.text

/-! ## Changes -/

def put (fs : Files) (path : String) (e : Entry) : Files :=
  ⟨(fs.entries.filter fun x => x.1 != path) ++ [(path, e)]⟩

/-- The files of a list; of two entries at one place the last counts. -/
def ofList (es : List (String × Entry)) : Files :=
  es.foldl (fun fs x => fs.put (clean x.1) x.2) {}

def beginnings (done : List Char) : List Char -> List String
  | [] => []
  | c :: rest =>
      if c == '/' && rest.head? != some '/' then
        String.ofList (c :: done).reverse :: beginnings (c :: done) rest
      else beginnings (c :: done) rest

/-- Whether a file is at the end of a path, whatever slashes follow it. -/
def isFile (fs : Files) (path : String) : Bool :=
  match fs.find (Text.trimRight (· == '/') path) with
  | .ok (_, .file _) => true
  | _ => false

/-- Make a folder and those above it, or say where a file is in the way. -/
def makeFolder (fs : Files) (path : String) : Except String Files :=
  match (beginnings [] path.toList).find? fs.isFile with
  | some p => .error ("mkdir " ++ p ++ ": " ++ Trouble.occupied.text)
  | none =>
      if fs.isFile path then .error ("mkdir " ++ path ++ ": " ++ Trouble.notFolder.text)
      else .ok ⟨fs.entries ++ [(clean path, .folder)]⟩

end Files

end EarlyExit
