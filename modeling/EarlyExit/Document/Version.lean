import EarlyExit.Text.Quoted

/-!
# Format versions

A version is one to three numbers, perhaps after a `v`, perhaps followed by
pre-release names after a dash and build names after a plus sign.  Documents of
format 1 can be read, pre-releases excepted.
-/

namespace EarlyExit.Document

structure Version where
  major : Nat
  minor : Nat := 0
  patch : Nat := 0
  preRelease : List String := []
  build : List String := []
deriving DecidableEq, Repr

def currentFormat : String := "1.0.0"

/-- The versions that can be read, as messages name them. -/
def supportedFormats : String := "^1.0.0"

namespace Version

def text (v : Version) : String :=
  toString v.major ++ "." ++ toString v.minor ++ "." ++ toString v.patch ++
    (if v.preRelease.isEmpty then "" else "-" ++ ".".intercalate v.preRelease) ++
    (if v.build.isEmpty then "" else "+" ++ ".".intercalate v.build)

def isSupported (v : Version) : Bool :=
  v.major == 1 && v.preRelease.isEmpty

inductive Fault
  | absent
  | malformed
  | tooLarge (digits : String)
  | leadingZero
  | unsupported (v : Version)

def isNameChar (c : Char) : Bool :=
  c.isAlphanum || c == '-'

/-- Names with points between them, each of letters, digits and dashes. -/
def names? (cs : List Char) : Option (List String) :=
  let parts := (String.ofList cs).splitOn "."
  if parts.all fun p => !p.isEmpty && p.toList.all isNameChar then some parts else none

/-- An optional list of names behind a mark. -/
def namesAfter? (mark : Char) (cs : List Char) : Option (List String × List Char) :=
  match cs with
  | c :: rest =>
      if c == mark then
        let taken := rest.takeWhile fun c => isNameChar c || c == '.'
        (names? taken).map fun ns => (ns, rest.drop taken.length)
      else some ([], cs)
  | [] => some ([], [])

/-- An optional further number: a point and digits. -/
def segment (cs : List Char) : Option String × List Char :=
  match cs with
  | '.' :: rest =>
      let digits := rest.takeWhile Char.isDigit
      if digits.isEmpty then (none, cs)
      else (some (String.ofList digits), rest.drop digits.length)
  | _ => (none, cs)

/-- A number of a version fits into 64 bits. -/
def number (digits : String) : Except Fault Nat :=
  let n := digits.toList.foldl (fun n c => n * 10 + (c.toNat - 48)) 0
  if n < UInt64.size then .ok n else .error (.tooLarge digits)

def isZeroPadded (name : String) : Bool :=
  name.toList.all Char.isDigit && decide (1 < name.length) && name.startsWith "0"

def parse (s : String) : Except Fault Version := do
  let cs :=
    match s.toList with
    | 'v' :: rest => rest
    | cs => cs
  let first := cs.takeWhile Char.isDigit
  let (second, rest) := segment (cs.drop first.length)
  let (third, rest) := if second.isSome then segment rest else (none, rest)
  let (some (pre, rest), false) := (namesAfter? '-' rest, first.isEmpty)
    | throw .malformed
  let some (build, []) := namesAfter? '+' rest
    | throw .malformed
  let major ← number (String.ofList first)
  let minor ← number (second.getD "0")
  let patch ← number (third.getD "0")
  if pre.any isZeroPadded then throw .leadingZero
  return { major, minor, patch, preRelease := pre, build }

def Fault.message (format : String) : Fault -> String
  | .absent => "missing format version"
  | .malformed => invalid "Invalid Semantic Version"
  | .tooLarge digits =>
      invalid ("Error parsing version segment: strconv.ParseUint: parsing " ++
        Text.quote digits ++ ": value out of range")
  | .leadingZero => invalid "Version segment starts with 0"
  | .unsupported v =>
      "unsupported format version " ++ v.text ++ " (want " ++ supportedFormats ++ ")"
where
  invalid (why : String) : String :=
    "invalid format version " ++ Text.quote format ++ ": " ++ why

end Version

def checkFormat (format : String) : Except Version.Fault Unit := do
  if format.isEmpty then throw .absent
  let v ← Version.parse format
  if v.isSupported then return () else throw (.unsupported v)

end EarlyExit.Document
