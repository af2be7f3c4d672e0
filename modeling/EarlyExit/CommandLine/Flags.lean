import EarlyExit.CommandLine.CommaList
import EarlyExit.Text.Numeral
import EarlyExit.Text.Quoted

/-!
# Flags

Reading a command line against a list of flags.  A flag is given by its long name
after two dashes or by its letter after one; its value follows an equals sign, or is
the next argument, or is left out for a flag that is on or off.  What is no flag is
an argument, and so is everything after two bare dashes.
-/

namespace EarlyExit.CommandLine

inductive FlagType
  | text
  | whole
  | onOff
  /-- Texts with commas between them; given again, it adds to them. -/
  | texts
deriving DecidableEq, Repr

structure Flag where
  name : String
  letter : Option Char := none
  type : FlagType := .text

/-- The name under which messages speak of a flag. -/
def Flag.shownName (f : Flag) : String :=
  match f.letter with
  | some c => "-" ++ String.singleton c ++ ", --" ++ f.name
  | none => "--" ++ f.name

inductive FlagFault
  | badSyntax (arg : String)
  | unknown (name : String)
  /-- No flag has the first byte of a group as its letter. -/
  | unknownLetter (group : String)
  | needsValue (arg : String)
  | letterNeedsValue (c : Char) (group : String)
  | invalid (flag : Flag) (value why : String)

def quoteChar (c : Char) : String :=
  if c == '\x27' then "'\\''" else if c == '"' then "'\"'" else "'" ++ Text.escapeChar c ++ "'"

/-- The character that the first byte of a text stands for by itself. -/
def firstByte (s : String) : Char :=
  Char.ofNat (s.toUTF8.toList.headD 0).toNat

def FlagFault.message : FlagFault -> String
  | badSyntax arg => "bad flag syntax: " ++ arg
  | unknown name => "unknown flag: --" ++ name
  | unknownLetter group =>
      "unknown shorthand flag: " ++ quoteChar (firstByte group) ++ " in -" ++ group
  | needsValue arg => "flag needs an argument: " ++ arg
  | letterNeedsValue c group => "flag needs an argument: " ++ quoteChar c ++ " in -" ++ group
  | invalid flag value why =>
      "invalid argument " ++ Text.quote value ++ " for " ++ Text.quote flag.shownName ++
        " flag: " ++ why

/-! ## Values -/

def valueFault? (type : FlagType) (value : String) : Option String :=
  match type with
  | .whole =>
      match Text.Numeral.whole value with
      | .ok _ => none
      | .error f => some ("strconv.ParseInt: parsing " ++ Text.quote value ++ ": " ++ f.text)
  | .onOff =>
      match Text.Numeral.truth? value with
      | some _ => none
      | none => some ("strconv.ParseBool: parsing " ++ Text.quote value ++ ": invalid syntax")
  | .texts =>
      match CommaList.parse value with
      | .ok _ => none
      | .error f => some f.text
  | .text => none

/-- Flags given, in order, and the arguments between them. -/
structure Parsed where
  given : List (String × String) := []
  args : List String := []

namespace Parsed

/-- What a flag was given last. -/
def value? (p : Parsed) (name : String) : Option String :=
  p.given.reverse.lookup name

def text (p : Parsed) (name default : String) : String :=
  (p.value? name).getD default

def isOn (p : Parsed) (name : String) : Bool :=
  ((p.value? name).bind Text.Numeral.truth?).getD false

/-- All texts given to a flag. -/
def texts (p : Parsed) (name : String) : List String :=
  (p.given.filter fun x => x.1 == name).flatMap fun x =>
    (CommaList.parse x.2).toOption.getD []

end Parsed

/-! ## Reading -/

def find? (flags : List Flag) (name : String) : Option Flag :=
  flags.find? fun f => f.name == name

def findLetter? (flags : List Flag) (c : Char) : Option Flag :=
  flags.find? fun f => f.letter == some c

def give (p : Parsed) (f : Flag) (value : String) : Except FlagFault Parsed :=
  match valueFault? f.type value with
  | some why => .error (.invalid f value why)
  | none => .ok { p with given := p.given ++ [(f.name, value)] }

/-- The part before the first equals sign, and the part after it if there is one. -/
def splitValue (cs : List Char) : String × Option String :=
  let name := cs.takeWhile (· != '=')
  match cs.drop name.length with
  | [] => (String.ofList name, none)
  | _ :: value => (String.ofList name, some (String.ofList value))

/-- Whether a group of letters is meant for a test bench rather than for the program. -/
def isTestFlag (cs : List Char) : Bool :=
  "test.".toList.isPrefixOf cs

/-- A group of letters behind one dash: what is recorded, and whether it took the next argument. -/
def readLetters (flags : List Flag) (next : Option String) (p : Parsed) :
    List Char -> Except FlagFault (Parsed × Bool)
  | [] => .ok (p, false)
  | c :: rest =>
      if isTestFlag (c :: rest) then .ok (p, false) else
      match findLetter? flags c with
      | none => .error (.unknownLetter (String.ofList (c :: rest)))
      | some f =>
          match rest with
          | '=' :: v :: value => (give p f (String.ofList (v :: value))).map fun p => (p, false)
          | rest =>
              if f.type = .onOff then
                match give p f "true" with
                | .ok p => readLetters flags next p rest
                | .error e => .error e
              else
                match rest, next with
                | v :: value, _ => (give p f (String.ofList (v :: value))).map fun p => (p, false)
                | [], some value => (give p f value).map fun p => (p, true)
                | [], none => .error (.letterNeedsValue c (String.ofList [c]))

/-- A long flag behind two dashes: what is recorded, and whether it took the next argument. -/
def readLong (flags : List Flag) (next : Option String) (p : Parsed) (arg : String)
    (cs : List Char) : Except FlagFault (Parsed × Bool) :=
  if cs.head? == some '-' || cs.head? == some '=' then .error (.badSyntax arg)
  else
    let (name, value) := splitValue cs
    match find? flags name with
    | none => .error (.unknown name)
    | some f =>
        match value with
        | some value => (give p f value).map fun p => (p, false)
        | none =>
            if f.type = .onOff then (give p f "true").map fun p => (p, false)
            else
              match next with
              | some value => (give p f value).map fun p => (p, true)
              | none => .error (.needsValue arg)

/-- Read arguments one by one; `skip` tells that the next was taken as a value. -/
def readArgs (flags : List Flag) (p : Parsed) (skip : Bool) :
    List String -> Except FlagFault Parsed
  | [] => .ok p
  | s :: rest =>
      if skip then readArgs flags p false rest
      else
        match s.toList with
        | ['-', '-'] => .ok { p with args := p.args ++ rest }
        | '-' :: '-' :: name =>
            match readLong flags rest.head? p s name with
            | .ok (p, took) => readArgs flags p took rest
            | .error e => .error e
        | '-' :: c :: letters =>
            match readLetters flags rest.head? p (c :: letters) with
            | .ok (p, took) => readArgs flags p took rest
            | .error e => .error e
        | _ => readArgs flags { p with args := p.args ++ [s] } false rest

def parse (flags : List Flag) (args : List String) : Except FlagFault Parsed :=
  readArgs flags {} false args

/-! ## Finding the command -/

def takesNext (flags : List Flag) (s : String) : Bool :=
  match s.toList with
  | '-' :: '-' :: name =>
      !name.contains '=' &&
        (find? flags (String.ofList name)).all fun f => f.type ≠ .onOff
  | ['-', c] => c.utf8Size == 1 && c != '=' && (findLetter? flags c).all fun f => f.type ≠ .onOff
  | _ => false

def bareArgs (flags : List Flag) (skip : Bool) : List String -> List String
  | [] => []
  | s :: rest =>
      if skip then bareArgs flags false rest
      else if s = "--" then []
      else if takesNext flags s then
        if rest.length ≤ 1 then [] else bareArgs flags true rest
      else if s.isEmpty || s.startsWith "-" then bareArgs flags false rest
      else s :: bareArgs flags false rest

/-- The arguments without the first one of a name that is no flag and no value. -/
def without (flags : List Flag) (name : String) (skip : Bool) : List String -> List String
  | [] => []
  | s :: rest =>
      if skip then s :: without flags name false rest
      else if s = "--" then s :: rest
      else if takesNext flags s then s :: without flags name true rest
      else if s = name then rest
      else s :: without flags name false rest

end EarlyExit.CommandLine
