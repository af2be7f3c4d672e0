import EarlyExit.CommandLine.Flags
import EarlyExit.Text.LetterCase

/-!
# Commands

The commands, their flags and how many arguments they want, and how the command is
found among the arguments.  A name that is nearly that of a command gets a
suggestion.
-/

namespace EarlyExit.CommandLine

inductive Command
  | check
  | expand
  | watch
  | run
  | version
  | completion
  | help
deriving DecidableEq, Repr

namespace Command

def name : Command -> String
  | check => "check"
  | expand => "rewrite"
  | watch => "watch"
  | run => "run"
  | version => "version"
  | completion => "completion"
  | help => "help"

def suggested : List Command :=
  [.check, .expand, .watch, .run, .version, .completion]

def all : List Command :=
  suggested ++ [.help]

def sharedFlags : List Flag :=
  [⟨"config", none, .text⟩, ⟨"log-level", none, .text⟩, ⟨"color", none, .text⟩,
    ⟨"workers", none, .whole⟩]

def ownFlags : Command -> List Flag
  | expand => [⟨"out", some 'o', .text⟩, ⟨"format", some 'f', .text⟩]
  | watch => [⟨"out", some 'o', .text⟩]
  | run => [⟨"native", none, .onOff⟩, ⟨"compare", none, .onOff⟩, ⟨"host", none, .texts⟩]
  | version => [⟨"json", some 'j', .onOff⟩]
  | check | completion | help => []

def helpFlag : Flag := ⟨"help", some 'h', .onOff⟩

def flags (c : Command) : List Flag :=
  sharedFlags ++ c.ownFlags ++ [helpFlag]

def argsFault? (c : Command) (args : List String) : Option String :=
  let atLeast (n : Nat) : Option String :=
    if args.length < n then
      some ("requires at least " ++ toString n ++ " arg(s), only received " ++ toString args.length)
    else none
  match c with
  | check | expand | watch => atLeast 1
  | run => atLeast 2
  | version => args.head?.map fun a =>
      "unknown command " ++ Text.quote a ++ " for " ++ Text.quote "unwrapc version"
  | completion | help => none

end Command

/-! ## Suggestions -/

/-- The next row of distances, from the row above and the distance to the left. -/
def distanceRow (a : UInt8) (diagonal left : Nat) : List UInt8 -> List Nat -> List Nat
  | b :: bs, above :: row =>
      let d := if a == b then diagonal else min (min above left) diagonal + 1
      d :: distanceRow a above d bs row
  | _, _ => []

/-- How many bytes have to be added, dropped or changed to turn one text into another. -/
def editDistance (s t : String) : Nat :=
  let bs := t.toUTF8.toList
  let start := List.range (bs.length + 1)
  let last := s.toUTF8.toList.foldl (fun row a =>
    match row with
    | [] => []
    | d :: rest => (d + 1) :: distanceRow a d (d + 1) bs rest) start
  last.getLastD 0

/-- The commands that a mistyped name may have meant. -/
def suggestions (typed : String) : List String :=
  (Command.suggested.map Command.name).filter fun name =>
    decide (editDistance (Text.lower typed) name ≤ 2) || name.startsWith (Text.lower typed)

def unknownCommand (typed : String) : String :=
  let meant := suggestions typed
  "unknown command " ++ Text.quote typed ++ " for " ++ Text.quote "unwrapc" ++
    if meant.isEmpty then ""
    else "\n\nDid you mean this?\n" ++ String.join (meant.map fun s => "\t" ++ s ++ "\n")

/-! ## Finding the command -/

/-- The command that arguments name, with the arguments left for it. -/
inductive Located
  | command (c : Command) (args : List String)
  | unknown (typed : String)
  | root (args : List String)

def locate (args : List String) : Located :=
  match bareArgs Command.sharedFlags false args with
  | [] => .root args
  | typed :: _ =>
      match Command.all.find? fun c => c.name == typed with
      | some c => .command c (without Command.sharedFlags typed false args)
      | none => .unknown typed

end EarlyExit.CommandLine
