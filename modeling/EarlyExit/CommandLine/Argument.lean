import EarlyExit.Container.Registry
import EarlyExit.Eval.Value
import EarlyExit.Text.Quoted
import EarlyExit.Yaml.Content

/-!
# Arguments of a method

A value typed on a command line: a scalar, or a container as `Kind.factory:scalar`.
-/

namespace EarlyExit.CommandLine

inductive ArgumentFault
  | malformed (text : String)
  | notScalar (text : String)
  | noFactory (kind factory : String)
deriving DecidableEq, Repr

def ArgumentFault.message : ArgumentFault -> String
  | malformed s => "argument " ++ Text.quote s ++ ": yaml"
  | notScalar s => "argument " ++ Text.quote s ++ " is not a scalar"
  | noFactory kind factory => kind ++ " has no factory " ++ factory

def scalarValue (s : String) : Except ArgumentFault Value :=
  match Yaml.read? s with
  | none => .error (.malformed s)
  | some .other => .error (.notScalar s)
  | some (.scalar .null) => .ok .null
  | some (.scalar (.bool b)) => .ok (.bool b)
  | some (.scalar (.int i)) => .ok (.int (Int64.ofInt i))
  | some (.scalar (.float x)) => .ok (.float x)
  | some (.scalar (.str s)) => .ok (.str s)

def cut (c : Char) (s : String) : String × Option String :=
  let head := s.toList.takeWhile (· != c)
  match s.toList.drop head.length with
  | [] => (s, none)
  | _ :: rest => (String.ofList head, some (String.ofList rest))

/-- The kind and the factory that a text names, with the text of the value. -/
def containerParts? (r : Registry) (s : String) : Option (Kind × String × Option String) :=
  let (head, value) := cut ':' s
  match cut '.' head with
  | (_, none) => none
  | (name, some factory) => (r.byName? name).map fun k => (k, factory, value)

def argument (r : Registry) (s : String) : Except ArgumentFault Value :=
  match containerParts? r s with
  | none => scalarValue s
  | some (k, factory, value) => do
      let v ← match value with
        | some t => scalarValue t
        | none => pure .null
      if factory = k.successFactory then return .success k v
      else if factory = k.alternateFactory then return .alternate k v
      else throw (.noFactory k.name factory)

end EarlyExit.CommandLine
