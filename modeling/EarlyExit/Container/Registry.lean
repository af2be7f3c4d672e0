import EarlyExit.Container.Kind

/-!
# Registries

The container kinds known to a run.  No type name belongs to two of them, so a
static type decides the kind.
-/

namespace EarlyExit

structure Registry where
  /-- In the order they were given. -/
  kinds : List Kind
  /-- The owner of every claimed type name. -/
  owners : List (String × Kind)

namespace Registry

inductive Fault
  | kind (fault : Kind.Fault)
  | claimedTwice (type first second : String)
  | noKinds
deriving DecidableEq, Repr

def Fault.message : Fault -> String
  | kind fault => fault.message
  | claimedTwice type first second =>
      "type " ++ type ++ " claimed by container kinds " ++ first ++ " and " ++ second
  | noKinds => "no container kinds configured"

/-- The first name of a list that has an owner, with that owner. -/
def firstOwned? (owners : List (String × Kind)) : List String -> Option (String × Kind)
  | [] => none
  | name :: rest =>
      match owners.lookup name with
      | some k => some (name, k)
      | none => firstOwned? owners rest

/-- Add one kind, whose names must be free. -/
def add (r : Registry) (k : Kind) : Except Fault Registry :=
  match k.fault? with
  | some fault => .error (.kind fault)
  | none =>
      match firstOwned? r.owners k.claims with
      | some (name, owner) => .error (.claimedTwice name owner.name k.name)
      | none => .ok ⟨r.kinds ++ [k], r.owners ++ k.claims.map fun name => (name, k)⟩

def ofKinds (ks : List Kind) : Except Fault Registry :=
  ks.foldlM add ⟨[], []⟩

/-- The kinds in use: the built-in ones unless left out, then further ones, at least one. -/
def configured (builtin : Bool) (further : List Kind) : Except Fault Registry :=
  let ks := (if builtin then Kind.builtin else []) ++ further
  if ks.isEmpty then .error .noKinds else ofKinds ks

def standard : Registry :=
  ⟨Kind.builtin, Kind.builtin.flatMap fun k => k.claims.map fun name => (name, k)⟩

/-- The kind of a static type. -/
def lookup (r : Registry) (type : String) : Option Kind :=
  r.owners.lookup (baseType type)

/-- The kind of a class. -/
def byName? (r : Registry) (name : String) : Option Kind :=
  r.kinds.find? fun k => k.name == name

/-- The kind of the container an expression evaluates to, by its static type. -/
def resolve (r : Registry) (e : Expr) : Option Kind :=
  if e.staticType.isEmpty then none else r.lookup e.staticType

end Registry

end EarlyExit
