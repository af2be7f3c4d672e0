import EarlyExit.Eval.Interpreter

/-!
# Host functions

Ready-made functions for programs to call: one that hands back an argument, and
ones with a fixed answer or an answer that depends on a number.
-/

namespace EarlyExit.Eval.Host

/-- Hands back its first argument, null without arguments. -/
def first : HostFunction := fun args =>
  return args.headD .null

/-- Hands back its last argument, null without arguments. -/
def last : HostFunction := fun args =>
  return args.getLastD .null

def throwing (className message : String) : HostFunction := fun _ =>
  Run.raise className message

def failing (message : String) : HostFunction := fun _ =>
  Run.fail (.host message)

inductive Content
  | number
  | double
  | array
  | text
  | isEven

def Content.value (n : Int64) : Content -> Run Value
  | number => return .int n
  | double => return .int (2 * n)
  | array => Run.alloc [.int 1, .int 2, .int n]
  | text => return .str (toString n.toInt)
  | isEven => return .bool (n % 2 == 0)

/-- A function from a number to a container, alternate for the numbers it names. -/
structure Container where
  kindName : String
  kind? : Option Kind
  below : Option Int := none
  above : Option Int := none
  exactly : Option Int := none
  content : Content := .number

def Container.isAlternate (c : Container) (n : Int) : Bool :=
  (c.below.any fun x => decide (n < x)) || (c.above.any fun x => decide (x < n)) ||
    c.exactly.any fun x => n == x

def Container.function (c : Container) (name : String) : HostFunction := fun args => do
  let n ← match args with
    | [] => pure 0
    | .int n :: _ => pure n
    | _ => Run.fail (.host ("host " ++ name ++ ": bad argument"))
  match c.kind? with
  | none => Run.fail (.host ("host " ++ name ++ ": unknown kind " ++ c.kindName))
  | some k =>
      if c.isAlternate n.toInt then return .alternate k (.str (name ++ " " ++ toString n.toInt))
      return .success k (← c.content.value n)

def table (fns : List (String × HostFunction)) : String -> Option HostFunction :=
  fun name => fns.lookup name

end EarlyExit.Eval.Host
