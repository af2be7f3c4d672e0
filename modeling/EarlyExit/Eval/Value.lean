import EarlyExit.Container.Kind
import EarlyExit.Decimal.Notation
import EarlyExit.Syntax.Printer

/-!
# Values

What expressions evaluate to.  Arrays are references into a store; objects and
containers are values; a closure has an identity of its own beside its code and the
scope it was made in.  Where arrays, closures and scopes lie in memory shows in some texts.
-/

namespace EarlyExit

inductive Value
  | null
  | bool (value : Bool)
  | int (value : Int64)
  | float (value : Float)
  | str (value : String)
  | array (ref : Nat)
  | object (className : String) (args : List Value)
  | closure (id : Nat) (params : List Param) (body : Body) (scope : Nat)
  | container (kind : Kind) (alternate : Bool) (held : Value)

instance : Inhabited Value := ⟨.null⟩

namespace Value

def ofLiteral : Literal -> Value
  | .int i => .int i
  | .float x => .float x
  | .str s => .str s
  | .bool b => .bool b
  | .null => .null

def success (k : Kind) (v : Value) : Value :=
  .container k false v

/-- A container in its alternate state; a kind without alternate values drops the value. -/
def alternate (k : Kind) (v : Value) : Value :=
  .container k true (if k.alternateAccessor.isEmpty then .null else v)

def exception (className message : String) : Value :=
  .object className [.str message]

/-- The class by which a catch clause selects a value. -/
def className : Value -> String
  | object c _ => c
  | container k _ _ => k.name
  | str _ => "String"
  | _ => ""

/-- The value that array elements of a type start with. -/
def zero (type : String) : Value :=
  match baseType type with
  | "int" | "long" | "short" | "byte" | "char" => .int 0
  | "double" | "float" => .float 0
  | "boolean" => .bool false
  | _ => .null

end Value

/-! ## Text -/

/-- What lies at an address in memory. -/
inductive Cell
  | array (ref : Nat)
  | closure (id : Nat)
  | scope (s : Nat)

/-- The addresses of cells, as far as they are known. -/
abbrev Memory := Cell -> Option Nat

namespace Memory

/-- A memory in which every cell has an address of its own. -/
def numbered : Memory
  | .scope s => some (3 * s)
  | .array ref => some (3 * ref + 1)
  | .closure id => some (3 * id + 2)

end Memory

namespace Value

/-- A part of a text: characters, or the address of a cell. -/
inductive Piece
  | chars (s : String)
  | address (cell : Cell)

namespace Piece

/-- Texts one after another, with characters between them. -/
def row (between : String) : List (List Piece) -> List Piece
  | [] => []
  | [text] => text
  | text :: rest => text ++ .chars between :: row between rest

def pointerText (address : Nat) : String :=
  if address = 0 then "<nil>" else "0x" ++ String.ofList (Nat.toDigits 16 address)

/-- The characters of a text, unless an address in it is not known. -/
def spell? (memory : Memory) : List Piece -> Option String
  | [] => some ""
  | .chars s :: rest => (spell? memory rest).map (s ++ ·)
  | .address cell :: rest =>
      (memory cell).bind fun address => (spell? memory rest).map (pointerText address ++ ·)

end Piece

/--
How a value is written: by itself, by the container that holds it, or as an element of an
array that a container holds.
-/
inductive Manner
  | alone
  | held
  | element

def bodyText : Body -> String
  | .value e => (Node.expr e).print
  | .block b => (Node.ofBlock b).print

mutual

/-- The text of a value.  References to arrays are written by a function. -/
def piecesWith (arrays : Manner -> Nat -> List Piece) : Manner -> Value -> List Piece
  | .alone, .null => [.chars "null"]
  | _, .null => [.chars "<nil>"]
  | _, .bool b => [.chars (if b then "true" else "false")]
  | _, .int i => [.chars (toString i.toInt)]
  | _, .float x => [.chars (Decimal.text x)]
  | _, .str s => [.chars s]
  | manner, .array ref => arrays manner ref
  | _, .object c args =>
      .chars (c ++ "(") :: Piece.row ", " (eachWith arrays args) ++ [.chars ")"]
  | .alone, .closure .. => [.chars "<lambda>"]
  | .held, .closure _ params body s =>
      [.chars ("&\x7b[" ++ " ".intercalate (params.map Printer.paramText) ++ "] " ++
        bodyText body ++ " "), .address (.scope s), .chars "\x7d"]
  | .element, .closure id .. => [.address (.closure id)]
  | _, .container k alternate v =>
      if alternate && k.alternateAccessor.isEmpty then
        [.chars (k.name ++ "." ++ k.alternateFactory ++ "()")]
      else
        .chars (k.name ++ "." ++ (if alternate then k.alternateFactory else k.successFactory) ++
          "(") :: piecesWith arrays .held v ++ [.chars ")"]

def eachWith (arrays : Manner -> Nat -> List Piece) : List Value -> List (List Piece)
  | [] => []
  | v :: rest => piecesWith arrays .alone v :: eachWith arrays rest

end

/-! ## Equality -/

/-- Equality of values that have no parts.  An integer equals the double of its value. -/
def equalLeaf (shared : Bool) : Value -> Value -> Bool
  | .null, .null => true
  | .bool a, .bool b => a == b
  | .int a, .int b => a == b
  | .int a, .float b => a.toFloat == b
  | .float a, .int b => a == b.toFloat
  | .float a, .float b => a == b
  | .str a, .str b => a == b
  | .array a, .array b => shared && a == b
  | .closure a .., .closure b .. => shared && a == b
  | _, _ => false

mutual

/--
Equality as programs see it: containers and objects by their parts, arrays and
closures by identity.  `shared` tells whether both values belong to one run;
references of different runs are never equal.
-/
def equal (shared : Bool) : Value -> Value -> Bool
  | .container k a v, .container l b w => k == l && a == b && equal shared v w
  | .object c as, .object d bs => c == d && equalAll shared as bs
  | v, w => equalLeaf shared v w

def equalAll (shared : Bool) : List Value -> List Value -> Bool
  | [], [] => true
  | v :: vs, w :: ws => equal shared v w && equalAll shared vs ws
  | _, _ => false

end

/--
Equality of containers that looks at the held value only from outside: a leaf is
compared, anything with parts is equal to itself alone.  `same` tells whether the
two containers are one.
-/
def shallowEqual (same : Bool) : Value -> Value -> Bool
  | .container k a v, .container l b w =>
      k == l && a == b &&
        match v, w with
        | .int _, .float _ | .float _, .int _ => false
        | .array _, .array _ | .closure .., .closure .. | .object .., .object ..
        | .container .., .container .. => same
        | v, w => equalLeaf false v w
  | _, _ => false

end Value

end EarlyExit
