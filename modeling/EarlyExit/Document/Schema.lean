import EarlyExit.Data.Basic

/-!
# The shape of tree documents

A document is a map with a format version and a unit; a node is a map with a kind
and the fields of all kinds.  Before anything is read, every field of every map is
checked to hold the sort of data its name asks for.  Unknown fields are let pass,
and a null field counts as absent.
-/

namespace EarlyExit.Document

/-- The maps a document is made of. -/
inductive Record
  | document | unit | method | param | arm | clause | node
deriving DecidableEq, Repr

/-- The sorts of data a field may ask for. -/
inductive Shape
  | text
  | whole
  | flag
  | any
  | list (item : Shape)
  | record (r : Record)
deriving DecidableEq, Repr

def Record.shape : Record -> String -> Shape
  | .document, key =>
      match key with
      | "format" => .text
      | "unit" => .record .unit
      | _ => .any
  | .unit, key =>
      match key with
      | "file" | "package" => .text
      | "methods" => .list (.record .method)
      | _ => .any
  | .method, key =>
      match key with
      | "name" | "returns" => .text
      | "line" | "col" => .whole
      | "params" => .list (.record .param)
      | "body" => .list (.record .node)
      | _ => .any
  | .param, key =>
      match key with
      | "name" | "type" => .text
      | _ => .any
  | .arm, key =>
      match key with
      | "line" | "col" => .whole
      | "labels" | "body" => .list (.record .node)
      | "arrow" => .flag
      | _ => .any
  | .clause, key =>
      match key with
      | "line" | "col" => .whole
      | "param" => .record .param
      | "body" => .list (.record .node)
      | _ => .any
  | .node, key =>
      match key with
      | "kind" | "name" | "type" | "op" | "label" | "class" | "processor" | "raw" => .text
      | "line" | "col" => .whole
      | "postfix" | "implicit" | "init_list" => .flag
      | "recv" | "target" | "left" | "right" | "operand" | "cond" | "then" | "else" | "array"
      | "index" | "selector" | "message" | "expr" | "stmt" | "finally" => .record .node
      | "args" | "dims" | "elements" | "values" | "update" | "init" | "resources" | "body" =>
          .list (.record .node)
      | "fragments" => .list .text
      | "params" => .list (.record .param)
      | "cases" => .list (.record .arm)
      | "catches" => .list (.record .clause)
      | _ => .any

/-- A whole number: an integer of 64 bits, or a double cut to one. -/
def whole? (d : Data) : Option Int :=
  match d.scalar? with
  | some .null => some 0
  | some (.int i) => if i ≤ Int64.maxValue.toInt then some i else none
  | some (.float x) => if x ≤ 9223372036854775808.0 then some (Data.wholePart x) else none
  | _ => none

/-- A truth value, or one of the words that stand for one. -/
def flag? (d : Data) : Option Bool :=
  match d with
  | .null => some false
  | .bool b => some b
  | .str s =>
      if ["y", "Y", "yes", "on"].contains s then some true
      else if ["n", "N", "no", "off"].contains s then some false
      else none
  | _ => none

mutual

/-- Whether data has a shape.  Null has every shape. -/
def fits (shape : Shape) : Data -> Bool
  | .null => true
  | .list xs =>
      match shape with
      | .any => true
      | .list item => fitAll item xs
      | _ => false
  | .map es =>
      match shape with
      | .any => true
      | .record r => fieldsFit r es
      | _ => false
  | d =>
      match shape with
      | .any | .text => true
      | .whole => (whole? d).isSome
      | .flag => (flag? d).isSome
      | _ => false

def fitAll (item : Shape) : List Data -> Bool
  | [] => true
  | x :: rest => fits item x && fitAll item rest

def fieldsFit (r : Record) : List (String × Data) -> Bool
  | [] => true
  | (key, x) :: rest => fits (r.shape key) x && fieldsFit r rest

end

/-! ## Fields of a map that fits -/

def textField (d : Data) (key : String) : String :=
  ((d.field? key).bind Data.leafText?).getD ""

def wholeField (d : Data) (key : String) : Int :=
  ((d.field? key).bind whole?).getD 0

def flagField (d : Data) (key : String) : Bool :=
  ((d.field? key).bind flag?).getD false

/-- The texts of a list field; null entries are dropped. -/
def textsField (d : Data) (key : String) : List String :=
  ((d.itemsOf key).filter fun x => !x.isNull).filterMap Data.leafText?

end EarlyExit.Document
