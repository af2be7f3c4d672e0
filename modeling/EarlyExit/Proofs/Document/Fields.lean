import EarlyExit.Document.Reader
import EarlyExit.Document.Writer
import EarlyExit.Proofs.Document.Numbers

/-!
# Fields of written maps

A map is written as pieces for its fields, one behind the other.  What is found under a key
is found in one of the pieces, and each piece has the shape its key asks for.
-/

namespace EarlyExit.Document

open Data

/-- An empty place cannot be written. -/
theorem write_missing :
    writeExpr .missing = .error ⟨"<nil>"⟩ ∧ writeStmt .missing = .error ⟨"<nil>"⟩ := by
  rw [writeExpr, writeStmt]
  exact ⟨rfl, rfl⟩

/-! ## Looking up -/

section Lookup

variable {key : String}

theorem lookup_one (k : String) (x : Data) (es : Fields) : List.lookup key ((k, x) :: es) =
    if key = k then some x else List.lookup key es := by
  rw [List.lookup_cons]
  by_cases hkey : key = k
  · simp [hkey]
  · rw [beq_false_of_ne hkey, if_neg hkey]

@[simp] theorem lookup_text (k v : String) : (text k v).lookup key =
    if key = k then (if v = "" then none else some (.str v)) else none := by
  rw [text]
  by_cases hempty : v = "" <;> simp [lookup_one, hempty]

@[simp] theorem lookup_flag (k : String) (b : Bool) : (flag k b).lookup key =
    if key = k then (if b then some (.bool true) else none) else none := by
  cases b <;> simp [flag, lookup_one]

@[simp] theorem lookup_whole (k : String) (i : Int) : (whole k i).lookup key =
    if key = k then (if i = 0 then none else some (.ofInt i)) else none := by
  unfold whole
  split <;> simp [lookup_one]

@[simp] theorem lookup_items (k : String) (xs : List Data) : (items k xs).lookup key =
    if key = k then (if xs = [] then none else some (.list xs)) else none := by
  rw [items]
  by_cases hempty : xs = [] <;> simp [lookup_one, hempty]

@[simp] theorem lookup_node (k : String) (x : Data) : (node k x).lookup key =
    if key = k then some x else none := by
  simp [node, lookup_one]

@[simp] theorem lookup_kind (k : String) (s : Span) : (kind k s).lookup key =
    if key = "kind" then some (.str k) else (place s).lookup key :=
  lookup_one ..

/-- A span is written as line and column only. -/
@[simp] theorem lookup_place (s : Span) (hline : key ≠ "line") (hcol : key ≠ "col") :
    (place s).lookup key = none := by
  unfold place
  split
  · simp [List.lookup_append, lookup_whole, hline, hcol]
  · rfl

end Lookup

/-! ## Reading fields -/

section Read

variable {es : Fields} {key : String}

@[simp] theorem field?_map : (Data.map es).field? key = (es.lookup key).filter fun x => !x.isNull := by
  unfold field? get?
  cases h : es.lookup key with
  | none => simp [h]
  | some x => cases x <;> simp [h, Option.filter, isNull]

@[simp] theorem textField_map : textField (.map es) key = ((es.lookup key).bind leafText?).getD "" := by
  rw [textField, field?_map]
  cases es.lookup key with
  | none => rfl
  | some x => cases x <;> rfl

theorem wholeField_map : wholeField (.map es) key = ((es.lookup key).bind whole?).getD 0 := by
  rw [wholeField, field?_map]
  cases es.lookup key with
  | none => rfl
  | some x => cases x <;> rfl

@[simp] theorem flagField_map : flagField (.map es) key = ((es.lookup key).bind flag?).getD false := by
  rw [flagField, field?_map]
  cases es.lookup key with
  | none => rfl
  | some x => cases x <;> rfl

@[simp] theorem itemsOf_map : (Data.map es).itemsOf key = ((es.lookup key).map Data.items).getD [] := by
  rw [itemsOf, field?_map]
  cases es.lookup key with
  | none => rfl
  | some x => cases x <;> rfl

@[simp] theorem text_back (v : String) :
    ((if v = "" then none else some (Data.str v)).bind leafText?).getD "" = v := by
  by_cases h : v = ""
  · rw [if_pos h, h]
    rfl
  · rw [if_neg h]
    rfl

@[simp] theorem flag_back (b : Bool) :
    ((if b then some (Data.bool true) else none).bind flag?).getD false = b := by
  cases b <;> rfl

@[simp] theorem items_back (xs : List Data) :
    ((if xs = [] then none else some (Data.list xs)).map Data.items).getD [] = xs := by
  cases xs <;> rfl

@[simp] theorem items_map_back {α : Type} (f : α -> Data) (l : List α) :
    ((if l = [] then none else some (Data.list (l.map f))).map Data.items).getD [] = l.map f := by
  cases l <;> rfl

@[simp] theorem leafText?_str (v : String) : (Data.str v).leafText? = some v := rfl

@[simp] theorem isNull_map (es : Fields) : (Data.map es).isNull = false := rfl

end Read

/-! ## Spans -/

/-- A span as documents hold it: nowhere, or a point of the file with numbers of 64 bits. -/
def Placed (file : String) (s : Span) : Prop :=
  s = .nowhere ∨ ∃ line col : Int, 0 < line ∧ line ≤ Int64.maxValue.toInt ∧ 0 < col ∧
    col ≤ Int64.maxValue.toInt ∧ s = .point file line col

theorem isValid_point {file : String} {line col : Int} (hline : 0 < line) (hcol : 0 < col) :
    (Span.point file line col).isValid = true := by
  simp [Span.isValid, Span.point, Position.isValid, Position.before, hline, hcol]

theorem place_point {file : String} {line col : Int} (hline : 0 < line) (hcol : 0 < col) :
    place (.point file line col) = [("line", .ofInt line), ("col", .ofInt col)] := by
  have hzero : ∀ (k : String) {i : Int}, 0 < i -> whole k i = [(k, .ofInt i)] :=
    fun k i hi => if_neg (by omega)
  rw [place, if_pos (isValid_point hline hcol)]
  show whole "line" line ++ whole "col" col = _
  rw [hzero _ hline, hzero _ hcol]
  rfl

/-- A map that has the line and column of a span, as the writer puts them, has the span. -/
theorem spanOf_map {file : String} {s : Span} (h : Placed file s) {es : Fields}
    (hline : es.lookup "line" = (place s).lookup "line")
    (hcol : es.lookup "col" = (place s).lookup "col") : spanOf file (.map es) = s := by
  rw [spanOf, wholeField_map, wholeField_map, hline, hcol]
  clear hline hcol
  rcases h with rfl | ⟨line, col, hline, hline', hcol, hcol', rfl⟩
  · rfl
  · have hplace := @place_point file line col hline hcol
    have hfound : (place (.point file line col)).lookup "line" = some (.ofInt line) := by
      rw [hplace, lookup_one, if_pos rfl]
    have hfound' : (place (.point file line col)).lookup "col" = some (.ofInt col) := by
      rw [hplace, lookup_one, if_neg (by decide), lookup_one, if_pos rfl]
    have hback := whole?_ofInt (Int.le_of_lt hline) hline'
    have hback' := whole?_ofInt (Int.le_of_lt hcol) hcol'
    simp only [hfound, hfound', Option.bind_some, hback, hback', Option.getD_some]
    rw [if_neg (by omega), if_neg (by omega)]

/-- The span of a written node. -/
theorem spanOf_kind {file : String} {s : Span} (h : Placed file s) (k : String) {es : Fields}
    (hline : es.lookup "line" = none) (hcol : es.lookup "col" = none) :
    spanOf file (.map (kind k s ++ es)) = s :=
  spanOf_map h (by simp [List.lookup_append, hline]) (by simp [List.lookup_append, hcol])

@[simp] theorem textField_kind (k : String) (s : Span) (es : Fields) :
    textField (.map (kind k s ++ es)) "kind" = k := by
  simp [List.lookup_append]

/-! ## Shapes -/

@[simp] theorem shape_node :
    Record.node.shape "kind" = .text ∧ Record.node.shape "name" = .text ∧
    Record.node.shape "type" = .text ∧ Record.node.shape "op" = .text ∧
    Record.node.shape "label" = .text ∧ Record.node.shape "class" = .text ∧
    Record.node.shape "processor" = .text ∧ Record.node.shape "raw" = .text ∧
    Record.node.shape "line" = .whole ∧ Record.node.shape "col" = .whole ∧
    Record.node.shape "postfix" = .flag ∧ Record.node.shape "implicit" = .flag ∧
    Record.node.shape "init_list" = .flag ∧ Record.node.shape "value" = .any ∧
    Record.node.shape "fragments" = .list .text ∧
    Record.node.shape "params" = .list (.record .param) ∧
    Record.node.shape "cases" = .list (.record .arm) ∧
    Record.node.shape "catches" = .list (.record .clause) := by
  decide

/-- The fields of a node that hold another node. -/
@[simp] theorem shape_node_single :
    Record.node.shape "recv" = .record .node ∧ Record.node.shape "target" = .record .node ∧
    Record.node.shape "left" = .record .node ∧ Record.node.shape "right" = .record .node ∧
    Record.node.shape "operand" = .record .node ∧ Record.node.shape "cond" = .record .node ∧
    Record.node.shape "then" = .record .node ∧ Record.node.shape "else" = .record .node ∧
    Record.node.shape "array" = .record .node ∧ Record.node.shape "index" = .record .node ∧
    Record.node.shape "selector" = .record .node ∧ Record.node.shape "message" = .record .node ∧
    Record.node.shape "expr" = .record .node ∧ Record.node.shape "stmt" = .record .node ∧
    Record.node.shape "finally" = .record .node := by
  decide

/-- The fields of a node that hold a list of nodes. -/
@[simp] theorem shape_node_list :
    Record.node.shape "args" = .list (.record .node) ∧
    Record.node.shape "dims" = .list (.record .node) ∧
    Record.node.shape "elements" = .list (.record .node) ∧
    Record.node.shape "values" = .list (.record .node) ∧
    Record.node.shape "update" = .list (.record .node) ∧
    Record.node.shape "init" = .list (.record .node) ∧
    Record.node.shape "resources" = .list (.record .node) ∧
    Record.node.shape "body" = .list (.record .node) := by
  decide

@[simp] theorem shape_method :
    Record.method.shape "name" = .text ∧ Record.method.shape "returns" = .text ∧
    Record.method.shape "line" = .whole ∧ Record.method.shape "col" = .whole ∧
    Record.method.shape "params" = .list (.record .param) ∧
    Record.method.shape "body" = .list (.record .node) := by
  decide

@[simp] theorem shape_arm :
    Record.arm.shape "line" = .whole ∧ Record.arm.shape "col" = .whole ∧
    Record.arm.shape "labels" = .list (.record .node) ∧
    Record.arm.shape "body" = .list (.record .node) ∧ Record.arm.shape "arrow" = .flag := by
  decide

@[simp] theorem shape_clause :
    Record.clause.shape "line" = .whole ∧ Record.clause.shape "col" = .whole ∧
    Record.clause.shape "param" = .record .param ∧
    Record.clause.shape "body" = .list (.record .node) := by
  decide

@[simp] theorem shape_param :
    Record.param.shape "name" = .text ∧ Record.param.shape "type" = .text := by
  decide

@[simp] theorem shape_unit :
    Record.document.shape "format" = .text ∧ Record.document.shape "unit" = .record .unit ∧
    Record.unit.shape "file" = .text ∧ Record.unit.shape "package" = .text ∧
    Record.unit.shape "methods" = .list (.record .method) := by
  decide

section Fit

variable {r : Record} {key : String} {file : String}

@[simp] theorem fieldsFit_nil : fieldsFit r [] = true :=
  rfl

theorem fieldsFit_cons (k : String) (x : Data) (es : Fields) :
    fieldsFit r ((k, x) :: es) = (fits (r.shape k) x && fieldsFit r es) :=
  rfl

@[simp] theorem fits_text (v : String) : fits .text (.str v) = true :=
  rfl

@[simp] theorem fits_flag (b : Bool) : fits .flag (.bool b) = true :=
  rfl

@[simp] theorem fits_whole (i : Int) : fits .whole (.ofInt i) = (whole? (.ofInt i)).isSome :=
  rfl

@[simp] theorem fits_any (x : Data) : fits .any x = true := by
  cases x <;> rfl

@[simp] theorem fits_record (es : Fields) : fits (.record r) (.map es) = fieldsFit r es :=
  rfl

@[simp] theorem fits_list (item : Shape) (xs : List Data) :
    fits (.list item) (.list xs) = xs.all (fits item) := by
  show fitAll item xs = _
  induction xs with
  | nil => rfl
  | cons x xs ih =>
      rw [List.all_cons, ← ih]
      rfl

@[simp] theorem fieldsFit_append (l m : Fields) :
    fieldsFit r (l ++ m) = (fieldsFit r l && fieldsFit r m) := by
  induction l with
  | nil => rfl
  | cons x l ih =>
      rw [List.cons_append, fieldsFit_cons, fieldsFit_cons, ih, Bool.and_assoc]

@[simp] theorem fieldsFit_text (v : String) (h : r.shape key = .text) :
    fieldsFit r (text key v) = true := by
  unfold text
  split <;> simp [fieldsFit_cons, h]

@[simp] theorem fieldsFit_flag (b : Bool) (h : r.shape key = .flag) :
    fieldsFit r (flag key b) = true := by
  cases b <;> simp [flag, fieldsFit_cons, h]

@[simp] theorem fieldsFit_items (xs : List Data) {item : Shape} (h : r.shape key = .list item) :
    fieldsFit r (items key xs) = xs.all (fits item) := by
  unfold items
  split <;> simp_all [fieldsFit_cons]

@[simp] theorem fieldsFit_node (x : Data) : fieldsFit r (node key x) = fits (r.shape key) x := by
  simp [node, fieldsFit_cons]

/-- Line and column are whole numbers in every record that has them. -/
theorem fieldsFit_place {s : Span} (hs : Placed file s)
    (hline : r.shape "line" = .whole) (hcol : r.shape "col" = .whole) :
    fieldsFit r (place s) = true := by
  rcases hs with rfl | ⟨line, col, hline', hmax, hcol', hmax', rfl⟩
  · rfl
  · rw [place_point hline' hcol']
    have hback := whole?_ofInt (Int.le_of_lt hline') hmax
    have hback' := whole?_ofInt (Int.le_of_lt hcol') hmax'
    simp_all [fieldsFit_cons]

theorem fieldsFit_kind {s : Span} (hs : Placed file s) (k : String) :
    fieldsFit .node (kind k s) = true := by
  simp [kind, fieldsFit_cons, fieldsFit_place hs]

end Fit

/-! ## Documents with one method -/

/-- A document gives the unit of its only method, if that is read cleanly. -/
theorem read_single {name file package : String} {d unit x : Data} {method : Method}
    (hfit : fits (.record .document) d = true)
    (hformat : checkFormat (textField d "format") = .ok ())
    (hunit : (d.field? "unit").getD .null = unit)
    (hfile : (if (textField unit "file").isEmpty then name else textField unit "file") = file)
    (hpackage : textField unit "package" = package)
    (hmethods : (unit.itemsOf "methods").filter (fun x => !x.isNull) = [x])
    (hmethod : readMethod file x = ⟨method, []⟩) :
    read name d = .ok { span := .point file 1 1, file, package, methods := [method] } := by
  rw [read, if_neg (by simp [hfit])]
  dsimp only
  rw [hformat, hunit, hfile, hpackage, hmethods, List.map_singleton, hmethod]
  rfl

end EarlyExit.Document
