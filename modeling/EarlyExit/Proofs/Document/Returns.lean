import EarlyExit.Proofs.Document.Seated
import EarlyExit.Proofs.Document.Storable

/-!
# Written trees are read back

What is written for a tree that can be stored is read back as the tree, its lambdas seated.
For each kind of node this follows from the same of the nodes below it.
-/

namespace EarlyExit.Document

open Data Node

/-! ## What is read back -/

/-- The fields are what is written for an expression, and are read as it. -/
structure WrittenExpr (file : String) (e : Expr) (es : Fields) : Prop where
  write : writeExpr e = .ok (.map es)
  fit : fieldsFit .node es = true
  read : readExpr file (.map es) = ⟨e.seated, []⟩

structure WrittenStmt (file : String) (s : Stmt) (es : Fields) : Prop where
  write : writeStmt s = .ok (.map es)
  fit : fieldsFit .node es = true
  read : readStmt file (.map es) = ⟨s.seated, []⟩

/-- The same of operands, read from under any key of a map. -/
structure WrittenExprs (file : String) (l : List Expr) (xs : List Data) : Prop where
  write : writeExprs l = .ok xs
  fit : xs.all (fits (.record .node)) = true
  read : ∀ d key, d.itemsOf key = xs -> readExprs file d key = ⟨seatedExprs l, []⟩
  length : xs.length = l.length

structure WrittenStmts (file : String) (l : List Stmt) (xs : List Data) : Prop where
  write : writeStmts l = .ok xs
  fit : xs.all (fits (.record .node)) = true
  read : ∀ d key, d.itemsOf key = xs -> readStmts file d key = ⟨seatedStmts l, []⟩

structure WrittenArm (file : String) (c : Case) (es : Fields) : Prop where
  write : ∀ rest xs, writeCases rest = .ok xs -> writeCases (c :: rest) = .ok (.map es :: xs)
  fit : fieldsFit .arm es = true
  labels : readExprs file (.map es) "labels" = ⟨seatedExprs c.labels, []⟩
  body : readStmts file (.map es) "body" = ⟨seatedStmts c.body, []⟩
  span : spanOf file (.map es) = c.span
  arrow : flagField (.map es) "arrow" = c.arrow

structure WrittenClause (file : String) (c : Catch) (es : Fields) : Prop where
  write : ∀ rest xs, writeCatches rest = .ok xs -> writeCatches (c :: rest) = .ok (.map es :: xs)
  fit : fieldsFit .clause es = true
  param : ((Data.map es).field? "param").map readParam = c.param
  body : readStmts file (.map es) "body" = ⟨seatedStmts c.body.stmts, []⟩
  span : spanOf file (.map es) = c.span
  seat : c.body.span = c.span

structure WrittenCases (file : String) (l : List Case) (xs : List Data) : Prop where
  write : writeCases l = .ok xs
  fit : xs.all (fits (.record .arm)) = true
  read : ∀ d, d.itemsOf "cases" = xs -> readCases file d = ⟨seatedCases l, []⟩

def Returns (file : String) : Node -> Prop
  | .expr e => ∃ es, WrittenExpr file e es
  | .stmt s => (∃ es, WrittenStmt file s es) ∧
      ∀ b, s = .block b -> Placed file b.span ∧ ∃ xs, WrittenStmts file b.stmts xs
  | .arm c => ∃ es, WrittenArm file c es
  | .clause c => ∃ es, WrittenClause file c es
  | .param p => p.span = .nowhere
  | _ => True

section Back

variable {file : String}

@[simp] theorem writing_pure {α : Type} (a : α) : (pure a : Writing α) = .ok a := rfl

@[simp] theorem writing_bind {α β : Type} (a : α) (f : α -> Writing β) :
    ((.ok a : Writing α) >>= f) = f a := rfl

/-- The members of a list are written one by one. -/
theorem written_all {α : Type} {w : List α -> Writing (List Data)} {R : Data -> α -> Prop}
    (hnil : w [] = .ok [])
    (hcons : ∀ x a l xs, R x a -> w l = .ok xs -> w (a :: l) = .ok (x :: xs)) {l : List α}
    (h : ∀ a ∈ l, ∃ x, R x a) : ∃ xs, w l = .ok xs ∧ List.Forall₂ R xs l := by
  induction l with
  | nil => exact ⟨[], hnil, .nil⟩
  | cons a l ih =>
      rw [List.forall_mem_cons] at h
      obtain ⟨x, hx⟩ := h.1
      obtain ⟨xs, hxs, hall⟩ := ih h.2
      exact ⟨x :: xs, hcons x a l xs hx hxs, .cons hx hall⟩

theorem all_fit {α : Type} {shape : Shape} {R : Data -> α -> Prop} {xs : List Data} {l : List α}
    (h : List.Forall₂ R xs l) (hR : ∀ x a, R x a -> fits shape x = true) :
    xs.all (fits shape) = true := by
  induction h with
  | nil => rfl
  | cons hx _ ih => simp [hR _ _ hx, ih]

/-- Operands that are all read back. -/
theorem WrittenExprs.of_forall {l : List Expr} (hfilled : ∀ e ∈ l, e.isMissing = false)
    (h : ∀ e ∈ l, ∃ es, WrittenExpr file e es) : ∃ xs, WrittenExprs file l xs := by
  have hone : ∀ e ∈ l, ∃ x, e.isMissing = false ∧
      ∃ es, x = Data.map es ∧ WrittenExpr file e es := by
    intro e he
    obtain ⟨es, hes⟩ := h e he
    exact ⟨.map es, hfilled e he, es, rfl, hes⟩
  obtain ⟨xs, hwrite, hall⟩ := written_all (w := writeExprs) rfl (by
    rintro x e l xs ⟨_, es, rfl, hes⟩ hxs
    simp [writeExprs, hes.write, hxs]) hone
  refine ⟨xs, hwrite, all_fit hall ?_, fun d key hitems => ?_, hall.length_eq⟩
  · rintro x e ⟨_, es, rfl, hes⟩
    simpa using hes.fit
  · rw [readExprs, seatedExprs_eq]
    refine eachItem_of_forall (hitems ▸ hall.imp ?_)
    rintro x e ⟨hpresent, es, rfl, hes⟩ i
    simp [hes.read, present, hpresent]

theorem WrittenStmts.of_forall {l : List Stmt} (hfilled : ∀ s ∈ l, s.isMissing = false)
    (h : ∀ s ∈ l, ∃ es, WrittenStmt file s es) : ∃ xs, WrittenStmts file l xs := by
  have hone : ∀ s ∈ l, ∃ x, s.isMissing = false ∧
      ∃ es, x = Data.map es ∧ WrittenStmt file s es := by
    intro s hs
    obtain ⟨es, hes⟩ := h s hs
    exact ⟨.map es, hfilled s hs, es, rfl, hes⟩
  obtain ⟨xs, hwrite, hall⟩ := written_all (w := writeStmts) rfl (by
    rintro x s l xs ⟨_, es, rfl, hes⟩ hxs
    simp [writeStmts, hes.write, hxs]) hone
  refine ⟨xs, hwrite, all_fit hall ?_, fun d key hitems => ?_⟩
  · rintro x s ⟨_, es, rfl, hes⟩
    simpa using hes.fit
  · rw [readStmts, seatedStmts_eq]
    refine eachItem_of_forall (hitems ▸ hall.imp ?_)
    rintro x s ⟨hpresent, es, rfl, hes⟩ i
    simp [hes.read, presentStmt, hpresent]

/-- The field of a node that may be empty. -/
theorem optional_written {α : Type} {key : String} (hkey : Record.node.shape key = .record .node)
    {missing : Bool} {w : Writing Data} {empty a : α} {read : Data -> Reading α}
    (hempty : missing = true -> a = empty)
    (h : missing = false -> ∃ es, w = .ok (.map es) ∧ fieldsFit .node es = true ∧
      read (.map es) = ⟨a, []⟩) :
    ∃ piece, unlessMissing missing key w = .ok piece ∧ fieldsFit .node piece = true ∧
      (∀ k, k ≠ key -> piece.lookup k = none) ∧
      ∀ d, d.field? key = (piece.lookup key).filter (fun x => !x.isNull) ->
        optional d key empty (fun x _ => read x) = ⟨a, []⟩ := by
  cases missing with
  | true =>
      refine ⟨[], rfl, rfl, fun _ _ => rfl, fun d hd => ?_⟩
      rw [optional_eq, hd, hempty rfl]
      rfl
  | false =>
      obtain ⟨es, hwrite, hfit, hread⟩ := h rfl
      refine ⟨node key (.map es), ?_, ?_, ?_, fun d hd => ?_⟩
      · simp [unlessMissing, hwrite]
      · simp [hkey, hfit]
      · simp +contextual
      · rw [optional_eq, hd]
        simpa [Option.filter] using hread

theorem exprs_written {l : List Expr} (hfilled : ∀ e ∈ l, e.isMissing = false)
    (h : ∀ e ∈ l, InExpr (Returns file) e) : ∃ xs, WrittenExprs file l xs :=
  WrittenExprs.of_forall hfilled fun e he => ((inExpr_iff (hfilled e he)).1 (h e he)).self

theorem stmts_written {l : List Stmt} (hfilled : ∀ s ∈ l, s.isMissing = false)
    (h : ∀ s ∈ l, InStmt (Returns file) s) : ∃ xs, WrittenStmts file l xs :=
  WrittenStmts.of_forall hfilled fun s hs => ((inStmt_iff (hfilled s hs)).1 (h s hs)).self.1

theorem expr_written {e : Expr} (hfilled : e.isMissing = false) (h : InExpr (Returns file) e) :
    ∃ es, WrittenExpr file e es :=
  ((inExpr_iff hfilled).1 h).self

theorem stmt_written {s : Stmt} (hfilled : s.isMissing = false) (h : InStmt (Returns file) s) :
    ∃ es, WrittenStmt file s es :=
  ((inStmt_iff hfilled).1 h).self.1

theorem optional_expr {k : String} (hk : Record.node.shape k = .record .node) {e : Expr}
    (h : InExpr (Returns file) e) :
    ∃ piece, unlessMissing e.isMissing k (writeExpr e) = .ok piece ∧
      fieldsFit .node piece = true ∧ (∀ k', k' ≠ k -> piece.lookup k' = none) ∧
      ∀ d, d.field? k = (piece.lookup k).filter (fun x => !x.isNull) ->
        optional d k .missing (fun x _ => readExpr file x) = ⟨e.seated, []⟩ := by
  refine optional_written hk (fun hmissing => ?_) fun hfilled => ?_
  · cases e <;> first | rfl | cases hmissing
  · obtain ⟨es, hes⟩ := expr_written hfilled h
    exact ⟨es, hes.write, hes.fit, hes.read⟩

theorem optional_stmt {k : String} (hk : Record.node.shape k = .record .node) {s : Stmt}
    (h : InStmt (Returns file) s) :
    ∃ piece, unlessMissing s.isMissing k (writeStmt s) = .ok piece ∧
      fieldsFit .node piece = true ∧ (∀ k', k' ≠ k -> piece.lookup k' = none) ∧
      ∀ d, d.field? k = (piece.lookup k).filter (fun x => !x.isNull) ->
        optional d k .missing (fun x _ => readStmt file x) = ⟨s.seated, []⟩ := by
  refine optional_written hk (fun hmissing => ?_) fun hfilled => ?_
  · cases s <;> first | rfl | cases hmissing
  · obtain ⟨es, hes⟩ := stmt_written hfilled h
    exact ⟨es, hes.write, hes.fit, hes.read⟩

theorem param_read {p : Param} (h : p.span = .nowhere) : readParam (paramData p) = p := by
  obtain ⟨span, name, type⟩ := p
  have hspan : span = .nowhere := h
  simp [readParam, paramData, lookup_one, hspan]

/-- The parameters of a method or a lambda. -/
theorem params_read {d : Data} {ps : List Param} (hspan : ∀ p ∈ ps, p.span = .nowhere)
    (h : d.itemsOf "params" = ps.map paramData) : readParams d = ps := by
  have hnull : (ps.map paramData).filter (fun x => !x.isNull) = ps.map paramData := by
    rw [List.filter_eq_self, List.forall_mem_map]
    exact fun _ _ => rfl
  rw [readParams, h, hnull, List.map_map]
  exact (List.map_congr_left fun p hp => param_read (hspan p hp)).trans (List.map_id' ps)

theorem params_fit {r : Record} (hr : r.shape "params" = .list (.record .param)) (ps : List Param) :
    fieldsFit r (paramsField ps) = true := by
  simp [paramsField, hr, paramData, fieldsFit_cons]

theorem texts_read {d : Data} {key : String} {l : List String}
    (h : d.itemsOf key = l.map .str) : textsField d key = l := by
  have hnull : (l.map Data.str).filter (fun x => !x.isNull) = l.map .str := by
    rw [List.filter_eq_self, List.forall_mem_map]
    exact fun _ _ => rfl
  rw [textsField, h, hnull, List.filterMap_map]
  exact List.filterMap_some

/-! ### Arms and clauses -/

theorem returns_arm {c : Case} (hs : Placed file c.span)
    (hlabels : ∃ xs, WrittenExprs file c.labels xs) (hbody : ∃ xs, WrittenStmts file c.body xs) :
    Returns file (.arm c) := by
  obtain ⟨s, labels, arrow, body⟩ := c
  obtain ⟨xs, hxs⟩ : ∃ xs, WrittenExprs file labels xs := hlabels
  obtain ⟨ys, hys⟩ : ∃ xs, WrittenStmts file body xs := hbody
  have hs : Placed file s := hs
  refine ⟨place s ++ (items "labels" xs ++ flag "arrow" arrow ++ items "body" ys),
    ?_, ?_, ?_, ?_, ?_, ?_⟩
  · intro rest zs hzs
    simp [writeCases, hxs.write, hys.write, hzs]
  · simp [fieldsFit_place hs, hxs.fit, hys.fit]
  · exact hxs.read _ _ (by simp [List.lookup_append])
  · exact hys.read _ _ (by simp [List.lookup_append])
  · exact spanOf_map hs (by simp [List.lookup_append]) (by simp [List.lookup_append])
  · simp [List.lookup_append, Case.arrow]

theorem WrittenCases.of_forall {l : List Case} (h : ∀ c ∈ l, ∃ es, WrittenArm file c es) :
    ∃ xs, WrittenCases file l xs := by
  have hone : ∀ c ∈ l, ∃ x, ∃ es, x = Data.map es ∧ WrittenArm file c es := by
    intro c hc
    obtain ⟨es, hes⟩ := h c hc
    exact ⟨.map es, es, rfl, hes⟩
  obtain ⟨xs, hwrite, hall⟩ := written_all (w := writeCases) rfl (by
    rintro x c l xs ⟨es, rfl, hes⟩ hxs
    exact hes.write l xs hxs) hone
  refine ⟨xs, hwrite, all_fit hall ?_, fun d hitems => ?_⟩
  · rintro x c ⟨es, rfl, hes⟩
    simpa using hes.fit
  · rw [readCases, seatedCases_eq]
    refine eachItem_of_forall (hitems ▸ hall.imp ?_)
    rintro x c ⟨es, rfl, hes⟩ i
    obtain ⟨s, labels, arrow, body⟩ := c
    simp only [isNull_map, Bool.false_eq_true, if_false, hes.labels, hes.body, hes.span, hes.arrow,
      Reading.bind_clean, Reading.pure_eq]
    rfl

theorem returns_clause {c : Catch} (hs : Placed file c.span) (hseat : c.body.span = c.span)
    (hparam : ∀ p, c.param = some p -> p.span = .nowhere)
    (hbody : ∃ xs, WrittenStmts file c.body.stmts xs) : Returns file (.clause c) := by
  obtain ⟨s, param, ⟨bs, stmts⟩⟩ := c
  obtain ⟨xs, hxs⟩ : ∃ xs, WrittenStmts file stmts xs := hbody
  have hplaced : Placed file s := hs
  cases param with
  | none =>
      refine ⟨place s ++ node "body" (.list xs), ?_, ?_, ?_, ?_, ?_, hseat⟩
      · intro rest zs hzs
        simp [writeCatches, hxs.write, hzs]
      · simp [fieldsFit_place hplaced, hxs.fit]
      · simp [List.lookup_append, Catch.param]
      · exact hxs.read _ _ (by simp [List.lookup_append, Data.items])
      · exact spanOf_map hplaced (by simp [List.lookup_append]) (by simp [List.lookup_append])
  | some p =>
      have hp : readParam (paramData p) = p := param_read (hparam p rfl)
      have hnull : (paramData p).isNull = false := rfl
      have hfit : fits (.record .param) (paramData p) = true := by
        simp [paramData, fieldsFit_cons]
      refine ⟨place s ++ (node "param" (paramData p) ++ node "body" (.list xs)), ?_, ?_, ?_, ?_, ?_,
        hseat⟩
      · intro rest zs hzs
        simp [writeCatches, hxs.write, hzs]
      · simp [fieldsFit_place hplaced, hxs.fit, hfit]
      · simp [List.lookup_append, Option.filter, hnull, hp, Catch.param]
      · exact hxs.read _ _ (by simp [List.lookup_append, Data.items])
      · exact spanOf_map hplaced (by simp [List.lookup_append]) (by simp [List.lookup_append])

theorem catches_written {l : List Catch} (h : ∀ c ∈ l, ∃ es, WrittenClause file c es) :
    ∃ xs, writeCatches l = .ok xs ∧ xs.all (fits (.record .clause)) = true ∧
      ∀ d, d.itemsOf "catches" = xs ->
        eachItem d "catches" (fun _ x _ =>
          if x.isNull then return none
          else do
            let clause ← readStmts file x "body"
            return some (Catch.mk (spanOf file x) ((x.field? "param").map readParam)
              (.mk (spanOf file x) clause))) = ⟨seatedCatches l, []⟩ := by
  have hone : ∀ c ∈ l, ∃ x, ∃ es, x = Data.map es ∧ WrittenClause file c es := by
    intro c hc
    obtain ⟨es, hes⟩ := h c hc
    exact ⟨.map es, es, rfl, hes⟩
  obtain ⟨xs, hwrite, hall⟩ := written_all (w := writeCatches) rfl (by
    rintro x c l xs ⟨es, rfl, hes⟩ hxs
    exact hes.write l xs hxs) hone
  refine ⟨xs, hwrite, all_fit hall ?_, fun d hitems => ?_⟩
  · rintro x c ⟨es, rfl, hes⟩
    simpa using hes.fit
  · rw [seatedCatches_eq]
    refine eachItem_of_forall (hitems ▸ hall.imp ?_)
    rintro x c ⟨es, rfl, hes⟩ i
    obtain ⟨s, param, ⟨bs, stmts⟩⟩ := c
    have hseat : bs = s := hes.seat
    simp only [isNull_map, Bool.false_eq_true, if_false, hes.param, hes.body, hes.span,
      Reading.bind_clean, Reading.pure_eq, Catch.seated, hseat]
    rfl

/-! ### Expressions -/

section Exprs

variable {s : Span}

theorem returns_ident (hs : Placed file s) (name type : String) :
    Returns file (.expr (.ident s name type)) := by
  refine ⟨kind "ident" s ++ (text "name" name ++ text "type" type), ?_, ?_, ?_⟩
  · simp [writeExpr]
  · simp [fieldsFit_kind hs]
  · rw [readExpr]
    simp only [textField_kind]
    simp [List.lookup_append, spanOf_kind hs, Expr.seated]

theorem returns_literal (hs : Placed file s) {value : Literal} (hvalue : ∀ x, value ≠ .float x)
    (raw : String) : Returns file (.expr (.literal s value raw)) := by
  refine ⟨kind "lit" s ++ (literalField value ++ text "raw" raw), ?_, ?_, ?_⟩
  · simp [writeExpr]
  · have hfit : fieldsFit .node (literalField value) = true := by
      cases value with
      | float x => exact absurd rfl (hvalue x)
      | _ => simp [literalField, fieldsFit_cons]
    simp [fieldsFit_kind hs, hfit]
  · rw [readExpr]
    simp only [textField_kind]
    rw [readLiteral, spanOf_kind hs]
    · cases value with
      | float x => exact absurd rfl (hvalue x)
      | int i =>
          have hsize : Int64.maxValue.toInt < UInt64.size := by decide
          have hback := scalar?_ofInt (Int64.minValue_le_toInt i)
            (Int.lt_of_le_of_lt (Int64.toInt_le i) hsize)
          have hnull : (ofInt i.toInt).isNull = false := rfl
          simp [literalField, List.lookup_append, lookup_one, Option.filter, hnull, hback,
            Expr.seated]
      | _ =>
          simp [literalField, List.lookup_append, lookup_one, Option.filter, isNull, scalar?,
            Expr.seated]
    · cases value <;> simp [literalField, lookup_one]
    · cases value <;> simp [literalField, lookup_one]

theorem returns_call (hs : Placed file s) {receiver : Expr} {name type : String}
    {args : List Expr} (hreceiver : InExpr (Returns file) receiver)
    (hargs : ∃ xs, WrittenExprs file args xs) :
    Returns file (.expr (.call s receiver name args type)) := by
  obtain ⟨xs, hxs⟩ := hargs
  obtain ⟨piece, hwrite, hfit, hother, hread⟩ := optional_expr (k := "recv") (by decide) hreceiver
  refine ⟨kind "call" s ++ (text "name" name ++ text "type" type ++ piece ++ items "args" xs),
    ?_, ?_, ?_⟩
  · simp [writeExpr, hwrite, hxs.write]
  · simp [fieldsFit_kind hs, hfit, hxs.fit]
  · rw [readExpr]
    simp only [textField_kind]
    simp [List.lookup_append, spanOf_kind hs, hother, hread, hxs.read, Expr.seated]

theorem returns_field (hs : Placed file s) {target : Expr} {name type : String}
    (htarget : ∃ es, WrittenExpr file target es) :
    Returns file (.expr (.field s target name type)) := by
  obtain ⟨es, hes⟩ := htarget
  refine ⟨kind "field" s ++ (text "name" name ++ text "type" type ++ node "target" (.map es)),
    ?_, ?_, ?_⟩
  · simp [writeExpr, hes.write]
  · simp [fieldsFit_kind hs, hes.fit]
  · rw [readExpr]
    simp only [textField_kind]
    simp [List.lookup_append, spanOf_kind hs, required_eq, Option.filter, hes.read, Expr.seated]

theorem returns_assign (hs : Placed file s) {target value : Expr} {op : Operator}
    (hop : assignOperator op.text = op) (htarget : ∃ es, WrittenExpr file target es)
    (hvalue : ∃ es, WrittenExpr file value es) :
    Returns file (.expr (.assign s target op value)) := by
  obtain ⟨es, hes⟩ := htarget
  obtain ⟨fs, hfs⟩ := hvalue
  refine ⟨kind "assign" s ++ (text "op" op.text ++ node "target" (.map es) ++ node "expr" (.map fs)),
    ?_, ?_, ?_⟩
  · simp [writeExpr, hes.write, hfs.write]
  · simp [fieldsFit_kind hs, hes.fit, hfs.fit]
  · rw [readExpr]
    simp only [textField_kind]
    simp [List.lookup_append, spanOf_kind hs, required_eq, Option.filter, hes.read, hfs.read,
      hop, Expr.seated]

theorem returns_binary (hs : Placed file s) {left right : Expr} {op : Operator}
    (hop : Operator.ofText op.text = op) (hleft : ∃ es, WrittenExpr file left es)
    (hright : ∃ es, WrittenExpr file right es) :
    Returns file (.expr (.binary s left op right)) := by
  obtain ⟨es, hes⟩ := hleft
  obtain ⟨fs, hfs⟩ := hright
  refine ⟨kind "binary" s ++ (text "op" op.text ++ node "left" (.map es) ++ node "right" (.map fs)),
    ?_, ?_, ?_⟩
  · simp [writeExpr, hes.write, hfs.write]
  · simp [fieldsFit_kind hs, hes.fit, hfs.fit]
  · rw [readExpr]
    simp only [textField_kind]
    simp [List.lookup_append, spanOf_kind hs, required_eq, Option.filter, hes.read, hfs.read,
      hop, Expr.seated]

theorem returns_unary (hs : Placed file s) {e : Expr} {op : Operator} {trailing : Bool}
    (hop : Operator.ofText op.text = op) (he : ∃ es, WrittenExpr file e es) :
    Returns file (.expr (.unary s op e trailing)) := by
  obtain ⟨es, hes⟩ := he
  refine ⟨kind "unary" s ++ (text "op" op.text ++ flag "postfix" trailing ++
    node "operand" (.map es)), ?_, ?_, ?_⟩
  · simp [writeExpr, hes.write]
  · simp [fieldsFit_kind hs, hes.fit]
  · rw [readExpr]
    simp only [textField_kind]
    simp [List.lookup_append, spanOf_kind hs, required_eq, Option.filter, hes.read, hop,
      Expr.seated]

theorem returns_conditional (hs : Placed file s) {test onTrue onFalse : Expr} {type : String}
    (htest : ∃ es, WrittenExpr file test es) (honTrue : ∃ es, WrittenExpr file onTrue es)
    (honFalse : ∃ es, WrittenExpr file onFalse es) :
    Returns file (.expr (.conditional s test onTrue onFalse type)) := by
  obtain ⟨es, hes⟩ := htest
  obtain ⟨fs, hfs⟩ := honTrue
  obtain ⟨gs, hgs⟩ := honFalse
  refine ⟨kind "cond" s ++ (text "type" type ++ node "cond" (.map es) ++ node "then" (.map fs) ++
    node "else" (.map gs)), ?_, ?_, ?_⟩
  · simp [writeExpr, hes.write, hfs.write, hgs.write]
  · simp [fieldsFit_kind hs, hes.fit, hfs.fit, hgs.fit]
  · rw [readExpr]
    simp only [textField_kind]
    simp [List.lookup_append, spanOf_kind hs, required_eq, Option.filter, hes.read, hfs.read,
      hgs.read, Expr.seated]

theorem returns_index (hs : Placed file s) {array position : Expr} {type : String}
    (harray : ∃ es, WrittenExpr file array es) (hposition : ∃ es, WrittenExpr file position es) :
    Returns file (.expr (.index s array position type)) := by
  obtain ⟨es, hes⟩ := harray
  obtain ⟨fs, hfs⟩ := hposition
  refine ⟨kind "index" s ++ (text "type" type ++ node "array" (.map es) ++
    node "index" (.map fs)), ?_, ?_, ?_⟩
  · simp [writeExpr, hes.write, hfs.write]
  · simp [fieldsFit_kind hs, hes.fit, hfs.fit]
  · rw [readExpr]
    simp only [textField_kind]
    simp [List.lookup_append, spanOf_kind hs, required_eq, Option.filter, hes.read, hfs.read,
      Expr.seated]

theorem returns_newArray (hs : Placed file s) {elemType : String} {dims elements : List Expr}
    {listed : Bool} (hdims : ∃ xs, WrittenExprs file dims xs)
    (helements : ∃ xs, WrittenExprs file elements xs) :
    Returns file (.expr (.newArray s elemType dims elements listed)) := by
  obtain ⟨xs, hxs⟩ := hdims
  obtain ⟨ys, hys⟩ := helements
  refine ⟨kind "newarray" s ++ (text "type" elemType ++ flag "init_list" listed ++
    items "dims" xs ++ items "elements" ys), ?_, ?_, ?_⟩
  · simp [writeExpr, hxs.write, hys.write]
  · simp [fieldsFit_kind hs, hxs.fit, hys.fit]
  · rw [readExpr]
    simp only [textField_kind]
    simp [List.lookup_append, spanOf_kind hs, hxs.read, hys.read, Expr.seated]

theorem returns_newObject (hs : Placed file s) {className : String} {args : List Expr}
    (hargs : ∃ xs, WrittenExprs file args xs) :
    Returns file (.expr (.newObject s className args)) := by
  obtain ⟨xs, hxs⟩ := hargs
  refine ⟨kind "new" s ++ (text "class" className ++ items "args" xs), ?_, ?_, ?_⟩
  · simp [writeExpr, hxs.write]
  · simp [fieldsFit_kind hs, hxs.fit]
  · rw [readExpr]
    simp only [textField_kind]
    simp [List.lookup_append, spanOf_kind hs, hxs.read, Expr.seated]

theorem returns_switchExpr (hs : Placed file s) {selector : Expr} {cases : List Case}
    {type : String} (hselector : ∃ es, WrittenExpr file selector es)
    (hcases : ∃ xs, WrittenCases file cases xs) :
    Returns file (.expr (.switch s selector cases type)) := by
  obtain ⟨es, hes⟩ := hselector
  obtain ⟨xs, hxs⟩ := hcases
  refine ⟨kind "switchexpr" s ++ (text "type" type ++ node "selector" (.map es) ++
    items "cases" xs), ?_, ?_, ?_⟩
  · simp [writeExpr, hes.write, hxs.write]
  · simp [fieldsFit_kind hs, hes.fit, hxs.fit]
  · rw [readExpr]
    simp only [textField_kind]
    simp [List.lookup_append, spanOf_kind hs, required_eq, Option.filter, hes.read, hxs.read,
      Expr.seated]

theorem returns_template (hs : Placed file s) {processor : String} {fragments : List String}
    {values : List Expr} (hlength : fragments.length = values.length + 1)
    (hvalues : ∃ xs, WrittenExprs file values xs) :
    Returns file (.expr (.template s processor fragments values)) := by
  obtain ⟨xs, hxs⟩ := hvalues
  refine ⟨kind "template" s ++ (text "processor" processor ++ items "values" xs ++
    items "fragments" (fragments.map .str)), ?_, ?_, ?_⟩
  · simp [writeExpr, hxs.write]
  · simp [fieldsFit_kind hs, hxs.fit]
  · rw [readExpr]
    simp only [textField_kind]
    rw [texts_read (l := fragments) (by simp [List.lookup_append])]
    simp [List.lookup_append, spanOf_kind hs, hlength, hxs.length, hxs.read, Expr.seated]

theorem returns_lambda (hs : Placed file s) {params : List Param} {body : Body}
    (hparams : ∀ p ∈ params, p.span = .nowhere)
    (hvalue : ∀ e, body = .value e -> ∃ es, WrittenExpr file e es)
    (hblock : ∀ b, body = .block b -> ∃ xs, WrittenStmts file b.stmts xs) :
    Returns file (.expr (.lambda s params body)) := by
  cases body with
  | value e =>
      obtain ⟨es, hes⟩ := hvalue e rfl
      have hwrite : writeBody (.value e) = .ok (node "expr" (.map es)) := by
        have hwrite := hes.write
        cases e with
        | missing =>
            rw [write_missing.1] at hwrite
            cases hwrite
        | _ => simp [writeBody, hwrite]
      refine ⟨kind "lambda" s ++ (node "expr" (.map es) ++ paramsField params), ?_, ?_, ?_⟩
      · simp [writeExpr, hwrite]
      · simp [fieldsFit_kind hs, hes.fit, params_fit]
      · have hexpr : (Data.map (kind "lambda" s ++ (node "expr" (.map es) ++
            paramsField params))).field? "expr" = some (.map es) := by
          simp [List.lookup_append, Option.filter]
        rw [readExpr]
        simp only [textField_kind]
        rw [params_read hparams (by simp [List.lookup_append, paramsField])]
        split
        next x hx =>
          rw [hexpr] at hx
          cases hx
          simp [List.lookup_append, spanOf_kind hs, paramsField, hes.read, Expr.seated,
            Body.seatedAt]
        next hx =>
          rw [hexpr] at hx
          cases hx
  | block b =>
      obtain ⟨bs, stmts⟩ := b
      obtain ⟨xs, hxs⟩ : ∃ xs, WrittenStmts file stmts xs := hblock _ rfl
      refine ⟨kind "lambda" s ++ (items "body" xs ++ paramsField params), ?_, ?_, ?_⟩
      · simp [writeExpr, writeBody, hxs.write]
      · simp [fieldsFit_kind hs, hxs.fit, params_fit]
      · have hexpr : (Data.map (kind "lambda" s ++ (items "body" xs ++
            paramsField params))).field? "expr" = none := by
          simp [List.lookup_append, paramsField, Option.filter]
        rw [readExpr]
        simp only [textField_kind]
        rw [params_read hparams (by simp [List.lookup_append, paramsField])]
        split
        next x hx =>
          rw [hexpr] at hx
          cases hx
        next hx =>
          simp [List.lookup_append, spanOf_kind hs, paramsField, hxs.read, Expr.seated,
            Body.seatedAt]

end Exprs

/-! ### Statements -/

section Stmts

variable {s : Span}

theorem written_block (hs : Placed file s) {stmts : List Stmt}
    (hstmts : ∃ xs, WrittenStmts file stmts xs) :
    ∃ es, WrittenStmt file (.block (.mk s stmts)) es := by
  obtain ⟨xs, hxs⟩ := hstmts
  refine ⟨kind "block" s ++ items "body" xs, ?_, ?_, ?_⟩
  · simp [writeStmt, hxs.write]
  · simp [fieldsFit_kind hs, hxs.fit]
  · rw [readStmt]
    simp only [textField_kind]
    simp [List.lookup_append, spanOf_kind hs, hxs.read, Stmt.seated]

theorem written_exprStmt (hs : Placed file s) {e : Expr} (he : ∃ es, WrittenExpr file e es) :
    ∃ es, WrittenStmt file (.expr s e) es := by
  obtain ⟨es, hes⟩ := he
  refine ⟨kind "expr" s ++ node "expr" (.map es), ?_, ?_, ?_⟩
  · simp [writeStmt, hes.write]
  · simp [fieldsFit_kind hs, hes.fit]
  · rw [readStmt]
    simp only [textField_kind]
    simp [List.lookup_append, spanOf_kind hs, required_eq, Option.filter, hes.read, Stmt.seated]

theorem written_var (hs : Placed file s) {name type : String} {value : Expr}
    (hvalue : InExpr (Returns file) value) :
    ∃ es, WrittenStmt file (.var s name type value) es := by
  obtain ⟨piece, hwrite, hfit, hother, hread⟩ := optional_expr (k := "expr") (by decide) hvalue
  refine ⟨kind "var" s ++ (text "name" name ++ text "type" type ++ piece), ?_, ?_, ?_⟩
  · simp [writeStmt, hwrite]
  · simp [fieldsFit_kind hs, hfit]
  · rw [readStmt]
    simp only [textField_kind]
    simp [List.lookup_append, spanOf_kind hs, hother, hread, Stmt.seated]

theorem written_ret (hs : Placed file s) {value : Expr} (hvalue : InExpr (Returns file) value) :
    ∃ es, WrittenStmt file (.ret s value) es := by
  obtain ⟨piece, hwrite, hfit, hother, hread⟩ := optional_expr (k := "expr") (by decide) hvalue
  refine ⟨kind "return" s ++ piece, ?_, ?_, ?_⟩
  · simp [writeStmt, hwrite]
  · simp [fieldsFit_kind hs, hfit]
  · rw [readStmt]
    simp only [textField_kind]
    simp [List.lookup_append, spanOf_kind hs, hother, hread, Stmt.seated]

theorem written_throw (hs : Placed file s) {e : Expr} (he : ∃ es, WrittenExpr file e es) :
    ∃ es, WrittenStmt file (.throw s e) es := by
  obtain ⟨es, hes⟩ := he
  refine ⟨kind "throw" s ++ node "expr" (.map es), ?_, ?_, ?_⟩
  · simp [writeStmt, hes.write]
  · simp [fieldsFit_kind hs, hes.fit]
  · rw [readStmt]
    simp only [textField_kind]
    simp [List.lookup_append, spanOf_kind hs, required_eq, Option.filter, hes.read, Stmt.seated]

theorem written_yield (hs : Placed file s) {e : Expr} {implicit : Bool}
    (he : ∃ es, WrittenExpr file e es) : ∃ es, WrittenStmt file (.yield s e implicit) es := by
  obtain ⟨es, hes⟩ := he
  refine ⟨kind "yield" s ++ (flag "implicit" implicit ++ node "expr" (.map es)), ?_, ?_, ?_⟩
  · simp [writeStmt, hes.write]
  · simp [fieldsFit_kind hs, hes.fit]
  · rw [readStmt]
    simp only [textField_kind]
    simp [List.lookup_append, spanOf_kind hs, required_eq, Option.filter, hes.read, Stmt.seated]

theorem written_branch (hs : Placed file s) {test : Expr} {onTrue onFalse : Stmt}
    (htest : ∃ es, WrittenExpr file test es) (honTrue : ∃ es, WrittenStmt file onTrue es)
    (honFalse : InStmt (Returns file) onFalse) :
    ∃ es, WrittenStmt file (.branch s test onTrue onFalse) es := by
  obtain ⟨es, hes⟩ := htest
  obtain ⟨fs, hfs⟩ := honTrue
  obtain ⟨piece, hwrite, hfit, hother, hread⟩ := optional_stmt (k := "else") (by decide) honFalse
  refine ⟨kind "if" s ++ (node "cond" (.map es) ++ node "then" (.map fs) ++ piece), ?_, ?_, ?_⟩
  · simp [writeStmt, hes.write, hfs.write, hwrite]
  · simp [fieldsFit_kind hs, hes.fit, hfs.fit, hfit]
  · rw [readStmt]
    simp only [textField_kind]
    simp [List.lookup_append, spanOf_kind hs, required_eq, Option.filter, hes.read, hfs.read,
      hother, hread, Stmt.seated]

theorem written_forLoop (hs : Placed file s) {init : List Stmt} {test : Expr}
    {update : List Expr} {body : Stmt} (hinit : ∃ xs, WrittenStmts file init xs)
    (htest : InExpr (Returns file) test) (hupdate : ∃ xs, WrittenExprs file update xs)
    (hbody : ∃ es, WrittenStmt file body es) :
    ∃ es, WrittenStmt file (.forLoop s init test update body) es := by
  obtain ⟨xs, hxs⟩ := hinit
  obtain ⟨ys, hys⟩ := hupdate
  obtain ⟨es, hes⟩ := hbody
  obtain ⟨piece, hwrite, hfit, hother, hread⟩ := optional_expr (k := "cond") (by decide) htest
  refine ⟨kind "for" s ++ (piece ++ node "stmt" (.map es) ++ items "update" ys ++
    items "init" xs), ?_, ?_, ?_⟩
  · simp [writeStmt, hxs.write, hys.write, hes.write, hwrite]
  · simp [fieldsFit_kind hs, hxs.fit, hys.fit, hes.fit, hfit]
  · rw [readStmt]
    simp only [textField_kind]
    simp [List.lookup_append, spanOf_kind hs, required_eq, Option.filter, hes.read, hxs.read,
      hys.read, hother, hread, Stmt.seated]

theorem written_forEach (hs : Placed file s) {name type : String} {iterable : Expr} {body : Stmt}
    (hiterable : ∃ es, WrittenExpr file iterable es) (hbody : ∃ es, WrittenStmt file body es) :
    ∃ es, WrittenStmt file (.forEach s name type iterable body) es := by
  obtain ⟨es, hes⟩ := hiterable
  obtain ⟨fs, hfs⟩ := hbody
  refine ⟨kind "foreach" s ++ (text "name" name ++ text "type" type ++ node "expr" (.map es) ++
    node "stmt" (.map fs)), ?_, ?_, ?_⟩
  · simp [writeStmt, hes.write, hfs.write]
  · simp [fieldsFit_kind hs, hes.fit, hfs.fit]
  · rw [readStmt]
    simp only [textField_kind]
    simp [List.lookup_append, spanOf_kind hs, required_eq, Option.filter, hes.read, hfs.read,
      Stmt.seated]

theorem written_whileLoop (hs : Placed file s) {test : Expr} {body : Stmt}
    (htest : ∃ es, WrittenExpr file test es) (hbody : ∃ es, WrittenStmt file body es) :
    ∃ es, WrittenStmt file (.whileLoop s test body) es := by
  obtain ⟨es, hes⟩ := htest
  obtain ⟨fs, hfs⟩ := hbody
  refine ⟨kind "while" s ++ (node "cond" (.map es) ++ node "stmt" (.map fs)), ?_, ?_, ?_⟩
  · simp [writeStmt, hes.write, hfs.write]
  · simp [fieldsFit_kind hs, hes.fit, hfs.fit]
  · rw [readStmt]
    simp only [textField_kind]
    simp [List.lookup_append, spanOf_kind hs, required_eq, Option.filter, hes.read, hfs.read,
      Stmt.seated]

theorem written_doWhile (hs : Placed file s) {test : Expr} {body : Stmt}
    (htest : ∃ es, WrittenExpr file test es) (hbody : ∃ es, WrittenStmt file body es) :
    ∃ es, WrittenStmt file (.doWhile s body test) es := by
  obtain ⟨es, hes⟩ := htest
  obtain ⟨fs, hfs⟩ := hbody
  refine ⟨kind "do" s ++ (node "cond" (.map es) ++ node "stmt" (.map fs)), ?_, ?_, ?_⟩
  · simp [writeStmt, hes.write, hfs.write]
  · simp [fieldsFit_kind hs, hes.fit, hfs.fit]
  · rw [readStmt]
    simp only [textField_kind]
    simp [List.lookup_append, spanOf_kind hs, required_eq, Option.filter, hes.read, hfs.read,
      Stmt.seated]

theorem written_switch (hs : Placed file s) {selector : Expr} {cases : List Case}
    (hselector : ∃ es, WrittenExpr file selector es) (hcases : ∃ xs, WrittenCases file cases xs) :
    ∃ es, WrittenStmt file (.switch s selector cases) es := by
  obtain ⟨es, hes⟩ := hselector
  obtain ⟨xs, hxs⟩ := hcases
  refine ⟨kind "switch" s ++ (node "selector" (.map es) ++ items "cases" xs), ?_, ?_, ?_⟩
  · simp [writeStmt, hes.write, hxs.write]
  · simp [fieldsFit_kind hs, hes.fit, hxs.fit]
  · rw [readStmt]
    simp only [textField_kind]
    simp [List.lookup_append, spanOf_kind hs, required_eq, Option.filter, hes.read, hxs.read,
      Stmt.seated]

theorem written_sync (hs : Placed file s) {monitor : Expr} {stmts : List Stmt}
    (hmonitor : ∃ es, WrittenExpr file monitor es) (hstmts : ∃ xs, WrittenStmts file stmts xs) :
    ∃ es, WrittenStmt file (.sync s monitor (.mk s stmts)) es := by
  obtain ⟨es, hes⟩ := hmonitor
  obtain ⟨xs, hxs⟩ := hstmts
  refine ⟨kind "sync" s ++ (node "expr" (.map es) ++ items "body" xs), ?_, ?_, ?_⟩
  · simp [writeStmt, hes.write, hxs.write]
  · simp [fieldsFit_kind hs, hes.fit, hxs.fit]
  · rw [readStmt]
    simp only [textField_kind]
    simp [List.lookup_append, spanOf_kind hs, required_eq, Option.filter, hes.read, hxs.read,
      Stmt.seated]

theorem written_tryCatch (hs : Placed file s) {resources stmts : List Stmt} {catches : List Catch}
    {cleanup : Option Block} (hresources : ∃ xs, WrittenStmts file resources xs)
    (hstmts : ∃ xs, WrittenStmts file stmts xs)
    (hcatches : ∀ c ∈ catches, ∃ es, WrittenClause file c es)
    (hcleanup : ∀ b, cleanup = some b -> Placed file b.span ∧ ∃ xs, WrittenStmts file b.stmts xs) :
    ∃ es, WrittenStmt file (.tryCatch s resources (.mk s stmts) catches cleanup) es := by
  obtain ⟨xs, hxs⟩ := hresources
  obtain ⟨ys, hys⟩ := hstmts
  obtain ⟨zs, hwrite, hfit, hread⟩ := catches_written hcatches
  cases cleanup with
  | none =>
      refine ⟨kind "try" s ++ (items "resources" xs ++ items "body" ys ++ items "catches" zs),
        ?_, ?_, ?_⟩
      · simp [writeStmt, hxs.write, hys.write, hwrite]
      · simp [fieldsFit_kind hs, hxs.fit, hys.fit, hfit]
      · rw [readStmt]
        simp only [textField_kind]
        rw [hread _ (by simp [List.lookup_append])]
        simp [List.lookup_append, spanOf_kind hs, hxs.read, hys.read, optional_eq, Stmt.seated]
  | some b =>
      obtain ⟨fs, rest⟩ := b
      obtain ⟨hfs, ws, hws⟩ : Placed file fs ∧ ∃ ws, WrittenStmts file rest ws := hcleanup _ rfl
      refine ⟨kind "try" s ++ (items "resources" xs ++ items "body" ys ++ items "catches" zs ++
        node "finally" (.map (kind "block" fs ++ items "body" ws))), ?_, ?_, ?_⟩
      · simp [writeStmt, hxs.write, hys.write, hwrite, hws.write]
      · simp [fieldsFit_kind hs, fieldsFit_kind hfs, hxs.fit, hys.fit, hws.fit, hfit]
      · rw [readStmt]
        simp only [textField_kind]
        rw [hread _ (by simp [List.lookup_append])]
        simp [List.lookup_append, spanOf_kind hs, spanOf_kind hfs, hxs.read, hys.read, hws.read,
          optional_eq, Option.filter, Stmt.seated]

theorem written_labeled (hs : Placed file s) {label : String} {body : Stmt}
    (hbody : ∃ es, WrittenStmt file body es) :
    ∃ es, WrittenStmt file (.labeled s label body) es := by
  obtain ⟨es, hes⟩ := hbody
  refine ⟨kind "labeled" s ++ (text "label" label ++ node "stmt" (.map es)), ?_, ?_, ?_⟩
  · simp [writeStmt, hes.write]
  · simp [fieldsFit_kind hs, hes.fit]
  · rw [readStmt]
    simp only [textField_kind]
    simp [List.lookup_append, spanOf_kind hs, required_eq, Option.filter, hes.read, Stmt.seated]

theorem written_breakTo (hs : Placed file s) (label : String) :
    ∃ es, WrittenStmt file (.breakTo s label) es := by
  refine ⟨kind "break" s ++ text "label" label, ?_, ?_, ?_⟩
  · simp [writeStmt]
  · simp [fieldsFit_kind hs]
  · rw [readStmt]
    simp only [textField_kind]
    simp [List.lookup_append, spanOf_kind hs, Stmt.seated]

theorem written_continueTo (hs : Placed file s) (label : String) :
    ∃ es, WrittenStmt file (.continueTo s label) es := by
  refine ⟨kind "continue" s ++ text "label" label, ?_, ?_, ?_⟩
  · simp [writeStmt]
  · simp [fieldsFit_kind hs]
  · rw [readStmt]
    simp only [textField_kind]
    simp [List.lookup_append, spanOf_kind hs, Stmt.seated]

theorem written_assert (hs : Placed file s) {test message : Expr}
    (htest : ∃ es, WrittenExpr file test es) (hmessage : InExpr (Returns file) message) :
    ∃ es, WrittenStmt file (.assert s test message) es := by
  obtain ⟨es, hes⟩ := htest
  obtain ⟨piece, hwrite, hfit, hother, hread⟩ :=
    optional_expr (k := "message") (by decide) hmessage
  refine ⟨kind "assert" s ++ (node "cond" (.map es) ++ piece), ?_, ?_, ?_⟩
  · simp [writeStmt, hes.write, hwrite]
  · simp [fieldsFit_kind hs, hes.fit, hfit]
  · rw [readStmt]
    simp only [textField_kind]
    simp [List.lookup_append, spanOf_kind hs, required_eq, Option.filter, hes.read, hother, hread,
      Stmt.seated]

end Stmts

/-! ### Trees -/

/-- What is known of the nodes of a list that are never empty. -/
theorem forall_kept {α : Type} {f : α -> Node} {slot : Nat -> Slot} {l : List α} {P : Node -> Prop}
    (h : ∀ x ∈ listed slot (some ∘ f) 0 l, Everywhere P x.2) : ∀ a ∈ l, P (f a) := fun a ha =>
  (forall_listed.1 h a ha (f a) rfl).self

theorem block_written {b : Block} (h : Everywhere (Returns file) (ofBlock b)) :
    ∃ xs, WrittenStmts file b.stmts xs :=
  (h.self.2 b rfl).2

theorem returns_expr {e : Expr} (h : Storable file (.expr e))
    (hbelow : ∀ x ∈ (Node.expr e).slots, Everywhere (Returns file) x.2) :
    Returns file (.expr e) := by
  obtain ⟨hs, hkeeps⟩ := h
  cases e with
  | missing => exact hkeeps.elim
  | ident s name type => exact returns_ident hs name type
  | literal s value raw => exact returns_literal hs hkeeps raw
  | call s receiver name args type =>
      simp only [slots, exprSlots, List.forall_mem_append, forall_single, forall_listed] at hbelow
      exact returns_call hs hbelow.1 (exprs_written hkeeps hbelow.2)
  | field s target name type =>
      simp only [slots, exprSlots, forall_single] at hbelow
      exact returns_field hs (expr_written hkeeps hbelow)
  | assign s target op value =>
      simp only [slots, exprSlots, List.forall_mem_append, forall_single] at hbelow
      obtain ⟨htarget, hvalue, hop⟩ := hkeeps
      exact returns_assign hs hop (expr_written htarget hbelow.1) (expr_written hvalue hbelow.2)
  | binary s left op right =>
      simp only [slots, exprSlots, List.forall_mem_append, forall_single] at hbelow
      obtain ⟨hleft, hright, hop⟩ := hkeeps
      exact returns_binary hs hop (expr_written hleft hbelow.1) (expr_written hright hbelow.2)
  | unary s op operand trailing =>
      simp only [slots, exprSlots, forall_single] at hbelow
      exact returns_unary hs hkeeps.2 (expr_written hkeeps.1 hbelow)
  | conditional s test onTrue onFalse type =>
      simp only [slots, exprSlots, List.forall_mem_append, forall_single] at hbelow
      obtain ⟨htest, honTrue, honFalse⟩ := hkeeps
      exact returns_conditional hs (expr_written htest hbelow.1.1)
        (expr_written honTrue hbelow.1.2) (expr_written honFalse hbelow.2)
  | index s array position type =>
      simp only [slots, exprSlots, List.forall_mem_append, forall_single] at hbelow
      exact returns_index hs (expr_written hkeeps.1 hbelow.1) (expr_written hkeeps.2 hbelow.2)
  | newArray s elemType dims elements isListed =>
      simp only [slots, exprSlots, List.forall_mem_append, forall_listed] at hbelow
      exact returns_newArray hs (exprs_written hkeeps.1 hbelow.1) (exprs_written hkeeps.2 hbelow.2)
  | newObject s className args =>
      simp only [slots, exprSlots, forall_listed] at hbelow
      exact returns_newObject hs (exprs_written hkeeps hbelow)
  | lambda s params body =>
      simp only [slots, exprSlots, List.forall_mem_append] at hbelow
      refine returns_lambda hs (forall_kept hbelow.1) ?_ ?_
      · rintro e rfl
        exact expr_written hkeeps (forall_single.1 hbelow.2)
      · rintro b rfl
        exact block_written (hbelow.2 _ (List.mem_singleton_self _))
  | switch s selector cases type =>
      simp only [slots, exprSlots, List.forall_mem_append, forall_single] at hbelow
      exact returns_switchExpr hs (expr_written hkeeps hbelow.1)
        (WrittenCases.of_forall (forall_kept hbelow.2))
  | template s processor fragments values =>
      simp only [slots, exprSlots, forall_listed] at hbelow
      exact returns_template hs hkeeps.1 (exprs_written hkeeps.2 hbelow)

theorem stmt_back {s : Stmt} (h : Storable file (.stmt s))
    (hbelow : ∀ x ∈ (Node.stmt s).slots, Everywhere (Returns file) x.2) :
    ∃ es, WrittenStmt file s es := by
  obtain ⟨hs, hkeeps⟩ := h
  cases s with
  | missing => exact hkeeps.elim
  | block b =>
      simp only [slots, stmtSlots, forall_listed] at hbelow
      obtain ⟨s, stmts⟩ := b
      exact written_block hs (stmts_written hkeeps hbelow)
  | expr s e =>
      simp only [slots, stmtSlots, forall_single] at hbelow
      exact written_exprStmt hs (expr_written hkeeps hbelow)
  | var s name type value =>
      simp only [slots, stmtSlots, forall_single] at hbelow
      exact written_var hs hbelow
  | ret s value =>
      simp only [slots, stmtSlots, forall_single] at hbelow
      exact written_ret hs hbelow
  | throw s value =>
      simp only [slots, stmtSlots, forall_single] at hbelow
      exact written_throw hs (expr_written hkeeps hbelow)
  | yield s value implicit =>
      simp only [slots, stmtSlots, forall_single] at hbelow
      exact written_yield hs (expr_written hkeeps hbelow)
  | branch s test onTrue onFalse =>
      simp only [slots, stmtSlots, List.forall_mem_append, forall_single] at hbelow
      exact written_branch hs (expr_written hkeeps.1 hbelow.1.1)
        (stmt_written hkeeps.2 hbelow.1.2) hbelow.2
  | forLoop s init test update body =>
      simp only [slots, stmtSlots, List.forall_mem_append, forall_single, forall_listed] at hbelow
      obtain ⟨hinit, hupdate, hbody⟩ := hkeeps
      exact written_forLoop hs (stmts_written hinit hbelow.1.1.1) hbelow.1.1.2
        (exprs_written hupdate hbelow.2) (stmt_written hbody hbelow.1.2)
  | forEach s name type iterable body =>
      simp only [slots, stmtSlots, List.forall_mem_append, forall_single] at hbelow
      exact written_forEach hs (expr_written hkeeps.1 hbelow.1) (stmt_written hkeeps.2 hbelow.2)
  | whileLoop s test body =>
      simp only [slots, stmtSlots, List.forall_mem_append, forall_single] at hbelow
      exact written_whileLoop hs (expr_written hkeeps.1 hbelow.1) (stmt_written hkeeps.2 hbelow.2)
  | doWhile s body test =>
      simp only [slots, stmtSlots, List.forall_mem_append, forall_single] at hbelow
      exact written_doWhile hs (expr_written hkeeps.1 hbelow.2) (stmt_written hkeeps.2 hbelow.1)
  | switch s selector cases =>
      simp only [slots, stmtSlots, List.forall_mem_append, forall_single] at hbelow
      exact written_switch hs (expr_written hkeeps hbelow.1)
        (WrittenCases.of_forall (forall_kept hbelow.2))
  | tryCatch s resources body catches cleanup =>
      simp only [slots, stmtSlots, List.forall_mem_append, List.forall_mem_singleton,
        forall_single] at hbelow
      obtain ⟨⟨⟨hresources, hbody⟩, hcatches⟩, hcleanup⟩ := hbelow
      obtain ⟨bs, stmts⟩ := body
      obtain ⟨hfilled, rfl⟩ : (∀ r ∈ resources, r.isMissing = false) ∧ bs = s := hkeeps
      refine written_tryCatch hs (stmts_written hfilled (forall_listed.1 hresources))
        (block_written hbody) (forall_kept hcatches) ?_
      rintro b rfl
      exact (hcleanup _ rfl).self.2 b rfl
  | sync s monitor body =>
      simp only [slots, stmtSlots, List.forall_mem_append, List.forall_mem_singleton,
        forall_single] at hbelow
      obtain ⟨bs, stmts⟩ := body
      obtain ⟨hmonitor, rfl⟩ : monitor.isMissing = false ∧ bs = s := hkeeps
      exact written_sync hs (expr_written hmonitor hbelow.1) (block_written hbelow.2)
  | labeled s label body =>
      simp only [slots, stmtSlots, forall_single] at hbelow
      exact written_labeled hs (stmt_written hkeeps hbelow)
  | breakTo s label => exact written_breakTo hs label
  | continueTo s label => exact written_continueTo hs label
  | assert s test message =>
      simp only [slots, stmtSlots, List.forall_mem_append, forall_single] at hbelow
      exact written_assert hs (expr_written hkeeps hbelow.1) hbelow.2

/-- A tree that can be stored is read back. -/
theorem returns_everywhere {n : Node} (h : Everywhere (Storable file) n) :
    Everywhere (Returns file) n := by
  refine h.induct fun n hn hbelow => ?_
  cases n with
  | unit | method => trivial
  | param => exact hn
  | expr e => exact returns_expr hn hbelow
  | stmt s =>
      refine ⟨stmt_back hn hbelow, ?_⟩
      rintro b rfl
      simp only [slots, stmtSlots, forall_listed] at hbelow
      exact ⟨hn.1, stmts_written hn.2 hbelow⟩
  | arm c =>
      simp only [slots, List.forall_mem_append, forall_listed] at hbelow
      obtain ⟨hs, hlabels, hbody⟩ := hn
      exact returns_arm hs (exprs_written hlabels hbelow.1) (stmts_written hbody hbelow.2)
  | clause c =>
      simp only [slots, List.forall_mem_append, List.forall_mem_singleton, forall_single] at hbelow
      refine returns_clause hn.1 hn.2 ?_ (block_written hbelow.2)
      intro p hp
      exact (hbelow.1 (.param p) (by rw [hp]; rfl)).self

/-! ### Units -/

theorem method_read {m : Method} (h : Storable file (.method m))
    (hparams : ∀ p ∈ m.params, p.span = .nowhere)
    (hbody : ∀ b, m.body = some b -> ∃ xs, WrittenStmts file b.stmts xs) :
    ∃ es, writeMethod m = .ok (.map es) ∧ fieldsFit .method es = true ∧
      readMethod file (.map es) = ⟨m.seated, []⟩ := by
  obtain ⟨hs, hname, stmts, hsome⟩ := h
  obtain ⟨xs, hxs⟩ : ∃ xs, WrittenStmts file stmts xs := hbody _ hsome
  have hempty : m.name.isEmpty = false := by simpa using hname
  refine ⟨("name", .str m.name) :: (text "returns" m.returns ++ place m.span ++
    paramsField m.params ++ node "body" (.list xs)), ?_, ?_, ?_⟩
  · simp [writeMethod, hsome, Block.stmts, hxs.write]
  · simp [fieldsFit_cons, fieldsFit_place hs, params_fit, hxs.fit]
  · have hspan : spanOf file (.map (("name", .str m.name) :: (text "returns" m.returns ++
        place m.span ++ paramsField m.params ++ node "body" (.list xs)))) = m.span := by
      refine spanOf_map hs ?_ ?_ <;> simp [lookup_one, List.lookup_append, paramsField]
    rw [readMethod, hspan,
      hxs.read _ _ (by simp [lookup_one, List.lookup_append, paramsField, Data.items]),
      params_read hparams (by simp [lookup_one, List.lookup_append, paramsField])]
    simp [lookup_one, List.lookup_append, paramsField, hname, Method.seated, hsome, Block.stmts,
      Block.span]

theorem methods_read {l : List Method} {xs : List Data}
    (h : List.Forall₂ (fun x m => x.isNull = false ∧ readMethod file x = ⟨m.seated, []⟩) xs l) :
    (xs.filter fun x => !x.isNull).map (readMethod file) = l.map fun m => ⟨m.seated, []⟩ := by
  induction h with
  | nil => rfl
  | cons hx _ ih => simp [hx.1, hx.2, ih]

theorem checkFormat_current : checkFormat currentFormat = .ok () := by
  have hok : (checkFormat currentFormat).isOk = true := by decide +kernel
  cases h : checkFormat currentFormat with
  | ok => rfl
  | error fault =>
      rw [h] at hok
      cases hok

/-- A unit that can be stored is read back under every name, its lambdas seated. -/
theorem unit_read {u : CompilationUnit} (h : Everywhere (Storable file) (.unit u)) :
    ∃ d, write u = .ok d ∧ ∀ name, read name d = .ok u.seated := by
  obtain ⟨⟨hspan, rfl, hnonempty⟩, hmethods⟩ := everywhere_iff.1 h
  have hone : ∀ m ∈ u.methods, ∃ x, ∃ es, x = Data.map es ∧ writeMethod m = .ok (.map es) ∧
      fieldsFit .method es = true ∧ readMethod u.file (.map es) = ⟨m.seated, []⟩ := by
    intro m hm
    have hstorable := forall_listed.1 hmethods m hm (.method m) rfl
    have hbelow := (everywhere_iff.1 (returns_everywhere hstorable)).2
    simp only [slots, List.forall_mem_append, forall_single] at hbelow
    obtain ⟨es, hes⟩ := method_read hstorable.self (forall_kept hbelow.1) fun b hb =>
      block_written (hbelow.2 (ofBlock b) (by rw [hb]; rfl))
    exact ⟨.map es, es, rfl, hes⟩
  obtain ⟨xs, hwrite, hall⟩ := written_all (w := writeMethods) rfl (by
    rintro x m l xs ⟨es, rfl, hes, _⟩ hxs
    simp [writeMethods, hes, hxs]) hone
  have hfit : xs.all (fits (.record .method)) = true := by
    refine all_fit hall ?_
    rintro x m ⟨es, rfl, _, hes, _⟩
    simpa using hes
  have hread := methods_read (hall.imp fun x m hx => by
    obtain ⟨es, rfl, _, _, hes⟩ := hx
    exact ⟨rfl, hes⟩)
  refine ⟨.map [("format", .str currentFormat), ("unit", .map (("file", .str u.file) ::
    (text "package" u.package ++ node "methods" (.list xs))))], by simp [write, hwrite],
    fun name => ?_⟩
  have hfits : fits (.record .document) (.map [("format", .str currentFormat), ("unit", .map
      (("file", .str u.file) :: (text "package" u.package ++ node "methods" (.list xs))))]) =
        true := by
    simp [fieldsFit_cons, hfit]
  rw [read, hfits]
  simp [lookup_one, checkFormat_current, Option.filter, hnonempty, List.lookup_append, Data.items,
    hread, CompilationUnit.seated, ← hspan]
  rfl

end Back

end EarlyExit.Document
