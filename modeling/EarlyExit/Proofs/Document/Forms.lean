import EarlyExit.Proofs.Document.Readings

/-!
# What a reading without problems found

A node that is read without a problem has one of the forms below: the kind its map names,
with every part read from the field that the kind keeps it in.  Items of lists stand in the
order of their entries; only null entries have no item.  Nothing is assumed of the document.
-/

namespace EarlyExit

namespace Data

/-- The entries of a list field that are not null. -/
def entriesOf (d : Data) (key : String) : List Data :=
  (d.itemsOf key).filter fun x => !x.isNull

theorem mem_entriesOf {d x : Data} {key : String} :
    x ∈ d.entriesOf key ↔ x ∈ d.itemsOf key ∧ x.isNull = false := by
  simp [entriesOf]

theorem sizeOf_mem_entriesOf {d x : Data} {key : String} (h : x ∈ d.entriesOf key) :
    sizeOf x < sizeOf d :=
  sizeOf_mem_itemsOf (mem_entriesOf.1 h).1

end Data

namespace Document

open Data

/-! ## Forms -/

section Forms

variable (file : String) (d : Data)

/-- The field is read as an expression. -/
def GivesExpr (key : String) (e : Expr) : Prop :=
  ∃ x, d.field? key = some x ∧ readExpr file x = ⟨e, []⟩

def GivesStmt (key : String) (s : Stmt) : Prop :=
  ∃ x, d.field? key = some x ∧ readStmt file x = ⟨s, []⟩

def MayGiveExpr (key : String) (e : Expr) : Prop :=
  (d.field? key = none ∧ e = .missing) ∨ GivesExpr file d key e

def MayGiveStmt (key : String) (s : Stmt) : Prop :=
  (d.field? key = none ∧ s = .missing) ∨ GivesStmt file d key s

def GivesExprs (key : String) (l : List Expr) : Prop :=
  List.Forall₂ (fun x e => readExpr file x = ⟨e, []⟩) (d.entriesOf key) l

def GivesStmts (key : String) (l : List Stmt) : Prop :=
  List.Forall₂ (fun x s => readStmt file x = ⟨s, []⟩) (d.entriesOf key) l

def ArmForm (c : Case) : Prop :=
  ∃ labels body, GivesExprs file d "labels" labels ∧ GivesStmts file d "body" body ∧
    c = .mk (spanOf file d) labels (flagField d "arrow") body

def ClauseForm (c : Catch) : Prop :=
  ∃ body, GivesStmts file d "body" body ∧
    c = .mk (spanOf file d) ((d.field? "param").map readParam) (.mk (spanOf file d) body)

def GivesCases (l : List Case) : Prop :=
  List.Forall₂ (ArmForm file) (d.entriesOf "cases") l

def GivesCatches (l : List Catch) : Prop :=
  List.Forall₂ (ClauseForm file) (d.entriesOf "catches") l

/-- The block that runs at the end; only the body of its map is read. -/
def GivesCleanup (cleanup : Option Block) : Prop :=
  (d.field? "finally" = none ∧ cleanup = none) ∨
    ∃ x l, d.field? "finally" = some x ∧ GivesStmts file x "body" l ∧
      cleanup = some (.mk (spanOf file x) l)

inductive ExprForm : Expr -> Prop
  | ident (kind : textField d "kind" = "ident") :
      ExprForm (.ident (spanOf file d) (textField d "name") (textField d "type"))
  | literal (kind : textField d "kind" = "lit") (value : Literal) :
      ExprForm (.literal (spanOf file d) value (textField d "raw"))
  | call (kind : textField d "kind" = "call") {receiver : Expr} {args : List Expr}
      (receiver_read : MayGiveExpr file d "recv" receiver)
      (args_read : GivesExprs file d "args" args) :
      ExprForm (.call (spanOf file d) receiver (textField d "name") args (textField d "type"))
  | field (kind : textField d "kind" = "field") {target : Expr}
      (target_read : GivesExpr file d "target" target) :
      ExprForm (.field (spanOf file d) target (textField d "name") (textField d "type"))
  | assign (kind : textField d "kind" = "assign") {target value : Expr}
      (target_read : GivesExpr file d "target" target)
      (value_read : GivesExpr file d "expr" value) :
      ExprForm (.assign (spanOf file d) target (assignOperator (textField d "op")) value)
  | binary (kind : textField d "kind" = "binary") {left right : Expr}
      (left_read : GivesExpr file d "left" left) (right_read : GivesExpr file d "right" right) :
      ExprForm (.binary (spanOf file d) left (.ofText (textField d "op")) right)
  | unary (kind : textField d "kind" = "unary") {operand : Expr}
      (operand_read : GivesExpr file d "operand" operand) :
      ExprForm (.unary (spanOf file d) (.ofText (textField d "op")) operand
        (flagField d "postfix"))
  | conditional (kind : textField d "kind" = "cond") {test onTrue onFalse : Expr}
      (test_read : GivesExpr file d "cond" test) (onTrue_read : GivesExpr file d "then" onTrue)
      (onFalse_read : GivesExpr file d "else" onFalse) :
      ExprForm (.conditional (spanOf file d) test onTrue onFalse (textField d "type"))
  | index (kind : textField d "kind" = "index") {array position : Expr}
      (array_read : GivesExpr file d "array" array)
      (position_read : GivesExpr file d "index" position) :
      ExprForm (.index (spanOf file d) array position (textField d "type"))
  | newArray (kind : textField d "kind" = "newarray") {dims elements : List Expr}
      (dims_read : GivesExprs file d "dims" dims)
      (elements_read : GivesExprs file d "elements" elements) :
      ExprForm (.newArray (spanOf file d) (textField d "type") dims elements
        (flagField d "init_list"))
  | newObject (kind : textField d "kind" = "new") {args : List Expr}
      (args_read : GivesExprs file d "args" args) :
      ExprForm (.newObject (spanOf file d) (textField d "class") args)
  | lambda (kind : textField d "kind" = "lambda") {e : Expr}
      (value_read : GivesExpr file d "expr" e) :
      ExprForm (.lambda (spanOf file d) (readParams d) (.value e))
  | lambdaBlock (kind : textField d "kind" = "lambda") {l : List Stmt}
      (no_value : d.field? "expr" = none) (body_read : GivesStmts file d "body" l) :
      ExprForm (.lambda (spanOf file d) (readParams d) (.block (.mk (spanOf file d) l)))
  | switch (kind : textField d "kind" = "switchexpr") {selector : Expr} {cases : List Case}
      (selector_read : GivesExpr file d "selector" selector)
      (cases_read : GivesCases file d cases) :
      ExprForm (.switch (spanOf file d) selector cases (textField d "type"))
  | template (kind : textField d "kind" = "template") {values : List Expr}
      (values_read : GivesExprs file d "values" values)
      (count : (textsField d "fragments").length = values.length + 1) :
      ExprForm (.template (spanOf file d) (textField d "processor") (textsField d "fragments")
        values)

inductive StmtForm : Stmt -> Prop
  | block (kind : textField d "kind" = "block") {l : List Stmt}
      (body_read : GivesStmts file d "body" l) : StmtForm (.block (.mk (spanOf file d) l))
  | expr (kind : textField d "kind" = "expr") {e : Expr}
      (value_read : GivesExpr file d "expr" e) : StmtForm (.expr (spanOf file d) e)
  | var (kind : textField d "kind" = "var") {e : Expr}
      (value_read : MayGiveExpr file d "expr" e) :
      StmtForm (.var (spanOf file d) (textField d "name") (textField d "type") e)
  | ret (kind : textField d "kind" = "return") {e : Expr}
      (value_read : MayGiveExpr file d "expr" e) : StmtForm (.ret (spanOf file d) e)
  | throw (kind : textField d "kind" = "throw") {e : Expr}
      (value_read : GivesExpr file d "expr" e) : StmtForm (.throw (spanOf file d) e)
  | yield (kind : textField d "kind" = "yield") {e : Expr}
      (value_read : GivesExpr file d "expr" e) :
      StmtForm (.yield (spanOf file d) e (flagField d "implicit"))
  | branch (kind : textField d "kind" = "if") {test : Expr} {onTrue onFalse : Stmt}
      (test_read : GivesExpr file d "cond" test) (onTrue_read : GivesStmt file d "then" onTrue)
      (onFalse_read : MayGiveStmt file d "else" onFalse) :
      StmtForm (.branch (spanOf file d) test onTrue onFalse)
  | forLoop (kind : textField d "kind" = "for") {init : List Stmt} {test : Expr}
      {update : List Expr} {body : Stmt} (init_read : GivesStmts file d "init" init)
      (test_read : MayGiveExpr file d "cond" test)
      (update_read : GivesExprs file d "update" update)
      (body_read : GivesStmt file d "stmt" body) :
      StmtForm (.forLoop (spanOf file d) init test update body)
  | forEach (kind : textField d "kind" = "foreach") {iterable : Expr} {body : Stmt}
      (iterable_read : GivesExpr file d "expr" iterable)
      (body_read : GivesStmt file d "stmt" body) :
      StmtForm (.forEach (spanOf file d) (textField d "name") (textField d "type") iterable body)
  | whileLoop (kind : textField d "kind" = "while") {test : Expr} {body : Stmt}
      (test_read : GivesExpr file d "cond" test) (body_read : GivesStmt file d "stmt" body) :
      StmtForm (.whileLoop (spanOf file d) test body)
  | doWhile (kind : textField d "kind" = "do") {test : Expr} {body : Stmt}
      (body_read : GivesStmt file d "stmt" body) (test_read : GivesExpr file d "cond" test) :
      StmtForm (.doWhile (spanOf file d) body test)
  | switch (kind : textField d "kind" = "switch") {selector : Expr} {cases : List Case}
      (selector_read : GivesExpr file d "selector" selector)
      (cases_read : GivesCases file d cases) :
      StmtForm (.switch (spanOf file d) selector cases)
  | tryCatch (kind : textField d "kind" = "try") {resources body : List Stmt}
      {catches : List Catch} {cleanup : Option Block}
      (resources_read : GivesStmts file d "resources" resources)
      (body_read : GivesStmts file d "body" body) (catches_read : GivesCatches file d catches)
      (cleanup_read : GivesCleanup file d cleanup) :
      StmtForm (.tryCatch (spanOf file d) resources (.mk (spanOf file d) body) catches cleanup)
  | sync (kind : textField d "kind" = "sync") {monitor : Expr} {body : List Stmt}
      (monitor_read : GivesExpr file d "expr" monitor)
      (body_read : GivesStmts file d "body" body) :
      StmtForm (.sync (spanOf file d) monitor (.mk (spanOf file d) body))
  | labeled (kind : textField d "kind" = "labeled") {body : Stmt}
      (body_read : GivesStmt file d "stmt" body) :
      StmtForm (.labeled (spanOf file d) (textField d "label") body)
  | breakTo (kind : textField d "kind" = "break") :
      StmtForm (.breakTo (spanOf file d) (textField d "label"))
  | continueTo (kind : textField d "kind" = "continue") :
      StmtForm (.continueTo (spanOf file d) (textField d "label"))
  | assert (kind : textField d "kind" = "assert") {test message : Expr}
      (test_read : GivesExpr file d "cond" test)
      (message_read : MayGiveExpr file d "message" message) :
      StmtForm (.assert (spanOf file d) test message)

end Forms

section Inversion

variable {file : String} {d : Data} {key : String}

theorem ExprForm.filled {e : Expr} (h : ExprForm file d e) : e.isMissing = false := by
  cases h <;> rfl

theorem StmtForm.filled {s : Stmt} (h : StmtForm file d s) : s.isMissing = false := by
  cases h <;> rfl

/-! ## Fields -/

theorem givesExpr_of_required {e : Expr}
    (h : required file d key .missing (fun x _ => readExpr file x) = ⟨e, []⟩) :
    GivesExpr file d key e :=
  required_eq_clean.1 h

theorem givesStmt_of_required {s : Stmt}
    (h : required file d key .missing (fun x _ => readStmt file x) = ⟨s, []⟩) :
    GivesStmt file d key s :=
  required_eq_clean.1 h

theorem mayGiveExpr_of_optional {e : Expr}
    (h : optional d key .missing (fun x _ => readExpr file x) = ⟨e, []⟩) :
    MayGiveExpr file d key e :=
  optional_eq_clean.1 h

theorem mayGiveStmt_of_optional {s : Stmt}
    (h : optional d key .missing (fun x _ => readStmt file x) = ⟨s, []⟩) :
    MayGiveStmt file d key s :=
  optional_eq_clean.1 h

/-- A list is read entry by entry, if no item is made of a null and one of everything else. -/
theorem eachItem_forall₂ {α : Type} {f : Nat -> Data -> Reading (Option α)}
    {R : Data -> α -> Prop} {as : List α}
    (hnull : ∀ i x b, x.isNull = true -> f i x = ⟨b, []⟩ -> b = none)
    (hitem : ∀ i, ∀ x ∈ d.entriesOf key, ∀ b, f i x = ⟨b, []⟩ -> ∃ a, b = some a ∧ R x a)
    (h : eachItem d key (fun i x _ => f i x) = ⟨as, []⟩) :
    List.Forall₂ R (d.entriesOf key) as := by
  have hgo : ∀ (xs : List Data) (as : List α) (i : Nat) (small : ∀ x ∈ xs, sizeOf x < sizeOf d),
      (∀ i, ∀ x ∈ xs.filter (fun x => !x.isNull), ∀ b, f i x = ⟨b, []⟩ ->
        ∃ a, b = some a ∧ R x a) ->
      eachItem.go d (fun i x _ => f i x) i xs small = ⟨as, []⟩ ->
      List.Forall₂ R (xs.filter fun x => !x.isNull) as := by
    intro xs
    induction xs with
    | nil =>
        intro as i small _ heq
        cases heq
        exact .nil
    | cons x xs ih =>
        intro as i small hitem heq
        rw [eachItem.go] at heq
        obtain ⟨b, hb, heq⟩ := Reading.bind_eq_clean.1 heq
        obtain ⟨bs, hbs, heq⟩ := Reading.bind_eq_clean.1 heq
        cases hx : x.isNull with
        | true =>
            obtain rfl := hnull i x b hx hb
            cases heq
            rw [List.filter_cons_of_neg (by simp [hx])]
            refine ih bs (i + 1) _ (fun j y hy => hitem j y ?_) hbs
            rwa [List.filter_cons_of_neg (by simp [hx])]
        | false =>
            rw [List.filter_cons_of_pos (by simp [hx])] at hitem ⊢
            obtain ⟨a, rfl, hR⟩ := hitem i x List.mem_cons_self b hb
            cases heq
            exact .cons hR (ih bs (i + 1) _
              (fun j y hy => hitem j y (List.mem_cons_of_mem _ hy)) hbs)
  exact hgo _ as 0 _ hitem h

/-! ## Nodes -/

/-- What is read from data has a form. -/
def HasForm (file : String) (d : Data) : Prop :=
  (∀ e, readExpr file d = ⟨e, []⟩ -> ExprForm file d e) ∧
    ∀ s, readStmt file d = ⟨s, []⟩ -> StmtForm file d s

section Step

variable (ih : ∀ x, sizeOf x < sizeOf d -> HasForm file x)

include ih

/-- A null operand is a problem, so no entry of the list is null. -/
theorem exprs_form {l : List Expr} (h : readExprs file d key = ⟨l, []⟩) :
    GivesExprs file d key l ∧ l.length = (d.itemsOf key).length := by
  rw [readExprs] at h
  constructor
  · refine eachItem_forall₂ (fun i x b hx hread => ?_) (fun i x hx b hread => ?_) h
    · rw [if_pos hx] at hread
      exact absurd hread Reading.report_ne_clean
    · rw [if_neg (by simp [(mem_entriesOf.1 hx).2])] at hread
      obtain ⟨e, he, hpresent⟩ := Reading.bind_eq_clean.1 hread
      have hfilled := ((ih x (sizeOf_mem_entriesOf hx)).1 e he).filled
      cases hpresent
      exact ⟨e, by rw [present, hfilled]; rfl, he⟩
  · refine length_eachItem (fun i x hx hread => ?_) h
    split at hread
    · exact Reading.report_ne_clean hread
    · obtain ⟨e, he, hpresent⟩ := Reading.bind_eq_clean.1 hread
      have hfilled := ((ih x (sizeOf_mem_itemsOf hx)).1 e he).filled
      rw [present, hfilled] at hpresent
      cases hpresent

theorem stmts_form {l : List Stmt} (h : readStmts file d key = ⟨l, []⟩) :
    GivesStmts file d key l := by
  rw [readStmts] at h
  refine eachItem_forall₂ (fun i x b hx hread => ?_) (fun i x hx b hread => ?_) h
  · rw [if_pos hx] at hread
    cases hread
    rfl
  · rw [if_neg (by simp [(mem_entriesOf.1 hx).2])] at hread
    obtain ⟨s, hs, hpresent⟩ := Reading.bind_eq_clean.1 hread
    have hfilled := ((ih x (sizeOf_mem_entriesOf hx)).2 s hs).filled
    cases hpresent
    exact ⟨s, by rw [presentStmt, hfilled]; rfl, hs⟩

theorem cases_form {l : List Case} (h : readCases file d = ⟨l, []⟩) : GivesCases file d l := by
  rw [readCases] at h
  refine eachItem_forall₂ (fun i x b hx hread => ?_) (fun i x hx b hread => ?_) h
  · rw [if_pos hx] at hread
    cases hread
    rfl
  · rw [if_neg (by simp [(mem_entriesOf.1 hx).2])] at hread
    have hsmall := sizeOf_mem_entriesOf hx
    obtain ⟨labels, hlabels, hread⟩ := Reading.bind_eq_clean.1 hread
    obtain ⟨body, hbody, hread⟩ := Reading.bind_eq_clean.1 hread
    cases hread
    exact ⟨_, rfl, labels, body, (exprs_form (fun y hy => ih y (hy.trans hsmall)) hlabels).1,
      stmts_form (fun y hy => ih y (hy.trans hsmall)) hbody, rfl⟩

theorem catches_form {l : List Catch}
    (h : eachItem d "catches" (fun _ x _ =>
      if x.isNull then return none
      else do
        let clause ← readStmts file x "body"
        return some (Catch.mk (spanOf file x) ((x.field? "param").map readParam)
          (.mk (spanOf file x) clause))) = ⟨l, []⟩) :
    GivesCatches file d l := by
  refine eachItem_forall₂ (fun i x b hx hread => ?_) (fun i x hx b hread => ?_) h
  · rw [if_pos hx] at hread
    cases hread
    rfl
  · rw [if_neg (by simp [(mem_entriesOf.1 hx).2])] at hread
    have hsmall := sizeOf_mem_entriesOf hx
    obtain ⟨body, hbody, hread⟩ := Reading.bind_eq_clean.1 hread
    cases hread
    exact ⟨_, rfl, body, stmts_form (fun y hy => ih y (hy.trans hsmall)) hbody, rfl⟩

theorem cleanup_form {cleanup : Option Block}
    (h : optional d "finally" none (fun x _ => do
      let stmts ← readStmts file x "body"
      return some (Block.mk (spanOf file x) stmts)) = ⟨cleanup, []⟩) :
    GivesCleanup file d cleanup := by
  rcases optional_eq_clean.1 h with hnone | ⟨x, hx, hread⟩
  · exact .inl hnone
  · obtain ⟨body, hbody, hread⟩ := Reading.bind_eq_clean.1 hread
    cases hread
    exact .inr ⟨x, body, hx, stmts_form (fun y hy => ih y (hy.trans (sizeOf_field? hx))) hbody, rfl⟩

end Step

theorem literal_form {e : Expr} (hkind : textField d "kind" = "lit")
    (h : readLiteral file d = ⟨e, []⟩) : ExprForm file d e := by
  unfold readLiteral at h
  split at h
  next =>
    cases h
    exact .literal hkind _
  next x _ =>
    split at h
    next => cases h; exact .literal hkind _
    next => cases h; exact .literal hkind _
    next => cases h; exact .literal hkind _
    next => cases h; exact .literal hkind _
    next => cases h; exact .literal hkind _
    next => exact absurd h Reading.report_ne_clean

section Step

variable (ih : ∀ x, sizeOf x < sizeOf d -> HasForm file x)

include ih

theorem readExpr_form {e : Expr} (h : readExpr file d = ⟨e, []⟩) : ExprForm file d e := by
  rw [readExpr] at h
  split at h
  next hkind =>
    cases h
    exact .ident hkind
  next hkind => exact literal_form hkind h
  next hkind =>
    obtain ⟨receiver, hreceiver, h⟩ := Reading.bind_eq_clean.1 h
    obtain ⟨args, hargs, h⟩ := Reading.bind_eq_clean.1 h
    cases h
    exact .call hkind (mayGiveExpr_of_optional hreceiver) (exprs_form ih hargs).1
  next hkind =>
    obtain ⟨target, htarget, h⟩ := Reading.bind_eq_clean.1 h
    cases h
    exact .field hkind (givesExpr_of_required htarget)
  next hkind =>
    obtain ⟨target, htarget, h⟩ := Reading.bind_eq_clean.1 h
    obtain ⟨value, hvalue, h⟩ := Reading.bind_eq_clean.1 h
    cases h
    exact .assign hkind (givesExpr_of_required htarget) (givesExpr_of_required hvalue)
  next hkind =>
    obtain ⟨left, hleft, h⟩ := Reading.bind_eq_clean.1 h
    obtain ⟨right, hright, h⟩ := Reading.bind_eq_clean.1 h
    cases h
    exact .binary hkind (givesExpr_of_required hleft) (givesExpr_of_required hright)
  next hkind =>
    obtain ⟨operand, hoperand, h⟩ := Reading.bind_eq_clean.1 h
    cases h
    exact .unary hkind (givesExpr_of_required hoperand)
  next hkind =>
    obtain ⟨test, htest, h⟩ := Reading.bind_eq_clean.1 h
    obtain ⟨onTrue, honTrue, h⟩ := Reading.bind_eq_clean.1 h
    obtain ⟨onFalse, honFalse, h⟩ := Reading.bind_eq_clean.1 h
    cases h
    exact .conditional hkind (givesExpr_of_required htest) (givesExpr_of_required honTrue)
      (givesExpr_of_required honFalse)
  next hkind =>
    obtain ⟨array, harray, h⟩ := Reading.bind_eq_clean.1 h
    obtain ⟨position, hposition, h⟩ := Reading.bind_eq_clean.1 h
    cases h
    exact .index hkind (givesExpr_of_required harray) (givesExpr_of_required hposition)
  next hkind =>
    obtain ⟨dims, hdims, h⟩ := Reading.bind_eq_clean.1 h
    obtain ⟨elements, helements, h⟩ := Reading.bind_eq_clean.1 h
    cases h
    exact .newArray hkind (exprs_form ih hdims).1 (exprs_form ih helements).1
  next hkind =>
    obtain ⟨args, hargs, h⟩ := Reading.bind_eq_clean.1 h
    cases h
    exact .newObject hkind (exprs_form ih hargs).1
  next hkind =>
    dsimp only at h
    split at h
    next x hx =>
      obtain ⟨e, he, h⟩ := Reading.bind_eq_clean.1 h
      simp only [Reading.pure_eq, Reading.bind_clean] at h
      cases h
      exact .lambda hkind ⟨x, hx, he⟩
    next hnone =>
      obtain ⟨stmts, hstmts, h⟩ := Reading.bind_eq_clean.1 h
      simp only [Reading.pure_eq, Reading.bind_clean] at h
      cases h
      exact .lambdaBlock hkind hnone (stmts_form ih hstmts)
  next hkind =>
    obtain ⟨selector, hselector, h⟩ := Reading.bind_eq_clean.1 h
    obtain ⟨cases, hcases, h⟩ := Reading.bind_eq_clean.1 h
    cases h
    exact .switch hkind (givesExpr_of_required hselector) (cases_form ih hcases)
  next hkind =>
    dsimp only at h
    split at h
    next => exact absurd h Reading.report_ne_clean
    next hcount =>
      obtain ⟨values, hvalues, h⟩ := Reading.bind_eq_clean.1 h
      cases h
      obtain ⟨hvalues, hlength⟩ := exprs_form ih hvalues
      exact .template hkind hvalues (by omega)
  next => exact absurd h Reading.report_ne_clean

theorem readStmt_form {s : Stmt} (h : readStmt file d = ⟨s, []⟩) : StmtForm file d s := by
  rw [readStmt] at h
  split at h
  next hkind =>
    obtain ⟨stmts, hstmts, h⟩ := Reading.bind_eq_clean.1 h
    cases h
    exact .block hkind (stmts_form ih hstmts)
  next hkind =>
    obtain ⟨e, he, h⟩ := Reading.bind_eq_clean.1 h
    cases h
    exact .expr hkind (givesExpr_of_required he)
  next hkind =>
    obtain ⟨e, he, h⟩ := Reading.bind_eq_clean.1 h
    cases h
    exact .var hkind (mayGiveExpr_of_optional he)
  next hkind =>
    obtain ⟨e, he, h⟩ := Reading.bind_eq_clean.1 h
    cases h
    exact .ret hkind (mayGiveExpr_of_optional he)
  next hkind =>
    obtain ⟨e, he, h⟩ := Reading.bind_eq_clean.1 h
    cases h
    exact .throw hkind (givesExpr_of_required he)
  next hkind =>
    obtain ⟨e, he, h⟩ := Reading.bind_eq_clean.1 h
    cases h
    exact .yield hkind (givesExpr_of_required he)
  next hkind =>
    obtain ⟨test, htest, h⟩ := Reading.bind_eq_clean.1 h
    obtain ⟨onTrue, honTrue, h⟩ := Reading.bind_eq_clean.1 h
    obtain ⟨onFalse, honFalse, h⟩ := Reading.bind_eq_clean.1 h
    cases h
    exact .branch hkind (givesExpr_of_required htest) (givesStmt_of_required honTrue)
      (mayGiveStmt_of_optional honFalse)
  next hkind =>
    obtain ⟨init, hinit, h⟩ := Reading.bind_eq_clean.1 h
    obtain ⟨test, htest, h⟩ := Reading.bind_eq_clean.1 h
    obtain ⟨update, hupdate, h⟩ := Reading.bind_eq_clean.1 h
    obtain ⟨body, hbody, h⟩ := Reading.bind_eq_clean.1 h
    cases h
    exact .forLoop hkind (stmts_form ih hinit) (mayGiveExpr_of_optional htest)
      (exprs_form ih hupdate).1 (givesStmt_of_required hbody)
  next hkind =>
    obtain ⟨iterable, hiterable, h⟩ := Reading.bind_eq_clean.1 h
    obtain ⟨body, hbody, h⟩ := Reading.bind_eq_clean.1 h
    cases h
    exact .forEach hkind (givesExpr_of_required hiterable) (givesStmt_of_required hbody)
  next hkind =>
    obtain ⟨test, htest, h⟩ := Reading.bind_eq_clean.1 h
    obtain ⟨body, hbody, h⟩ := Reading.bind_eq_clean.1 h
    cases h
    exact .whileLoop hkind (givesExpr_of_required htest) (givesStmt_of_required hbody)
  next hkind =>
    obtain ⟨body, hbody, h⟩ := Reading.bind_eq_clean.1 h
    obtain ⟨test, htest, h⟩ := Reading.bind_eq_clean.1 h
    cases h
    exact .doWhile hkind (givesStmt_of_required hbody) (givesExpr_of_required htest)
  next hkind =>
    obtain ⟨selector, hselector, h⟩ := Reading.bind_eq_clean.1 h
    obtain ⟨cases, hcases, h⟩ := Reading.bind_eq_clean.1 h
    cases h
    exact .switch hkind (givesExpr_of_required hselector) (cases_form ih hcases)
  next hkind =>
    obtain ⟨resources, hresources, h⟩ := Reading.bind_eq_clean.1 h
    obtain ⟨body, hbody, h⟩ := Reading.bind_eq_clean.1 h
    obtain ⟨catches, hcatches, h⟩ := Reading.bind_eq_clean.1 h
    obtain ⟨cleanup, hcleanup, h⟩ := Reading.bind_eq_clean.1 h
    cases h
    exact .tryCatch hkind (stmts_form ih hresources) (stmts_form ih hbody)
      (catches_form ih hcatches) (cleanup_form ih hcleanup)
  next hkind =>
    obtain ⟨monitor, hmonitor, h⟩ := Reading.bind_eq_clean.1 h
    obtain ⟨body, hbody, h⟩ := Reading.bind_eq_clean.1 h
    cases h
    exact .sync hkind (givesExpr_of_required hmonitor) (stmts_form ih hbody)
  next hkind =>
    obtain ⟨body, hbody, h⟩ := Reading.bind_eq_clean.1 h
    cases h
    exact .labeled hkind (givesStmt_of_required hbody)
  next hkind =>
    cases h
    exact .breakTo hkind
  next hkind =>
    cases h
    exact .continueTo hkind
  next hkind =>
    obtain ⟨test, htest, h⟩ := Reading.bind_eq_clean.1 h
    obtain ⟨message, hmessage, h⟩ := Reading.bind_eq_clean.1 h
    cases h
    exact .assert hkind (givesExpr_of_required htest) (mayGiveExpr_of_optional hmessage)
  next => exact absurd h Reading.report_ne_clean

end Step

/-- Whatever is read without a problem has a form. -/
theorem hasForm (file : String) (d : Data) : HasForm file d := by
  have h : ∀ n, ∀ d : Data, sizeOf d < n -> HasForm file d := by
    intro n
    induction n with
    | zero => intro d hd; omega
    | succ n ih =>
        intro d hsize
        have ih : ∀ x, sizeOf x < sizeOf d -> HasForm file x := fun x hx => ih x (by omega)
        exact ⟨fun e he => readExpr_form ih he, fun s hs => readStmt_form ih hs⟩
  exact h _ d (Nat.lt_succ_self _)

theorem method_form {m : Method} (h : readMethod file d = ⟨m, []⟩) :
    ∃ l, GivesStmts file d "body" l ∧ textField d "name" ≠ "" ∧
      m = { span := spanOf file d, name := textField d "name", params := readParams d,
            returns := textField d "returns", body := some (.mk (spanOf file d) l) } := by
  rw [readMethod] at h
  obtain ⟨body, hbody, h⟩ := Reading.bind_eq_clean.1 h
  have hbody := stmts_form (fun x _ => hasForm file x) hbody
  dsimp only at h
  split at h
  next => exact absurd h Reading.report_ne_clean
  next hname =>
    cases h
    exact ⟨body, hbody, by simpa using hname, rfl⟩

/-- The unit that is read of a document. -/
theorem unit_form {name : String} {u : CompilationUnit} (h : read name d = .ok u) :
    ∃ unit file, unit = (d.field? "unit").getD .null ∧
      List.Forall₂ (fun x m => readMethod file x = ⟨m, []⟩) (unit.entriesOf "methods") u.methods ∧
      u = { span := .point file 1 1, file, package := textField unit "package",
            methods := u.methods } := by
  rw [read] at h
  split at h
  next => cases h
  next =>
    dsimp only at h
    generalize (d.field? "unit").getD .null = unit at h ⊢
    generalize (if (textField unit "file").isEmpty then name else textField unit "file") =
      file at h
    split at h
    next => cases h
    next =>
      split at h
      next hclean =>
        cases h
        refine ⟨_, _, rfl, ?_, rfl⟩
        rw [entriesOf, List.forall₂_map_right_iff, List.forall₂_map_right_iff, List.forall₂_same]
        intro x hx
        have hproblems := List.flatMap_eq_nil_iff.1 (List.isEmpty_iff.1 hclean) _
          (List.mem_map_of_mem hx)
        rw [← hproblems]
      next => cases h

/-- A document of the right shape and format gives a unit, if all its methods are read cleanly. -/
theorem read_of_clean {name : String} (hfit : fits (.record .document) d = true)
    (hformat : checkFormat (textField d "format") = .ok ())
    (hclean : ∀ file, ∀ x ∈ ((d.field? "unit").getD .null).entriesOf "methods",
      (readMethod file x).problems = []) : ∃ u, read name d = .ok u := by
  rw [read, if_neg (by simp [hfit])]
  dsimp only
  rw [hformat]
  dsimp only
  rw [if_pos]
  · exact ⟨_, rfl⟩
  · rw [List.isEmpty_iff, List.flatMap_eq_nil_iff]
    intro r hr
    obtain ⟨x, hx, rfl⟩ := List.mem_map.1 hr
    exact hclean _ x hx

end Inversion

end Document

end EarlyExit
