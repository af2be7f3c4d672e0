import Mathlib
import EarlyExit.Proofs.Document.Forms
import EarlyExit.Proofs.Document.Returns

/-!
# Documents give complete trees

A document that is read gives a unit in which no place that a node's kind needs is empty.
Reading goes on behind a malformed node and leaves an empty place there, so this says that
every empty place has been reported.  No condition is put on the document: lines may be
negative and literals of any sort.
-/

namespace EarlyExit.Document

open Data Node

/-! ## Complete nodes -/

/-- Every place that an expression of its kind needs is filled. -/
def isWholeExpr : Expr -> Prop
  | .missing => False
  | .ident .. | .literal .. => True
  | .call _ _ _ args _ | .newObject _ _ args => ∀ a ∈ args, a.isMissing = false
  | .field _ e _ _ | .unary _ _ e _ | .lambda _ _ (.value e) | .switch _ e _ _ =>
      e.isMissing = false
  | .assign _ e _ e' | .binary _ e _ e' | .index _ e e' _ =>
      e.isMissing = false ∧ e'.isMissing = false
  | .conditional _ test onTrue onFalse _ =>
      test.isMissing = false ∧ onTrue.isMissing = false ∧ onFalse.isMissing = false
  | .newArray _ _ dims elements _ =>
      (∀ e ∈ dims, e.isMissing = false) ∧ ∀ e ∈ elements, e.isMissing = false
  | .lambda _ _ (.block _) => True
  | .template _ _ fragments values =>
      fragments.length = values.length + 1 ∧ ∀ e ∈ values, e.isMissing = false

/-- The same of a statement.  The value of a variable or of `return` may be left out. -/
def isWholeStmt : Stmt -> Prop
  | .missing => False
  | .block b => ∀ s ∈ b.stmts, s.isMissing = false
  | .expr _ e | .throw _ e | .yield _ e _ | .switch _ e _ | .sync _ e _ | .assert _ e _ =>
      e.isMissing = false
  | .var .. | .ret .. | .breakTo .. | .continueTo .. => True
  | .branch _ e s _ | .forEach _ _ _ e s | .whileLoop _ e s | .doWhile _ s e =>
      e.isMissing = false ∧ s.isMissing = false
  | .forLoop _ init _ update body =>
      (∀ s ∈ init, s.isMissing = false) ∧ (∀ e ∈ update, e.isMissing = false) ∧
        body.isMissing = false
  | .tryCatch _ resources _ _ _ => ∀ r ∈ resources, r.isMissing = false
  | .labeled _ _ body => body.isMissing = false

/-- A node with all the children that its kind needs. -/
def Complete : Node -> Prop
  | .unit _ | .param _ | .clause _ => True
  | .method m => m.name ≠ "" ∧ m.body.isSome = true
  | .arm c => (∀ e ∈ c.labels, e.isMissing = false) ∧ ∀ s ∈ c.body, s.isMissing = false
  | .expr e => isWholeExpr e
  | .stmt s => isWholeStmt s

/-! ## Parts -/

section Parts

variable {file : String} {d : Data} {key : String}

/-- What is read from data is there, and complete in every node. -/
def GivesComplete (file : String) (d : Data) : Prop :=
  (∀ e, readExpr file d = ⟨e, []⟩ -> e.isMissing = false ∧ Everywhere Complete (.expr e)) ∧
    ∀ s, readStmt file d = ⟨s, []⟩ -> s.isMissing = false ∧ Everywhere Complete (.stmt s)

theorem forall_of_forall₂ {α β : Type} {R : α -> β -> Prop} {P : β -> Prop} {xs : List α}
    {ys : List β} (h : List.Forall₂ R xs ys) (hR : ∀ x ∈ xs, ∀ y, R x y -> P y) :
    ∀ y ∈ ys, P y := by
  intro y hy
  obtain ⟨i, hi, rfl⟩ := List.mem_iff_getElem.1 hy
  have hlt : i < xs.length := h.length_eq ▸ hi
  exact hR _ (List.getElem_mem hlt) _ (h.get hlt hi)

section Step

variable (ih : ∀ x, sizeOf x < sizeOf d -> GivesComplete file x)

include ih

theorem GivesExpr.complete {e : Expr} (h : GivesExpr file d key e) :
    e.isMissing = false ∧ InExpr Complete e := by
  obtain ⟨x, hx, hread⟩ := h
  obtain ⟨hfilled, he⟩ := (ih x (sizeOf_field? hx)).1 e hread
  exact ⟨hfilled, he.inExpr⟩

theorem GivesStmt.complete {s : Stmt} (h : GivesStmt file d key s) :
    s.isMissing = false ∧ InStmt Complete s := by
  obtain ⟨x, hx, hread⟩ := h
  obtain ⟨hfilled, hs⟩ := (ih x (sizeOf_field? hx)).2 s hread
  exact ⟨hfilled, hs.inStmt⟩

theorem MayGiveExpr.complete {e : Expr} (h : MayGiveExpr file d key e) : InExpr Complete e := by
  rcases h with ⟨_, rfl⟩ | h
  · exact inExpr_missing _
  · exact (h.complete ih).2

theorem MayGiveStmt.complete {s : Stmt} (h : MayGiveStmt file d key s) : InStmt Complete s := by
  rcases h with ⟨_, rfl⟩ | h
  · exact inStmt_missing _
  · exact (h.complete ih).2

theorem GivesExprs.complete {l : List Expr} (h : GivesExprs file d key l) :
    (∀ e ∈ l, e.isMissing = false) ∧ ∀ e ∈ l, InExpr Complete e := by
  have hall := forall_of_forall₂ h fun x hx e hread =>
    (ih x (sizeOf_mem_entriesOf hx)).1 e hread
  exact ⟨fun e he => (hall e he).1, fun e he => (hall e he).2.inExpr⟩

theorem GivesStmts.complete {l : List Stmt} (h : GivesStmts file d key l) :
    (∀ s ∈ l, s.isMissing = false) ∧ ∀ s ∈ l, InStmt Complete s := by
  have hall := forall_of_forall₂ h fun x hx s hread =>
    (ih x (sizeOf_mem_entriesOf hx)).2 s hread
  exact ⟨fun s hs => (hall s hs).1, fun s hs => (hall s hs).2.inStmt⟩

theorem GivesStmts.block {l : List Stmt} {s : Span} (h : GivesStmts file d key l) :
    Everywhere Complete (ofBlock (.mk s l)) :=
  everywhere_block.2 (h.complete ih)

theorem GivesCases.complete {l : List Case} (h : GivesCases file d l) :
    ∀ c ∈ l, Everywhere Complete (.arm c) := by
  refine forall_of_forall₂ h fun x hx c hform => ?_
  obtain ⟨labels, body, hlabels, hbody, rfl⟩ := hform
  have ih : ∀ y, sizeOf y < sizeOf x -> GivesComplete file y :=
    fun y hy => ih y (hy.trans (sizeOf_mem_entriesOf hx))
  have hlabels := hlabels.complete ih
  have hbody := hbody.complete ih
  refine everywhere_iff.2 ⟨⟨hlabels.1, hbody.1⟩, ?_⟩
  simp only [slots, List.forall_mem_append, forall_listed]
  exact ⟨hlabels.2, hbody.2⟩

theorem GivesCatches.complete {l : List Catch} (h : GivesCatches file d l) :
    ∀ c ∈ l, Everywhere Complete (.clause c) := by
  refine forall_of_forall₂ h fun x hx c hform => ?_
  obtain ⟨body, hbody, rfl⟩ := hform
  have hbody := hbody.block (s := spanOf file x)
    fun y hy => ih y (hy.trans (sizeOf_mem_entriesOf hx))
  refine everywhere_iff.2 ⟨trivial, ?_⟩
  simp only [slots, List.forall_mem_append, forall_single, List.forall_mem_singleton]
  refine ⟨fun n hn => ?_, hbody⟩
  obtain ⟨p, _, rfl⟩ := Option.map_eq_some_iff.1 hn
  exact everywhere_iff.2 ⟨trivial, by simp [slots]⟩

theorem GivesCleanup.complete {cleanup : Option Block} (h : GivesCleanup file d cleanup) :
    ∀ b, cleanup = some b -> Everywhere Complete (ofBlock b) := by
  intro b hb
  rcases h with ⟨_, rfl⟩ | ⟨x, l, hx, hbody, rfl⟩
  · cases hb
  · cases hb
    exact hbody.block fun y hy => ih y (hy.trans (sizeOf_field? hx))

end Step

theorem params_complete {slot : Nat -> Slot} {ps : List Param} :
    ∀ x ∈ listed slot (some ∘ Node.param) 0 ps, Everywhere Complete x.2 := by
  rw [forall_listed]
  rintro p _ n hn
  cases hn
  exact everywhere_iff.2 ⟨trivial, by simp [slots]⟩

theorem arms_complete {slot : Nat -> Slot} {cs : List Case}
    (h : ∀ c ∈ cs, Everywhere Complete (.arm c)) :
    ∀ x ∈ listed slot (some ∘ Node.arm) 0 cs, Everywhere Complete x.2 := by
  rw [forall_listed]
  rintro c hc n hn
  cases hn
  exact h c hc

/-! ## Nodes -/

section Step

variable (ih : ∀ x, sizeOf x < sizeOf d -> GivesComplete file x)

include ih

theorem ExprForm.complete {e : Expr} (h : ExprForm file d e) : Everywhere Complete (.expr e) := by
  rw [everywhere_iff]
  simp only [slots]
  cases h with
  | ident => exact ⟨trivial, by simp [exprSlots]⟩
  | literal => exact ⟨trivial, by simp [exprSlots]⟩
  | call _ receiver_read args_read =>
      simp only [exprSlots, List.forall_mem_append, forall_single, forall_listed]
      exact ⟨(args_read.complete ih).1, receiver_read.complete ih, (args_read.complete ih).2⟩
  | field _ target_read =>
      simp only [exprSlots, forall_single]
      exact target_read.complete ih
  | assign _ target_read value_read =>
      simp only [exprSlots, List.forall_mem_append, forall_single]
      have htarget := target_read.complete ih
      have hvalue := value_read.complete ih
      exact ⟨⟨htarget.1, hvalue.1⟩, htarget.2, hvalue.2⟩
  | binary _ left_read right_read =>
      simp only [exprSlots, List.forall_mem_append, forall_single]
      have hleft := left_read.complete ih
      have hright := right_read.complete ih
      exact ⟨⟨hleft.1, hright.1⟩, hleft.2, hright.2⟩
  | unary _ operand_read =>
      simp only [exprSlots, forall_single]
      exact operand_read.complete ih
  | conditional _ test_read onTrue_read onFalse_read =>
      simp only [exprSlots, List.forall_mem_append, forall_single]
      have htest := test_read.complete ih
      have honTrue := onTrue_read.complete ih
      have honFalse := onFalse_read.complete ih
      exact ⟨⟨htest.1, honTrue.1, honFalse.1⟩, ⟨htest.2, honTrue.2⟩, honFalse.2⟩
  | index _ array_read position_read =>
      simp only [exprSlots, List.forall_mem_append, forall_single]
      have harray := array_read.complete ih
      have hposition := position_read.complete ih
      exact ⟨⟨harray.1, hposition.1⟩, harray.2, hposition.2⟩
  | newArray _ dims_read elements_read =>
      simp only [exprSlots, List.forall_mem_append, forall_listed]
      have hdims := dims_read.complete ih
      have helements := elements_read.complete ih
      exact ⟨⟨hdims.1, helements.1⟩, hdims.2, helements.2⟩
  | newObject _ args_read =>
      simp only [exprSlots, forall_listed]
      exact args_read.complete ih
  | lambda _ value_read =>
      simp only [exprSlots, bodySlot, List.forall_mem_append, forall_single]
      have hvalue := value_read.complete ih
      exact ⟨hvalue.1, params_complete, hvalue.2⟩
  | lambdaBlock _ _ body_read =>
      simp only [exprSlots, bodySlot, List.forall_mem_append, List.forall_mem_singleton]
      exact ⟨trivial, params_complete, body_read.block ih⟩
  | switch _ selector_read cases_read =>
      simp only [exprSlots, List.forall_mem_append, forall_single]
      have hselector := selector_read.complete ih
      exact ⟨hselector.1, hselector.2, arms_complete (cases_read.complete ih)⟩
  | template _ values_read count =>
      simp only [exprSlots, forall_listed]
      have hvalues := values_read.complete ih
      exact ⟨⟨count, hvalues.1⟩, hvalues.2⟩

theorem StmtForm.complete {s : Stmt} (h : StmtForm file d s) : Everywhere Complete (.stmt s) := by
  rw [everywhere_iff]
  simp only [slots]
  cases h with
  | block _ body_read =>
      simp only [stmtSlots, forall_listed]
      exact body_read.complete ih
  | expr _ value_read =>
      simp only [stmtSlots, forall_single]
      exact value_read.complete ih
  | var _ value_read =>
      simp only [stmtSlots, forall_single]
      exact ⟨trivial, value_read.complete ih⟩
  | ret _ value_read =>
      simp only [stmtSlots, forall_single]
      exact ⟨trivial, value_read.complete ih⟩
  | throw _ value_read =>
      simp only [stmtSlots, forall_single]
      exact value_read.complete ih
  | yield _ value_read =>
      simp only [stmtSlots, forall_single]
      exact value_read.complete ih
  | branch _ test_read onTrue_read onFalse_read =>
      simp only [stmtSlots, List.forall_mem_append, forall_single]
      have htest := test_read.complete ih
      have honTrue := onTrue_read.complete ih
      exact ⟨⟨htest.1, honTrue.1⟩, ⟨htest.2, honTrue.2⟩, onFalse_read.complete ih⟩
  | forLoop _ init_read test_read update_read body_read =>
      simp only [stmtSlots, List.forall_mem_append, forall_single, forall_listed]
      have hinit := init_read.complete ih
      have hupdate := update_read.complete ih
      have hbody := body_read.complete ih
      exact ⟨⟨hinit.1, hupdate.1, hbody.1⟩, ⟨⟨hinit.2, test_read.complete ih⟩, hbody.2⟩, hupdate.2⟩
  | forEach _ iterable_read body_read =>
      simp only [stmtSlots, List.forall_mem_append, forall_single]
      have hiterable := iterable_read.complete ih
      have hbody := body_read.complete ih
      exact ⟨⟨hiterable.1, hbody.1⟩, hiterable.2, hbody.2⟩
  | whileLoop _ test_read body_read =>
      simp only [stmtSlots, List.forall_mem_append, forall_single]
      have htest := test_read.complete ih
      have hbody := body_read.complete ih
      exact ⟨⟨htest.1, hbody.1⟩, htest.2, hbody.2⟩
  | doWhile _ body_read test_read =>
      simp only [stmtSlots, List.forall_mem_append, forall_single]
      have htest := test_read.complete ih
      have hbody := body_read.complete ih
      exact ⟨⟨htest.1, hbody.1⟩, hbody.2, htest.2⟩
  | switch _ selector_read cases_read =>
      simp only [stmtSlots, List.forall_mem_append, forall_single]
      have hselector := selector_read.complete ih
      exact ⟨hselector.1, hselector.2, arms_complete (cases_read.complete ih)⟩
  | tryCatch _ resources_read body_read catches_read cleanup_read =>
      simp only [stmtSlots, List.forall_mem_append, forall_single, List.forall_mem_singleton,
        forall_listed]
      have hresources := resources_read.complete ih
      refine ⟨hresources.1, ⟨⟨hresources.2, body_read.block ih⟩, ?_⟩, ?_⟩
      · rintro c hc n hn
        cases hn
        exact catches_read.complete ih c hc
      · intro n hn
        obtain ⟨b, hb, rfl⟩ := Option.map_eq_some_iff.1 hn
        exact cleanup_read.complete ih b hb
  | sync _ monitor_read body_read =>
      simp only [stmtSlots, List.forall_mem_append, forall_single, List.forall_mem_singleton]
      have hmonitor := monitor_read.complete ih
      exact ⟨hmonitor.1, hmonitor.2, body_read.block ih⟩
  | labeled _ body_read =>
      simp only [stmtSlots, forall_single]
      exact body_read.complete ih
  | breakTo => exact ⟨trivial, by simp [stmtSlots]⟩
  | continueTo => exact ⟨trivial, by simp [stmtSlots]⟩
  | assert _ test_read message_read =>
      simp only [stmtSlots, List.forall_mem_append, forall_single]
      have htest := test_read.complete ih
      exact ⟨htest.1, htest.2, message_read.complete ih⟩

end Step

theorem givesComplete (file : String) (d : Data) : GivesComplete file d := by
  have h : ∀ n, ∀ d : Data, sizeOf d < n -> GivesComplete file d := by
    intro n
    induction n with
    | zero => intro d hd; omega
    | succ n ih =>
        intro d hsize
        have ih : ∀ x, sizeOf x < sizeOf d -> GivesComplete file x := fun x hx => ih x (by omega)
        constructor
        · intro e he
          have hform := (hasForm file d).1 e he
          exact ⟨hform.filled, hform.complete ih⟩
        · intro s hs
          have hform := (hasForm file d).2 s hs
          exact ⟨hform.filled, hform.complete ih⟩
  exact h _ d (Nat.lt_succ_self _)

theorem method_complete {m : Method} (h : readMethod file d = ⟨m, []⟩) :
    Everywhere Complete (.method m) := by
  obtain ⟨body, hbody, hname, rfl⟩ := method_form h
  refine everywhere_iff.2 ⟨⟨hname, rfl⟩, ?_⟩
  simp only [slots, List.forall_mem_append, forall_single]
  refine ⟨params_complete, fun n hn => ?_⟩
  cases hn
  exact hbody.block fun x _ => givesComplete file x

end Parts

/-! ## Units -/

/-- Every node of a unit that a document gives has all the children that its kind needs. -/
theorem read_complete {name : String} {d : Data} {u : CompilationUnit} (h : read name d = .ok u) :
    Everywhere Complete (.unit u) := by
  obtain ⟨unit, file, _, hmethods, hu⟩ := unit_form h
  refine everywhere_iff.2 ⟨trivial, ?_⟩
  simp only [slots, forall_listed]
  intro m hm n hn
  cases hn
  exact forall_of_forall₂ hmethods (fun x _ m hread => method_complete hread) m hm

/--
A method `m() { try { throw x; } catch (E e) { switch (e) { default -> y; } } finally {
i -> STR."a\{i}b"; } }` on a negative line, with a null statement behind the `throw`.
-/
def guardedMethod : Data :=
  .map [("name", .str "m"), ("line", .number "-3"), ("body", .list [.map [("kind", .str "try"),
    ("body", .list [.map [("kind", .str "throw"),
      ("expr", .map [("kind", .str "ident"), ("name", .str "x")])], .null]),
    ("catches", .list [.map [("param", .map [("name", .str "e"), ("type", .str "E")]),
      ("body", .list [.map [("kind", .str "switch"),
        ("selector", .map [("kind", .str "ident"), ("name", .str "e")]),
        ("cases", .list [.map [("arrow", .bool true), ("body", .list [
          .map [("kind", .str "expr"),
            ("expr", .map [("kind", .str "ident"), ("name", .str "y")])]])]])]])]]),
    ("finally", .map [("kind", .str "block"), ("body", .list [.map [("kind", .str "expr"),
      ("expr", .map [("kind", .str "lambda"), ("params", .list [.map [("name", .str "i")]]),
        ("expr", .map [("kind", .str "template"),
          ("fragments", .list [.str "a", .str "b"]),
          ("values", .list [.map [("kind", .str "ident"), ("name", .str "i")]])])])]])])]])]

def guardedDocument : Data :=
  .map [("format", .str "1.0.0"), ("unit", .map [("methods", .list [guardedMethod])])]

theorem problems_guardedMethod (file : String) : (readMethod file guardedMethod).problems = [] := by
  cbv

theorem read_complete_guardedDocument : ∃ u, read "Guarded.java" guardedDocument = .ok u ∧
    Everywhere Complete (.unit u) := by
  have hfit : fits (.record .document) guardedDocument = true := by decide +kernel
  obtain ⟨u, hread⟩ : ∃ u, read "Guarded.java" guardedDocument = .ok u :=
    read_of_clean hfit checkFormat_current fun file x hx => by
      obtain rfl : x = guardedMethod := List.mem_singleton.1 hx
      exact problems_guardedMethod file
  exact ⟨u, hread, read_complete hread⟩

end EarlyExit.Document
