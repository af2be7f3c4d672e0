import EarlyExit.Proofs.Document.Seated
import EarlyExit.Proofs.Document.Storable

/-!
# Trees of accepted documents

A document without negative lines and columns and without floating literals that is read
without a problem gives a tree that can be stored, and whose lambdas are seated.
-/

namespace EarlyExit

namespace Data

mutual

/-- Every part of the data passes a test, the data itself included. -/
def everyPart (test : Data -> Bool) : Data -> Bool
  | .list xs => test (.list xs) && everyItem test xs
  | .map es => test (.map es) && everyEntry test es
  | d => test d

def everyItem (test : Data -> Bool) : List Data -> Bool
  | [] => true
  | x :: rest => everyPart test x && everyItem test rest

def everyEntry (test : Data -> Bool) : List (String × Data) -> Bool
  | [] => true
  | (_, x) :: rest => everyPart test x && everyEntry test rest

end

section EveryPart

variable {test : Data -> Bool} {d x : Data} {key : String}

theorem everyPart_self (h : everyPart test d = true) : test d = true := by
  cases d <;> simp_all [everyPart]

theorem everyPart_item {xs : List Data} (h : everyItem test xs = true) (hx : x ∈ xs) :
    everyPart test x = true := by
  induction xs with
  | nil => cases hx
  | cons y xs ih =>
      simp only [everyItem, Bool.and_eq_true] at h
      rcases List.mem_cons.1 hx with rfl | hx
      · exact h.1
      · exact ih h.2 hx

theorem everyPart_lookup {es : List (String × Data)} (h : everyEntry test es = true)
    (hx : es.lookup key = some x) : everyPart test x = true := by
  induction es with
  | nil => cases hx
  | cons y es ih =>
      obtain ⟨k, y⟩ := y
      simp only [everyEntry, Bool.and_eq_true] at h
      rw [List.lookup_cons] at hx
      split at hx
      · cases hx
        exact h.1
      · exact ih h.2 hx

theorem everyPart_field? (h : everyPart test d = true) (hx : d.field? key = some x) :
    everyPart test x = true := by
  cases d with
  | map es =>
      simp only [everyPart, Bool.and_eq_true] at h
      rw [Document.field?_map, Option.filter_eq_some_iff] at hx
      exact everyPart_lookup h.2 hx.1
  | _ => cases hx

theorem everyPart_itemsOf (h : everyPart test d = true) (hx : x ∈ d.itemsOf key) :
    everyPart test x = true := by
  unfold itemsOf at hx
  split at hx
  next y hy =>
    have hlist := everyPart_field? h hy
    cases y with
    | list xs =>
        simp only [everyPart, Bool.and_eq_true] at hlist
        exact everyPart_item hlist.2 hx
    | _ => cases hx
  next => cases hx

end EveryPart

end Data

namespace Document

open Data Node

def isFloatLiteral (d : Data) : Bool :=
  textField d "kind" == "lit" &&
    match (d.field? "value").bind scalar? with
    | some (.float _) => true
    | _ => false

/-- Line and column are not negative, and the data is no floating literal. -/
def isModest (d : Data) : Bool :=
  decide (0 ≤ wholeField d "line") && decide (0 ≤ wholeField d "col") && !isFloatLiteral d

section Accepted

variable {file : String} {d : Data}

theorem wholeField_le (d : Data) (key : String) : wholeField d key ≤ Int64.maxValue.toInt := by
  unfold wholeField
  cases h : (d.field? key).bind whole? with
  | none => decide
  | some i =>
      obtain ⟨x, _, hx⟩ := Option.bind_eq_some_iff.1 h
      exact whole?_le hx

/-- The span of a modest map can be stored. -/
theorem placed_spanOf (h : isModest d = true) : Placed file (spanOf file d) := by
  simp only [isModest, Bool.and_eq_true, decide_eq_true_eq] at h
  have hline := wholeField_le d "line"
  have hcol := wholeField_le d "col"
  unfold spanOf
  by_cases hzero : wholeField d "line" = 0
  · rw [if_pos hzero]
    exact .inl rfl
  · rw [if_neg hzero]
    by_cases hone : wholeField d "col" = 0
    · rw [if_pos hone]
      exact .inr ⟨_, 1, by omega, hline, by omega, by decide, rfl⟩
    · rw [if_neg hone]
      exact .inr ⟨_, _, by omega, hline, by omega, hcol, rfl⟩

/-! ## Sound trees -/

/-- An expression as a document gives it. -/
structure SoundExpr (file : String) (e : Expr) : Prop where
  filled : e.isMissing = false
  storable : Everywhere (Storable file) (.expr e)
  seated : e.seated = e

structure SoundStmt (file : String) (s : Stmt) : Prop where
  filled : s.isMissing = false
  storable : Everywhere (Storable file) (.stmt s)
  seated : s.seated = s

theorem SoundExpr.of_below {e : Expr} (hself : Storable file (.expr e)) (hseated : e.seated = e)
    (hbelow : ∀ x ∈ (Node.expr e).slots, Everywhere (Storable file) x.2) : SoundExpr file e where
  filled := by
    cases e with
    | missing => exact hself.2.elim
    | _ => rfl
  storable := everywhere_iff.2 ⟨hself, hbelow⟩
  seated := hseated

theorem SoundStmt.of_below {s : Stmt} (hself : Storable file (.stmt s)) (hseated : s.seated = s)
    (hbelow : ∀ x ∈ (Node.stmt s).slots, Everywhere (Storable file) x.2) : SoundStmt file s where
  filled := by
    cases s with
    | missing => exact hself.2.elim
    | _ => rfl
  storable := everywhere_iff.2 ⟨hself, hbelow⟩
  seated := hseated

theorem seatedExprs_self {l : List Expr} (h : ∀ e ∈ l, SoundExpr file e) : seatedExprs l = l := by
  rw [seatedExprs_eq]
  exact (List.map_congr_left fun e he => (h e he).seated).trans (List.map_id' l)

theorem seatedStmts_self {l : List Stmt} (h : ∀ s ∈ l, SoundStmt file s) : seatedStmts l = l := by
  rw [seatedStmts_eq]
  exact (List.map_congr_left fun s hs => (h s hs).seated).trans (List.map_id' l)

theorem block_storable {s : Span} (hs : Placed file s) {l : List Stmt}
    (h : ∀ t ∈ l, SoundStmt file t) : Everywhere (Storable file) (ofBlock (.mk s l)) :=
  everywhere_block.2 ⟨⟨hs, fun t ht => (h t ht).filled⟩, fun t ht => (h t ht).storable.inStmt⟩

theorem param_storable (d : Data) : Everywhere (Storable file) (.param (readParam d)) :=
  everywhere_iff.2 ⟨rfl, by simp [slots]⟩

theorem params_storable {slot : Nat -> Slot} (d : Data) :
    ∀ x ∈ listed slot (some ∘ Node.param) 0 (readParams d), Everywhere (Storable file) x.2 := by
  rw [forall_listed]
  rintro p hp n hn
  cases hn
  obtain ⟨y, _, rfl⟩ := List.mem_map.1 hp
  exact param_storable y

theorem text_ofText (t : String) : (Operator.ofText t).text = t := by
  unfold Operator.ofText
  split <;> rfl

theorem assignOperator_text (t : String) :
    assignOperator (assignOperator t).text = assignOperator t := by
  by_cases hempty : t.isEmpty = true
  · have hassign : assignOperator t = .assign := if_pos hempty
    rw [hassign]
    rfl
  · have hop : assignOperator t = .ofText t := if_neg hempty
    rw [hop, text_ofText, hop]

/-! ## Reading -/

theorem literal_sound {e : Expr} (hd : isModest d = true) (hkind : textField d "kind" = "lit")
    (h : readLiteral file d = ⟨e, []⟩) : SoundExpr file e := by
  have hs : Placed file (spanOf file d) := placed_spanOf hd
  have hfloat : ∀ y x, d.field? "value" = some y -> y.scalar? ≠ some (.float x) := by
    intro y x hy hx
    simp [isModest, isFloatLiteral, hkind, hy, hx] at hd
  have hsound : ∀ value raw, (∀ x, value ≠ .float x) ->
      SoundExpr file (.literal (spanOf file d) value raw) :=
    fun value raw hvalue => .of_below ⟨hs, hvalue⟩ rfl (by simp [slots, exprSlots])
  unfold readLiteral at h
  split at h
  next =>
    cases h
    exact hsound _ _ fun _ hvalue => by cases hvalue
  next y hy =>
    split at h
    next hx =>
      cases h
      exact hsound _ _ fun _ hvalue => by cases hvalue
    next hx =>
      cases h
      exact hsound _ _ fun _ hvalue => by cases hvalue
    next hx =>
      cases h
      exact hsound _ _ fun _ hvalue => by cases hvalue
    next hx => exact absurd hx (hfloat y _ hy)
    next hx =>
      cases h
      exact hsound _ _ fun _ hvalue => by cases hvalue
    next hx => exact absurd h Reading.report_ne_clean

/-- What is read from data is sound. -/
def Sound (file : String) (d : Data) : Prop :=
  everyPart isModest d = true ->
    (∀ e, readExpr file d = ⟨e, []⟩ -> SoundExpr file e) ∧
      ∀ s, readStmt file d = ⟨s, []⟩ -> SoundStmt file s

section Step

variable (ih : ∀ x, sizeOf x < sizeOf d -> Sound file x) (hd : everyPart isModest d = true)

include ih hd

theorem required_expr {key : String} {e : Expr}
    (h : required file d key .missing (fun x _ => readExpr file x) = ⟨e, []⟩) :
    SoundExpr file e := by
  obtain ⟨x, hx, hread⟩ := required_eq_clean.1 h
  exact (ih x (sizeOf_field? hx) (everyPart_field? hd hx)).1 e hread

theorem required_stmt {key : String} {s : Stmt}
    (h : required file d key .missing (fun x _ => readStmt file x) = ⟨s, []⟩) :
    SoundStmt file s := by
  obtain ⟨x, hx, hread⟩ := required_eq_clean.1 h
  exact (ih x (sizeOf_field? hx) (everyPart_field? hd hx)).2 s hread

theorem optional_expr_sound {key : String} {e : Expr}
    (h : optional d key .missing (fun x _ => readExpr file x) = ⟨e, []⟩) :
    InExpr (Storable file) e ∧ e.seated = e := by
  rcases optional_eq_clean.1 h with ⟨_, rfl⟩ | ⟨x, hx, hread⟩
  · exact ⟨inExpr_missing _, rfl⟩
  · have hsound := (ih x (sizeOf_field? hx) (everyPart_field? hd hx)).1 e hread
    exact ⟨hsound.storable.inExpr, hsound.seated⟩

theorem optional_stmt_sound {key : String} {s : Stmt}
    (h : optional d key .missing (fun x _ => readStmt file x) = ⟨s, []⟩) :
    InStmt (Storable file) s ∧ s.seated = s := by
  rcases optional_eq_clean.1 h with ⟨_, rfl⟩ | ⟨x, hx, hread⟩
  · exact ⟨inStmt_missing _, rfl⟩
  · have hsound := (ih x (sizeOf_field? hx) (everyPart_field? hd hx)).2 s hread
    exact ⟨hsound.storable.inStmt, hsound.seated⟩

theorem exprs_sound {key : String} {l : List Expr} (h : readExprs file d key = ⟨l, []⟩) :
    ∀ e ∈ l, SoundExpr file e := by
  intro e he
  rw [readExprs] at h
  obtain ⟨i, x, hx, hread⟩ := mem_eachItem h he
  split at hread
  · exact absurd hread Reading.report_ne_clean
  · obtain ⟨e', he', hpresent⟩ := Reading.bind_eq_clean.1 hread
    have hsound := (ih x (sizeOf_mem_itemsOf hx) (everyPart_itemsOf hd hx)).1 e' he'
    rw [present, hsound.filled] at hpresent
    cases hpresent
    exact hsound

theorem exprs_length {key : String} {l : List Expr} (h : readExprs file d key = ⟨l, []⟩) :
    l.length = (d.itemsOf key).length := by
  rw [readExprs] at h
  refine length_eachItem (fun i x hx hread => ?_) h
  split at hread
  · exact Reading.report_ne_clean hread
  · obtain ⟨e, he, hpresent⟩ := Reading.bind_eq_clean.1 hread
    have hsound := (ih x (sizeOf_mem_itemsOf hx) (everyPart_itemsOf hd hx)).1 e he
    rw [present, hsound.filled] at hpresent
    cases hpresent

theorem stmts_sound {key : String} {l : List Stmt} (h : readStmts file d key = ⟨l, []⟩) :
    ∀ s ∈ l, SoundStmt file s := by
  intro s hs
  rw [readStmts] at h
  obtain ⟨i, x, hx, hread⟩ := mem_eachItem h hs
  split at hread
  · cases hread
  · obtain ⟨s', hs', hpresent⟩ := Reading.bind_eq_clean.1 hread
    have hsound := (ih x (sizeOf_mem_itemsOf hx) (everyPart_itemsOf hd hx)).2 s' hs'
    rw [presentStmt, hsound.filled] at hpresent
    cases hpresent
    exact hsound

theorem cases_sound {l : List Case} (h : readCases file d = ⟨l, []⟩) :
    (∀ c ∈ l, Everywhere (Storable file) (.arm c)) ∧ seatedCases l = l := by
  have hone : ∀ c ∈ l, Everywhere (Storable file) (.arm c) ∧ c.seated = c := by
    intro c hc
    rw [readCases] at h
    obtain ⟨i, x, hx, hread⟩ := mem_eachItem h hc
    have hpart := everyPart_itemsOf hd hx
    have hsmall := sizeOf_mem_itemsOf hx
    split at hread
    · cases hread
    · obtain ⟨labels, hlabels, hread⟩ := Reading.bind_eq_clean.1 hread
      obtain ⟨body, hbody, hread⟩ := Reading.bind_eq_clean.1 hread
      cases hread
      have hlabels := exprs_sound (fun y hy => ih y (hy.trans hsmall)) hpart hlabels
      have hbody := stmts_sound (fun y hy => ih y (hy.trans hsmall)) hpart hbody
      constructor
      · refine everywhere_iff.2 ⟨⟨placed_spanOf (everyPart_self hpart), fun e he =>
          (hlabels e he).filled, fun s hs => (hbody s hs).filled⟩, ?_⟩
        simp only [slots, List.forall_mem_append, forall_listed]
        exact ⟨fun e he => (hlabels e he).storable.inExpr,
          fun s hs => (hbody s hs).storable.inStmt⟩
      · rw [Case.seated, seatedExprs_self hlabels, seatedStmts_self hbody]
  refine ⟨fun c hc => (hone c hc).1, ?_⟩
  rw [seatedCases_eq]
  exact (List.map_congr_left fun c hc => (hone c hc).2).trans (List.map_id' l)

/-- An expression is sound if the parts of the data give sound trees. -/
theorem readExpr_sound {e : Expr} (h : readExpr file d = ⟨e, []⟩) : SoundExpr file e := by
  have hs : Placed file (spanOf file d) := placed_spanOf (everyPart_self hd)
  rw [readExpr] at h
  split at h
  next =>
    cases h
    exact .of_below ⟨hs, trivial⟩ rfl (by simp [slots, exprSlots])
  next hkind => exact literal_sound (everyPart_self hd) hkind h
  next =>
    obtain ⟨receiver, hreceiver, h⟩ := Reading.bind_eq_clean.1 h
    obtain ⟨args, hargs, h⟩ := Reading.bind_eq_clean.1 h
    cases h
    obtain ⟨hreceiver, hseated⟩ := optional_expr_sound ih hd hreceiver
    have hargs := exprs_sound ih hd hargs
    refine .of_below ⟨hs, fun a ha => (hargs a ha).filled⟩
      (by rw [Expr.seated, hseated, seatedExprs_self hargs]) ?_
    simp only [slots, exprSlots, List.forall_mem_append, forall_single, forall_listed]
    exact ⟨hreceiver, fun a ha => (hargs a ha).storable.inExpr⟩
  next =>
    obtain ⟨target, htarget, h⟩ := Reading.bind_eq_clean.1 h
    cases h
    have htarget := required_expr ih hd htarget
    refine .of_below ⟨hs, htarget.filled⟩ (by rw [Expr.seated, htarget.seated]) ?_
    simp only [slots, exprSlots, forall_single]
    exact htarget.storable.inExpr
  next =>
    obtain ⟨target, htarget, h⟩ := Reading.bind_eq_clean.1 h
    obtain ⟨value, hvalue, h⟩ := Reading.bind_eq_clean.1 h
    cases h
    have htarget := required_expr ih hd htarget
    have hvalue := required_expr ih hd hvalue
    refine .of_below ⟨hs, htarget.filled, hvalue.filled, assignOperator_text _⟩
      (by rw [Expr.seated, htarget.seated, hvalue.seated]) ?_
    simp only [slots, exprSlots, List.forall_mem_append, forall_single]
    exact ⟨htarget.storable.inExpr, hvalue.storable.inExpr⟩
  next =>
    obtain ⟨left, hleft, h⟩ := Reading.bind_eq_clean.1 h
    obtain ⟨right, hright, h⟩ := Reading.bind_eq_clean.1 h
    cases h
    have hleft := required_expr ih hd hleft
    have hright := required_expr ih hd hright
    refine .of_below ⟨hs, hleft.filled, hright.filled, by rw [text_ofText]⟩
      (by rw [Expr.seated, hleft.seated, hright.seated]) ?_
    simp only [slots, exprSlots, List.forall_mem_append, forall_single]
    exact ⟨hleft.storable.inExpr, hright.storable.inExpr⟩
  next =>
    obtain ⟨operand, hoperand, h⟩ := Reading.bind_eq_clean.1 h
    cases h
    have hoperand := required_expr ih hd hoperand
    refine .of_below ⟨hs, hoperand.filled, by rw [text_ofText]⟩
      (by rw [Expr.seated, hoperand.seated]) ?_
    simp only [slots, exprSlots, forall_single]
    exact hoperand.storable.inExpr
  next =>
    obtain ⟨test, htest, h⟩ := Reading.bind_eq_clean.1 h
    obtain ⟨onTrue, honTrue, h⟩ := Reading.bind_eq_clean.1 h
    obtain ⟨onFalse, honFalse, h⟩ := Reading.bind_eq_clean.1 h
    cases h
    have htest := required_expr ih hd htest
    have honTrue := required_expr ih hd honTrue
    have honFalse := required_expr ih hd honFalse
    refine .of_below ⟨hs, htest.filled, honTrue.filled, honFalse.filled⟩
      (by rw [Expr.seated, htest.seated, honTrue.seated, honFalse.seated]) ?_
    simp only [slots, exprSlots, List.forall_mem_append, forall_single]
    exact ⟨⟨htest.storable.inExpr, honTrue.storable.inExpr⟩, honFalse.storable.inExpr⟩
  next =>
    obtain ⟨array, harray, h⟩ := Reading.bind_eq_clean.1 h
    obtain ⟨position, hposition, h⟩ := Reading.bind_eq_clean.1 h
    cases h
    have harray := required_expr ih hd harray
    have hposition := required_expr ih hd hposition
    refine .of_below ⟨hs, harray.filled, hposition.filled⟩
      (by rw [Expr.seated, harray.seated, hposition.seated]) ?_
    simp only [slots, exprSlots, List.forall_mem_append, forall_single]
    exact ⟨harray.storable.inExpr, hposition.storable.inExpr⟩
  next =>
    obtain ⟨dims, hdims, h⟩ := Reading.bind_eq_clean.1 h
    obtain ⟨elements, helements, h⟩ := Reading.bind_eq_clean.1 h
    cases h
    have hdims := exprs_sound ih hd hdims
    have helements := exprs_sound ih hd helements
    refine .of_below ⟨hs, fun e he => (hdims e he).filled, fun e he => (helements e he).filled⟩
      (by rw [Expr.seated, seatedExprs_self hdims, seatedExprs_self helements]) ?_
    simp only [slots, exprSlots, List.forall_mem_append, forall_listed]
    exact ⟨fun e he => (hdims e he).storable.inExpr, fun e he => (helements e he).storable.inExpr⟩
  next =>
    obtain ⟨args, hargs, h⟩ := Reading.bind_eq_clean.1 h
    cases h
    have hargs := exprs_sound ih hd hargs
    refine .of_below ⟨hs, fun a ha => (hargs a ha).filled⟩
      (by rw [Expr.seated, seatedExprs_self hargs]) ?_
    simp only [slots, exprSlots, forall_listed]
    exact fun a ha => (hargs a ha).storable.inExpr
  next =>
    dsimp only at h
    split at h
    next x hx =>
      obtain ⟨e, he, h⟩ := Reading.bind_eq_clean.1 h
      simp only [Reading.pure_eq, Reading.bind_clean] at h
      cases h
      have he := (ih x (sizeOf_field? hx) (everyPart_field? hd hx)).1 e he
      refine .of_below ⟨hs, he.filled⟩ (by rw [Expr.seated, Body.seatedAt, he.seated]) ?_
      simp only [slots, exprSlots, List.forall_mem_append, bodySlot, forall_single]
      exact ⟨params_storable d, he.storable.inExpr⟩
    next =>
      obtain ⟨stmts, hstmts, h⟩ := Reading.bind_eq_clean.1 h
      simp only [Reading.pure_eq, Reading.bind_clean] at h
      cases h
      have hstmts := stmts_sound ih hd hstmts
      refine .of_below ⟨hs, trivial⟩
        (by rw [Expr.seated, Body.seatedAt, seatedStmts_self hstmts]) ?_
      simp only [slots, exprSlots, List.forall_mem_append, bodySlot, List.forall_mem_singleton]
      exact ⟨params_storable d, block_storable hs hstmts⟩
  next =>
    obtain ⟨selector, hselector, h⟩ := Reading.bind_eq_clean.1 h
    obtain ⟨cases, hcases, h⟩ := Reading.bind_eq_clean.1 h
    cases h
    have hselector := required_expr ih hd hselector
    obtain ⟨hcases, hseated⟩ := cases_sound ih hd hcases
    refine .of_below ⟨hs, hselector.filled⟩ (by rw [Expr.seated, hselector.seated, hseated]) ?_
    simp only [slots, exprSlots, List.forall_mem_append, forall_single]
    exact ⟨hselector.storable.inExpr, forall_listed.2 (by simpa using hcases)⟩
  next =>
    dsimp only at h
    split at h
    next => exact absurd h Reading.report_ne_clean
    next hcount =>
      obtain ⟨values, hvalues, h⟩ := Reading.bind_eq_clean.1 h
      cases h
      have hlength := exprs_length ih hd hvalues
      have hvalues := exprs_sound ih hd hvalues
      refine .of_below ⟨hs, by omega, fun e he => (hvalues e he).filled⟩
        (by rw [Expr.seated, seatedExprs_self hvalues]) ?_
      simp only [slots, exprSlots, forall_listed]
      exact fun e he => (hvalues e he).storable.inExpr
  next => exact absurd h Reading.report_ne_clean

theorem catches_sound {l : List Catch}
    (h : eachItem d "catches" (fun _ x _ =>
      if x.isNull then return none
      else do
        let clause ← readStmts file x "body"
        return some (Catch.mk (spanOf file x) ((x.field? "param").map readParam)
          (.mk (spanOf file x) clause))) = ⟨l, []⟩) :
    (∀ c ∈ l, Everywhere (Storable file) (.clause c)) ∧ seatedCatches l = l := by
  have hone : ∀ c ∈ l, Everywhere (Storable file) (.clause c) ∧ c.seated = c := by
    intro c hc
    obtain ⟨i, x, hx, hread⟩ := mem_eachItem h hc
    have hpart := everyPart_itemsOf hd hx
    have hsmall := sizeOf_mem_itemsOf hx
    have hs : Placed file (spanOf file x) := placed_spanOf (everyPart_self hpart)
    split at hread
    · cases hread
    · obtain ⟨body, hbody, hread⟩ := Reading.bind_eq_clean.1 hread
      cases hread
      have hbody := stmts_sound (fun y hy => ih y (hy.trans hsmall)) hpart hbody
      constructor
      · refine everywhere_iff.2 ⟨⟨hs, rfl⟩, ?_⟩
        simp only [slots, List.forall_mem_append, forall_single, List.forall_mem_singleton]
        refine ⟨fun n hn => ?_, block_storable hs hbody⟩
        obtain ⟨p, hp, rfl⟩ := Option.map_eq_some_iff.1 hn
        obtain ⟨y, _, rfl⟩ := Option.map_eq_some_iff.1 hp
        exact param_storable y
      · rw [Catch.seated, seatedStmts_self hbody]
  refine ⟨fun c hc => (hone c hc).1, ?_⟩
  rw [seatedCatches_eq]
  exact (List.map_congr_left fun c hc => (hone c hc).2).trans (List.map_id' l)

theorem cleanup_sound {cleanup : Option Block}
    (h : optional d "finally" none (fun x _ => do
      let stmts ← readStmts file x "body"
      return some (Block.mk (spanOf file x) stmts)) = ⟨cleanup, []⟩) :
    (∀ b, cleanup = some b -> Everywhere (Storable file) (ofBlock b)) ∧
      ∀ s l, cleanup = some (.mk s l) -> seatedStmts l = l := by
  rcases optional_eq_clean.1 h with ⟨_, rfl⟩ | ⟨x, hx, hread⟩
  · exact ⟨by simp, by simp⟩
  · have hpart := everyPart_field? hd hx
    obtain ⟨body, hbody, hread⟩ := Reading.bind_eq_clean.1 hread
    cases hread
    have hbody := stmts_sound (fun y hy => ih y (hy.trans (sizeOf_field? hx))) hpart hbody
    constructor
    · intro b heq
      cases heq
      exact block_storable (placed_spanOf (everyPart_self hpart)) hbody
    · intro s l heq
      cases heq
      exact seatedStmts_self hbody

/-- A statement is sound if the parts of the data give sound trees. -/
theorem readStmt_sound {s : Stmt} (h : readStmt file d = ⟨s, []⟩) : SoundStmt file s := by
  have hs : Placed file (spanOf file d) := placed_spanOf (everyPart_self hd)
  rw [readStmt] at h
  split at h
  next =>
    obtain ⟨stmts, hstmts, h⟩ := Reading.bind_eq_clean.1 h
    cases h
    have hstmts := stmts_sound ih hd hstmts
    exact ⟨rfl, block_storable hs hstmts, by rw [Stmt.seated, seatedStmts_self hstmts]⟩
  next =>
    obtain ⟨e, he, h⟩ := Reading.bind_eq_clean.1 h
    cases h
    have he := required_expr ih hd he
    refine .of_below ⟨hs, he.filled⟩ (by rw [Stmt.seated, he.seated]) ?_
    simp only [slots, stmtSlots, forall_single]
    exact he.storable.inExpr
  next =>
    obtain ⟨e, he, h⟩ := Reading.bind_eq_clean.1 h
    cases h
    obtain ⟨he, hseated⟩ := optional_expr_sound ih hd he
    refine .of_below ⟨hs, trivial⟩ (by rw [Stmt.seated, hseated]) ?_
    simp only [slots, stmtSlots, forall_single]
    exact he
  next =>
    obtain ⟨e, he, h⟩ := Reading.bind_eq_clean.1 h
    cases h
    obtain ⟨he, hseated⟩ := optional_expr_sound ih hd he
    refine .of_below ⟨hs, trivial⟩ (by rw [Stmt.seated, hseated]) ?_
    simp only [slots, stmtSlots, forall_single]
    exact he
  next =>
    obtain ⟨e, he, h⟩ := Reading.bind_eq_clean.1 h
    cases h
    have he := required_expr ih hd he
    refine .of_below ⟨hs, he.filled⟩ (by rw [Stmt.seated, he.seated]) ?_
    simp only [slots, stmtSlots, forall_single]
    exact he.storable.inExpr
  next =>
    obtain ⟨e, he, h⟩ := Reading.bind_eq_clean.1 h
    cases h
    have he := required_expr ih hd he
    refine .of_below ⟨hs, he.filled⟩ (by rw [Stmt.seated, he.seated]) ?_
    simp only [slots, stmtSlots, forall_single]
    exact he.storable.inExpr
  next =>
    obtain ⟨test, htest, h⟩ := Reading.bind_eq_clean.1 h
    obtain ⟨onTrue, honTrue, h⟩ := Reading.bind_eq_clean.1 h
    obtain ⟨onFalse, honFalse, h⟩ := Reading.bind_eq_clean.1 h
    cases h
    have htest := required_expr ih hd htest
    have honTrue := required_stmt ih hd honTrue
    obtain ⟨honFalse, hseated⟩ := optional_stmt_sound ih hd honFalse
    refine .of_below ⟨hs, htest.filled, honTrue.filled⟩
      (by rw [Stmt.seated, htest.seated, honTrue.seated, hseated]) ?_
    simp only [slots, stmtSlots, List.forall_mem_append, forall_single]
    exact ⟨⟨htest.storable.inExpr, honTrue.storable.inStmt⟩, honFalse⟩
  next =>
    obtain ⟨init, hinit, h⟩ := Reading.bind_eq_clean.1 h
    obtain ⟨test, htest, h⟩ := Reading.bind_eq_clean.1 h
    obtain ⟨update, hupdate, h⟩ := Reading.bind_eq_clean.1 h
    obtain ⟨body, hbody, h⟩ := Reading.bind_eq_clean.1 h
    cases h
    have hinit := stmts_sound ih hd hinit
    obtain ⟨htest, hseated⟩ := optional_expr_sound ih hd htest
    have hupdate := exprs_sound ih hd hupdate
    have hbody := required_stmt ih hd hbody
    refine .of_below ⟨hs, fun s hs => (hinit s hs).filled, fun e he => (hupdate e he).filled,
      hbody.filled⟩ (by rw [Stmt.seated, seatedStmts_self hinit, hseated,
        seatedExprs_self hupdate, hbody.seated]) ?_
    simp only [slots, stmtSlots, List.forall_mem_append, forall_single, forall_listed]
    exact ⟨⟨⟨fun s hs => (hinit s hs).storable.inStmt, htest⟩, hbody.storable.inStmt⟩,
      fun e he => (hupdate e he).storable.inExpr⟩
  next =>
    obtain ⟨iterable, hiterable, h⟩ := Reading.bind_eq_clean.1 h
    obtain ⟨body, hbody, h⟩ := Reading.bind_eq_clean.1 h
    cases h
    have hiterable := required_expr ih hd hiterable
    have hbody := required_stmt ih hd hbody
    refine .of_below ⟨hs, hiterable.filled, hbody.filled⟩
      (by rw [Stmt.seated, hiterable.seated, hbody.seated]) ?_
    simp only [slots, stmtSlots, List.forall_mem_append, forall_single]
    exact ⟨hiterable.storable.inExpr, hbody.storable.inStmt⟩
  next =>
    obtain ⟨test, htest, h⟩ := Reading.bind_eq_clean.1 h
    obtain ⟨body, hbody, h⟩ := Reading.bind_eq_clean.1 h
    cases h
    have htest := required_expr ih hd htest
    have hbody := required_stmt ih hd hbody
    refine .of_below ⟨hs, htest.filled, hbody.filled⟩
      (by rw [Stmt.seated, htest.seated, hbody.seated]) ?_
    simp only [slots, stmtSlots, List.forall_mem_append, forall_single]
    exact ⟨htest.storable.inExpr, hbody.storable.inStmt⟩
  next =>
    obtain ⟨body, hbody, h⟩ := Reading.bind_eq_clean.1 h
    obtain ⟨test, htest, h⟩ := Reading.bind_eq_clean.1 h
    cases h
    have hbody := required_stmt ih hd hbody
    have htest := required_expr ih hd htest
    refine .of_below ⟨hs, htest.filled, hbody.filled⟩
      (by rw [Stmt.seated, htest.seated, hbody.seated]) ?_
    simp only [slots, stmtSlots, List.forall_mem_append, forall_single]
    exact ⟨hbody.storable.inStmt, htest.storable.inExpr⟩
  next =>
    obtain ⟨selector, hselector, h⟩ := Reading.bind_eq_clean.1 h
    obtain ⟨cases, hcases, h⟩ := Reading.bind_eq_clean.1 h
    cases h
    have hselector := required_expr ih hd hselector
    obtain ⟨hcases, hseated⟩ := cases_sound ih hd hcases
    refine .of_below ⟨hs, hselector.filled⟩ (by rw [Stmt.seated, hselector.seated, hseated]) ?_
    simp only [slots, stmtSlots, List.forall_mem_append, forall_single]
    exact ⟨hselector.storable.inExpr, forall_listed.2 (by simpa using hcases)⟩
  next =>
    obtain ⟨resources, hresources, h⟩ := Reading.bind_eq_clean.1 h
    obtain ⟨body, hbody, h⟩ := Reading.bind_eq_clean.1 h
    obtain ⟨catches, hcatches, h⟩ := Reading.bind_eq_clean.1 h
    obtain ⟨cleanup, hcleanup, h⟩ := Reading.bind_eq_clean.1 h
    cases h
    have hresources := stmts_sound ih hd hresources
    have hbody := stmts_sound ih hd hbody
    obtain ⟨hcatches, hseated⟩ := catches_sound ih hd hcatches
    obtain ⟨hcleanup, hrest⟩ := cleanup_sound ih hd hcleanup
    refine .of_below ⟨hs, fun r hr => (hresources r hr).filled, rfl⟩ ?_ ?_
    · cases cleanup with
      | none => rw [Stmt.seated, seatedStmts_self hresources, seatedStmts_self hbody, hseated]
      | some b =>
          obtain ⟨t, rest⟩ := b
          rw [Stmt.seated, seatedStmts_self hresources, seatedStmts_self hbody, hseated,
            hrest _ rest rfl]
    · simp only [slots, stmtSlots, List.forall_mem_append, forall_single,
        List.forall_mem_singleton]
      refine ⟨⟨⟨forall_listed.2 fun r hr => (hresources r hr).storable.inStmt,
        block_storable hs hbody⟩, forall_listed.2 (by simpa using hcatches)⟩, fun n hn => ?_⟩
      obtain ⟨b, hb, rfl⟩ := Option.map_eq_some_iff.1 hn
      exact hcleanup b hb
  next =>
    obtain ⟨monitor, hmonitor, h⟩ := Reading.bind_eq_clean.1 h
    obtain ⟨body, hbody, h⟩ := Reading.bind_eq_clean.1 h
    cases h
    have hmonitor := required_expr ih hd hmonitor
    have hbody := stmts_sound ih hd hbody
    refine .of_below ⟨hs, hmonitor.filled, rfl⟩
      (by rw [Stmt.seated, hmonitor.seated, seatedStmts_self hbody]) ?_
    simp only [slots, stmtSlots, List.forall_mem_append, forall_single, List.forall_mem_singleton]
    exact ⟨hmonitor.storable.inExpr, block_storable hs hbody⟩
  next =>
    obtain ⟨body, hbody, h⟩ := Reading.bind_eq_clean.1 h
    cases h
    have hbody := required_stmt ih hd hbody
    refine .of_below ⟨hs, hbody.filled⟩ (by rw [Stmt.seated, hbody.seated]) ?_
    simp only [slots, stmtSlots, forall_single]
    exact hbody.storable.inStmt
  next =>
    cases h
    exact .of_below ⟨hs, trivial⟩ rfl (by simp [slots, stmtSlots])
  next =>
    cases h
    exact .of_below ⟨hs, trivial⟩ rfl (by simp [slots, stmtSlots])
  next =>
    obtain ⟨test, htest, h⟩ := Reading.bind_eq_clean.1 h
    obtain ⟨message, hmessage, h⟩ := Reading.bind_eq_clean.1 h
    cases h
    have htest := required_expr ih hd htest
    obtain ⟨hmessage, hseated⟩ := optional_expr_sound ih hd hmessage
    refine .of_below ⟨hs, htest.filled⟩ (by rw [Stmt.seated, htest.seated, hseated]) ?_
    simp only [slots, stmtSlots, List.forall_mem_append, forall_single]
    exact ⟨htest.storable.inExpr, hmessage⟩
  next => exact absurd h Reading.report_ne_clean

end Step

/-- Whatever is read from modest data without a problem is sound. -/
theorem sound_of_modest (file : String) (d : Data) : Sound file d := by
  have h : ∀ n, ∀ d : Data, sizeOf d < n -> Sound file d := by
    intro n
    induction n with
    | zero => intro d hd; omega
    | succ n ih =>
        intro d hsize hd
        have ih : ∀ x, sizeOf x < sizeOf d -> Sound file x := fun x hx => ih x (by omega)
        exact ⟨fun e he => readExpr_sound ih hd he, fun s hs => readStmt_sound ih hd hs⟩
  exact h _ d (Nat.lt_succ_self _)

theorem method_sound {m : Method} (hd : everyPart isModest d = true)
    (h : readMethod file d = ⟨m, []⟩) :
    Everywhere (Storable file) (.method m) ∧ m.seated = m := by
  have hs : Placed file (spanOf file d) := placed_spanOf (everyPart_self hd)
  rw [readMethod] at h
  obtain ⟨body, hbody, h⟩ := Reading.bind_eq_clean.1 h
  have hbody := stmts_sound (fun x _ => sound_of_modest file x) hd hbody
  dsimp only at h
  split at h
  next => exact absurd h Reading.report_ne_clean
  next hname =>
    cases h
    constructor
    · refine everywhere_iff.2 ⟨⟨hs, by simpa using hname, body, rfl⟩, ?_⟩
      simp only [slots, List.forall_mem_append, forall_single]
      refine ⟨params_storable d, fun n hn => ?_⟩
      cases hn
      exact block_storable hs hbody
    · simp only [Method.seated, Option.map_some, Block.span, Block.stmts, seatedStmts_self hbody]

/-- The unit of a modest document can be stored, and its lambdas are seated. -/
theorem read_sound {name : String} {u : CompilationUnit} (hname : name ≠ "")
    (hd : everyPart isModest d = true) (h : read name d = .ok u) :
    Everywhere (Storable u.file) (.unit u) ∧ u.seated = u := by
  rw [read] at h
  split at h
  next => cases h
  next =>
    dsimp only at h
    generalize hunit : (d.field? "unit").getD .null = unit at h
    have hmodest : everyPart isModest unit = true := by
      rw [← hunit]
      cases hfield : d.field? "unit" with
      | none => decide
      | some x => exact everyPart_field? hd hfield
    generalize hfile : (if (textField unit "file").isEmpty then name else textField unit "file") =
      file at h
    have hnonempty : file ≠ "" := by
      rw [← hfile]
      split
      next => exact hname
      next hgiven => simpa using hgiven
    split at h
    next => cases h
    next =>
      split at h
      next hclean =>
        cases h
        have hmethods : ∀ m ∈ (((unit.itemsOf "methods").filter fun x => !x.isNull).map
            (readMethod file)).map (·.value),
            Everywhere (Storable file) (.method m) ∧ m.seated = m := by
          intro m hm
          obtain ⟨r, hr, rfl⟩ := List.mem_map.1 hm
          have hproblems : r.problems = [] :=
            List.flatMap_eq_nil_iff.1 (List.isEmpty_iff.1 hclean) r hr
          obtain ⟨x, hx, rfl⟩ := List.mem_map.1 hr
          refine method_sound (everyPart_itemsOf hmodest (List.mem_of_mem_filter hx)) ?_
          rw [← hproblems]
        constructor
        · refine everywhere_iff.2 ⟨⟨rfl, rfl, hnonempty⟩, ?_⟩
          simp only [slots, forall_listed]
          intro m hm n hn
          cases hn
          exact (hmethods m hm).1
        · rw [CompilationUnit.seated]
          simp only [List.map_congr_left fun m hm => (hmethods m hm).2, List.map_id']
      next => cases h

end Accepted

end Document

end EarlyExit
