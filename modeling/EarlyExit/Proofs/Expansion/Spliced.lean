import EarlyExit.Proofs.Document.Fields
import EarlyExit.Proofs.Expansion.Move
import EarlyExit.Proofs.Tree.Change

/-!
# Where an anchor stands

An accepted anchor stands in a list of statements, alone after an arrow, or where a
statement takes a single one.  Splicing succeeds at all of these but one: a rule with
several statements, which documents may have.  Where it succeeds the anchor gives way to
the new statements, and nothing else in the tree changes.
-/

namespace EarlyExit.Expansion

open Node

/-- The statement of an accepted site that new statements take the place of. -/
def Verdict.anchor? : Verdict -> Option Path
  | .accepted ctx =>
      match ctx.place with
      | .anchored anchor | .lifted anchor _ => some anchor
      | .wrapped _ => none
  | _ => none

/-- Some site of the tree is accepted with that statement. -/
def ReportsAnchor (o : Options) (root : Node) (anchor : Path) : Prop :=
  ∃ x ∈ sites o root, (place root x.path x.span).verdict.anchor? = some anchor

instance (o : Options) (root : Node) (anchor : Path) : Decidable (ReportsAnchor o root anchor) :=
  inferInstanceAs (Decidable (∃ x ∈ sites o root, _ = _))

/-! ## Places for statements -/

/-- A single statement as it is, several with their yields made explicit. -/
def inList : List Stmt -> List Stmt
  | [t] => [t]
  | new => new.map Stmt.explicit

/-- A single statement as it is, several in a block. -/
def inOne (span : Span) : List Stmt -> Stmt
  | [t] => t
  | new => .block (.mk span (new.map Stmt.explicit))

/-- Statements in the place of one, for each place that a statement may have. -/
inductive Seated (new : List Stmt) (s : Stmt) : Node -> Slot -> Node -> Prop
  | block (span : Span) (before after : List Stmt) :
      Seated new s (.stmt (.block (.mk span (before ++ s :: after)))) (.stmt before.length)
        (.stmt (.block (.mk span (before ++ new.map Stmt.explicit ++ after))))
  | group (span : Span) (labels : List Expr) (before after : List Stmt) :
      Seated new s (.arm (.mk span labels false (before ++ s :: after))) (.stmt before.length)
        (.arm (.mk span labels false (before ++ inList new ++ after)))
  | rule (span : Span) (labels : List Expr) :
      Seated new s (.arm (.mk span labels true [s])) (.stmt 0)
        (.arm (.mk span labels true [.block (.mk s.span (new.map Stmt.explicit))]))
  | onTrue (span : Span) (test : Expr) (onFalse : Stmt) :
      Seated new s (.stmt (.branch span test s onFalse)) .onTrue
        (.stmt (.branch span test (inOne s.span new) onFalse))
  | onFalse (span : Span) (test : Expr) (onTrue : Stmt) :
      Seated new s (.stmt (.branch span test onTrue s)) .onFalse
        (.stmt (.branch span test onTrue (inOne s.span new)))
  | forLoop (span : Span) (init : List Stmt) (test : Expr) (update : List Expr) :
      Seated new s (.stmt (.forLoop span init test update s)) .body
        (.stmt (.forLoop span init test update (inOne s.span new)))
  | forEach (span : Span) (name type : String) (iterable : Expr) :
      Seated new s (.stmt (.forEach span name type iterable s)) .body
        (.stmt (.forEach span name type iterable (inOne s.span new)))
  | whileLoop (span : Span) (test : Expr) :
      Seated new s (.stmt (.whileLoop span test s)) .body
        (.stmt (.whileLoop span test (inOne s.span new)))
  | doWhile (span : Span) (test : Expr) :
      Seated new s (.stmt (.doWhile span s test)) .body
        (.stmt (.doWhile span (inOne s.span new) test))

theorem Seated.suits {new : List Stmt} {s : Stmt} {parent changed : Node} {slot : Slot}
    (h : Seated new s parent slot changed) : Suits parent changed ∧ changed.isFilled = true := by
  cases h <;> simp [Suits, isFilled, Stmt.isMissing]

theorem inOne_eq (span : Span) (new : List Stmt) :
    asOne span (if new.length = 1 then new else new.map Stmt.explicit) = inOne span new := by
  match new with
  | [] | [t] | t :: u :: rest => rfl

theorem inList_eq (new : List Stmt) :
    (if new.length = 1 then new else new.map Stmt.explicit) = inList new := by
  match new with
  | [] | [t] | t :: u :: rest => rfl

/-- An arm that has an arrow and not just one statement after it. -/
def isLongRule : Node -> Bool
  | .arm (.mk _ _ true body) => body.length != 1
  | _ => false

theorem spliceEntry_append (before after : List Stmt) (s : Stmt) (new : List Stmt) :
    spliceEntry (before ++ s :: after) before.length new = before ++ new ++ after := by
  simp [spliceEntry]

theorem split_at {ss : List Stmt} {i : Nat} {s : Stmt} (h : ss[i]? = some s) :
    ∃ before after, ss = before ++ s :: after ∧ i = before.length := by
  obtain ⟨hlt, heq⟩ := List.getElem?_eq_some_iff.1 h
  refine ⟨ss.take i, ss.drop (i + 1), ?_, ?_⟩
  · rw [← heq, List.cons_getElem_drop_succ, List.take_append_drop]
  · rw [List.length_take]
    omega

/-- Where a statement takes a single one, splicing replaces that. -/
theorem spliceInto_single {parent changed : Stmt} {slot : Slot} {s : Stmt} {new : List Stmt}
    (hget : (Node.stmt parent).get? slot = some (.stmt s)) (hblock : ∀ b, parent ≠ .block b)
    (hset : (Node.stmt parent).set? slot (.stmt (inOne s.span new)) = some (.stmt changed)) :
    spliceInto (.stmt parent) slot s new = .ok (.stmt changed) := by
  unfold spliceInto
  split
  next heq => exact absurd (Node.stmt.inj heq) (hblock _)
  next heq => cases heq
  next heq => cases heq
  next => simp only [inOne_eq, Node.replaceChild, hget, isOperand, if_true, hset]

/-- Splicing into the parent of an accepted anchor. -/
theorem spliceInto_seated {parent : Node} {slot : Slot} {s : Stmt}
    (hget : parent.get? slot = some (.stmt s)) (hholds : (shape parent slot).holds = true)
    (new : List Stmt) :
    if isLongRule parent then
      spliceInto parent slot s new =
        .error (.inconsistentTree s.span "anchor is not the body of its case rule")
    else ∃ changed, spliceInto parent slot s new = .ok changed ∧
      Seated new s parent slot changed := by
  have hmem := get?_eq_some.1 hget
  cases parent with
  | arm c =>
      obtain ⟨span, labels, arrow, body⟩ := c
      rcases List.mem_append.1 hmem with hlabel | hbody
      · obtain ⟨_, _, _, _, hview⟩ := mem_listed.1 hlabel
        cases (ofExpr?_eq_some.1 hview).1
      · obtain ⟨i, rfl, hs, -⟩ := mem_stmtList hbody
        obtain ⟨before, after, rfl, rfl⟩ := split_at hs
        cases arrow with
        | false =>
            exact ⟨_, rfl, by
              rw [inList_eq, spliceEntry_append]
              exact .group span labels before after⟩
        | true =>
            by_cases hone : (before ++ s :: after).length = 1
            · obtain ⟨rfl, rfl⟩ : before = [] ∧ after = [] := by
                rw [List.length_append, List.length_cons] at hone
                exact ⟨List.length_eq_zero_iff.1 (by omega), List.length_eq_zero_iff.1 (by omega)⟩
              exact ⟨_, rfl, .rule span labels⟩
            · have hlong : isLongRule (.arm (.mk span labels true (before ++ s :: after))) = true := by
                simpa [isLongRule] using hone
              rw [if_pos hlong]
              exact if_neg hone
  | stmt t =>
      cases t with
      | block b =>
          obtain ⟨span, ss⟩ := b
          obtain ⟨i, rfl, hs, -⟩ := mem_stmtList
            (show (_, _) ∈ listed .stmt ofStmt? 0 ss from hmem)
          obtain ⟨before, after, rfl, rfl⟩ := split_at hs
          exact ⟨_, rfl, by
            rw [spliceEntry_append]
            exact .block span before after⟩
      | branch span test onTrue onFalse =>
          simp [slots, stmtSlots, mem_single, ofExpr?_eq_some, ofStmt?_eq_some] at hmem
          obtain ⟨rfl, rfl, -⟩ | ⟨rfl, rfl, -⟩ := hmem
          · exact ⟨_, spliceInto_single hget (by simp) rfl, .onTrue span test onFalse⟩
          · exact ⟨_, spliceInto_single hget (by simp) rfl, .onFalse span test onTrue⟩
      | forLoop span init test update body =>
          obtain rfl : slot = .body := by simpa [shape, stmtShape, Shape.holds] using hholds
          simp [slots, stmtSlots, mem_single, mem_listed, ofStmt?_eq_some] at hmem
          obtain ⟨rfl, -⟩ := hmem
          exact ⟨_, spliceInto_single hget (by simp) rfl, .forLoop span init test update⟩
      | forEach span name type iterable body =>
          simp [slots, stmtSlots, mem_single, ofExpr?_eq_some, ofStmt?_eq_some] at hmem
          obtain ⟨rfl, rfl, -⟩ := hmem
          exact ⟨_, spliceInto_single hget (by simp) rfl, .forEach span name type iterable⟩
      | whileLoop span test body =>
          simp [slots, stmtSlots, mem_single, ofExpr?_eq_some, ofStmt?_eq_some] at hmem
          obtain ⟨rfl, rfl, -⟩ := hmem
          exact ⟨_, spliceInto_single hget (by simp) rfl, .whileLoop span test⟩
      | doWhile span body test =>
          simp [slots, stmtSlots, mem_single, ofExpr?_eq_some, ofStmt?_eq_some] at hmem
          obtain ⟨rfl, rfl, -⟩ := hmem
          exact ⟨_, spliceInto_single hget (by simp) rfl, .doWhile span test⟩
      | _ => simp [shape, stmtShape, Shape.holds] at hholds
  | expr e => exact absurd (face?_of_holds hholds) (by simp [face?])
  | _ => simp [shape, Shape.holds] at hholds

/-! ## The whole tree -/

theorem ReportsAnchor.task {o : Options} {root : Node} {anchor : Path}
    (h : ReportsAnchor o root anchor) :
    ∃ x ∈ sites o root, ∃ t : Task, t.Of root x ∧
      (t.context.place = .anchored anchor ∨ ∃ p, t.context.place = .lifted anchor p) := by
  obtain ⟨x, hx, hanchor⟩ := h
  cases haccepted : (place root x.path x.span).verdict with
  | rejected | failed => simp [haccepted, Verdict.anchor?] at hanchor
  | accepted ctx =>
      refine ⟨x, hx, ⟨x, (place root x.path x.span).chain, ctx⟩, ⟨rfl, rfl, haccepted⟩, ?_⟩
      cases hplace : ctx.place <;> simp_all [Verdict.anchor?]

/-- The statement that an accepted site reaches stands where it may be given a prologue. -/
theorem anchor_holds {o : Options} {root : Node} {anchor : Path} (h : ReportsAnchor o root anchor) :
    ∃ p slot parent s, anchor = p ++ [slot] ∧ root.at? p = some parent ∧
      parent.get? slot = some (.stmt s) ∧ (shape parent slot).holds = true := by
  obtain ⟨x, hx, t, ht, hplace⟩ := h.task
  obtain ⟨low, conds, tail, c, hc, hkind, hup, hlow, hconds, hends, _⟩ := ht.above hx
  have hinline : ∀ b ∈ low ++ conds, (shape b.node b.slot).isInline = true := by
    intro b hb
    rcases List.mem_append.1 hb with hb | hb
    · exact isInline_of_passes (hlow b hb)
    · exact isInline_conditional (hconds b hb)
  -- whichever way the site has come, only operands and conditionals lie below its statement
  obtain ⟨mid, a, s, rest, hnode, hpath, hsplit, hmid⟩ : ∃ mid a s rest, a.node = .stmt s ∧
      a.path = anchor ∧ root.spine x.path = mid ++ a :: rest ∧
      ∀ b ∈ mid, (shape b.node b.slot).isInline = true := by
    generalize conds.getLast? = top at hends
    rcases hplace with hplace | ⟨_, hplace⟩ <;> rw [hplace] at hends <;> cases hends
    case anchored hnode hslot => exact ⟨_, _, _, _, hnode, rfl, hup, hinline⟩
    case lifted hnode hlifts => exact ⟨_, _, _, _, hnode, rfl, hup, hinline⟩
    case assigned b a _ _ _ _ _ _ _ _ rest hassign hvalue hnode hslot =>
      refine ⟨low ++ conds ++ [b], a, _, rest, hnode, rfl, by simp [hup], fun z hz => ?_⟩
      rcases List.mem_append.1 hz with hz | hz
      · exact hinline z hz
      · rw [List.mem_singleton.1 hz, hassign, hvalue]
        rfl
  obtain ⟨_, _, hat, _, _, _, rfl, _⟩ := spine_split hc hsplit
  obtain ⟨h, up, hshapes, hholds⟩ := ht.holds hnode hsplit hmid
  rw [hpath] at hat hshapes
  rcases List.eq_nil_or_concat anchor with rfl | ⟨p, slot, rfl⟩
  · cases hshapes
  · rw [List.concat_eq_append] at hat hshapes ⊢
    obtain ⟨parent, hparent, hget⟩ := at?_concat_eq_some.1 hat
    rw [spine_concat hparent hget, shapes_cons, List.cons.injEq] at hshapes
    exact ⟨p, slot, parent, s, rfl, hparent, hnode ▸ hget, by rw [hshapes.1]; exact hholds⟩

/--
Splicing at the anchor of an accepted site.  It fails at a rule that has not just the anchor
after its arrow.  Anywhere else it succeeds, with the statements seated in the place of the
anchor and the tree changed in nothing but the parent.
-/
theorem splice_seats {o : Options} {root : Node} {anchor : Path} (h : ReportsAnchor o root anchor) :
    ∃ p slot parent s, anchor = p ++ [slot] ∧ root.at? p = some parent ∧
      parent.get? slot = some (.stmt s) ∧ ∀ new,
        if isLongRule parent then
          splice root anchor s new =
            .error (.inconsistentTree s.span "anchor is not the body of its case rule")
        else ∃ root' changed, splice root anchor s new = .ok root' ∧
          Seated new s parent slot changed ∧ ChangedAt p changed root root' := by
  obtain ⟨p, slot, parent, s, rfl, hparent, hget, hholds⟩ := anchor_holds h
  refine ⟨p, slot, parent, s, rfl, hparent, hget, fun new => ?_⟩
  have hinto := spliceInto_seated hget hholds new
  by_cases hlong : isLongRule parent = true
  · rw [if_pos hlong] at hinto ⊢
    simp [splice, hparent, hinto]
  · rw [if_neg hlong] at hinto ⊢
    obtain ⟨changed, hok, hseated⟩ := hinto
    obtain ⟨hsuits, hfilled⟩ := hseated.suits
    obtain ⟨root', hput, -⟩ := exists_put hparent hsuits
    refine ⟨root', changed, ?_, hseated, changedAt_of_put hparent hfilled hput⟩
    simp [splice, hparent, hok, putAt, hput]

/-- A document of `m(int k) { switch (k) { default -> { f(k).unwrap(); g(); } } }` without the block. -/
def ruleDocument : Data :=
  .map [("format", .str "1.0.0"), ("unit", .map [("file", .str "Rule.java"), ("methods", .list [
    .map [("name", .str "m"), ("params", .list [.map [("name", .str "k")]]), ("body", .list [
      .map [("kind", .str "switch"), ("selector", .map [("kind", .str "ident"), ("name", .str "k")]),
        ("cases", .list [.map [("arrow", .bool true), ("body", .list [
          .map [("kind", .str "expr"), ("expr", .map [("kind", .str "call"),
            ("name", .str "unwrap"), ("recv", .map [("kind", .str "call"), ("name", .str "f"),
              ("type", .str "Either<String, Integer>")])])],
          .map [("kind", .str "expr"), ("expr", .map [("kind", .str "call"),
            ("name", .str "g")])]])]])]])]])])]

/-- The statement `f().unwrap();`. -/
abbrev ruleStatement : Stmt :=
  .expr .nowhere (.call .nowhere (.call .nowhere .missing "f" [] "Either<String, Integer>")
    "unwrap" [] "")

/-- The statement `g();`. -/
abbrev ruleCall : Stmt :=
  .expr .nowhere (.call .nowhere .missing "g" [] "")

def ruleUnit : CompilationUnit where
  span := .point "Rule.java" 1 1
  file := "Rule.java"
  methods := [{
    name := "m"
    params := [⟨.nowhere, "k", ""⟩]
    body := some (.mk .nowhere [.switch .nowhere (.ident .nowhere "k" "")
      [.mk .nowhere [] true [ruleStatement, ruleCall]]]) }]

theorem read_ruleDocument : Document.read "Rule.java" ruleDocument = .ok ruleUnit := by
  refine Document.read_single (d := ruleDocument) ?_ ?_ rfl ?_ rfl rfl ?_
  · decide +kernel
  · cbv
  · decide +kernel
  · cbv

def rulePath : Path :=
  [.method 0, .body, .stmt 0, .arm 0, .stmt 0]

theorem splice_seats_ruleUnit :
    Document.read "Rule.java" ruleDocument = .ok ruleUnit ∧
      ReportsAnchor {} (.unit ruleUnit) rulePath ∧
      splice (.unit ruleUnit) rulePath ruleStatement [ruleStatement, ruleCall] =
        .error (.inconsistentTree .nowhere "anchor is not the body of its case rule") := by
  have hreports : ReportsAnchor {} (.unit ruleUnit) rulePath := by decide +kernel
  obtain ⟨p, slot, parent, s, hpath, hparent, hget, hsplice⟩ := splice_seats hreports
  obtain ⟨rfl, rfl⟩ : [.method 0, .body, .stmt 0, .arm 0] = p ∧ Slot.stmt 0 = slot := by
    simpa using List.append_inj' (show [_, _, _, _] ++ [_] = p ++ [slot] from hpath) rfl
  cases hparent
  cases hget
  exact ⟨read_ruleDocument, hreports, hsplice [ruleStatement, ruleCall]⟩

end EarlyExit.Expansion
