import EarlyExit.Proofs.Expansion.Outlook
import EarlyExit.Proofs.Tree.Spine

/-!
# Splicing changes one statement

Splicing puts statements in the place of one, in the list it stands in or as a block
where only one fits.  The other children of the parent stay, in their order and below
the same shape.  Sites elsewhere see no difference; sites in the new statements see
the parent, perhaps through a block.
-/

namespace EarlyExit.Expansion

/-- A child with the shape of its parent seen from it. -/
def seen (n : Node) (x : Slot × Node) : Shape × Node :=
  (shape n x.1, x.2)

def outline (n : Node) : List (Shape × Node) :=
  n.slots.map (seen n)

theorem ways_outline (o : Options) (n : Node) :
    ways o n = (if (siteKind? o n).isSome then [[]] else []) ++
      (outline n).flatMap fun x => (ways o x.2).map (· ++ [x.1]) := by
  rw [ways_eq, outline, List.flatMap_map]
  rfl

theorem listed_nodes (slot : Nat -> Slot) (view : α -> Option Node) (k : Nat) (l : List α) :
    (Node.listed slot view k l).map (·.2) = l.filterMap view := by
  induction l generalizing k with
  | nil => rfl
  | cons a rest ih =>
      simp only [Node.listed, List.filterMap_cons]
      cases view a <;> simp [ih]

def blockShape : StmtShape where
  anchors := false
  throws := false
  typedTemp := false
  isExpr := false
  holds := true

theorem outline_of_shape {n : Node} {h : Shape} (hshape : ∀ slot, shape n slot = h) :
    outline n = n.children.map (h, ·) := by
  simp [outline, seen, Node.children, hshape]

theorem outline_block (s : Span) (ss : List Stmt) :
    outline (.stmt (.block (.mk s ss))) =
      (ss.filterMap Node.ofStmt?).map (.stmt blockShape, ·) := by
  rw [outline_of_shape (h := .stmt blockShape) fun _ => by simp [shape, stmtShape, blockShape,
    Stmt.anchorSlot?, Stmt.needsTypedTemp]]
  simp [Node.children, Node.slots, Node.stmtSlots, Block.stmts, listed_nodes]

theorem outline_arm (s : Span) (labels : List Expr) (arrow : Bool) (body : List Stmt) :
    outline (.arm (.mk s labels arrow body)) =
      (labels.filterMap Node.ofExpr? ++ body.filterMap Node.ofStmt?).map (.arm, ·) := by
  rw [outline_of_shape (h := .arm) fun _ => rfl]
  simp [Node.children, Node.slots, Case.labels, Case.body, listed_nodes]

/-! ## The children of the changed parent -/

/-- The nodes that stand for new statements in their parent. -/
inductive Row (new : List Stmt) : List Node -> Prop
  | listed : Row new (new.map .stmt)
  | explicit : Row new (new.map fun s => .stmt s.explicit)
  | block (span : Span) : Row new [.stmt (.block (.mk span (new.map Stmt.explicit)))]

theorem filterMap_ofStmt? {new : List Stmt} (h : ∀ t ∈ new, t.isMissing = false) :
    new.filterMap Node.ofStmt? = new.map .stmt := by
  induction new with
  | nil => rfl
  | cons t rest ih =>
      rw [List.filterMap_cons, Node.ofStmt?_of_filled (h t (by simp)),
        ih fun u hu => h u (by simp [hu])]
      rfl

theorem isMissing_explicit (s : Stmt) : s.explicit.isMissing = s.isMissing := by
  cases s <;> rfl

theorem filterMap_explicit {new : List Stmt} (h : ∀ t ∈ new, t.isMissing = false) :
    (new.map Stmt.explicit).filterMap Node.ofStmt? = new.map fun s => .stmt s.explicit := by
  rw [filterMap_ofStmt?]
  · simp
  · simpa [isMissing_explicit] using h

/-- The slots on both sides of an entry of a list. -/
theorem listed_split {slot : Nat -> Slot} {view : α -> Option Node} {k i : Nat} {l : List α}
    {a : α} {n : Node} (ha : l[i]? = some a) (hn : view a = some n) :
    Node.listed slot view k l = Node.listed slot view k (l.take i) ++
      (slot (k + i), n) :: Node.listed slot view (k + i + 1) (l.drop (i + 1)) := by
  induction l generalizing k i with
  | nil => simp at ha
  | cons b rest ih =>
      cases i with
      | zero =>
          simp only [List.getElem?_cons_zero, Option.some.injEq] at ha
          subst ha
          simp [Node.listed, hn]
      | succ i =>
          have hi := ih (k := k + 1) (by simpa using ha)
          rw [show k + 1 + i = k + (i + 1) by omega] at hi
          simp only [List.take_succ_cons, List.drop_succ_cons, Node.listed]
          split <;> simp [hi]

theorem listed_split_zero {slot : Nat -> Slot} {view : α -> Option Node} {i : Nat} {l : List α}
    {a : α} {n : Node} (ha : l[i]? = some a) (hn : view a = some n) :
    Node.listed slot view 0 l = Node.listed slot view 0 (l.take i) ++
      (slot i, n) :: Node.listed slot view (i + 1) (l.drop (i + 1)) := by
  simpa using listed_split (k := 0) ha hn

theorem listed_seen {n : Node} {h : Shape} (hshape : ∀ slot, shape n slot = h)
    (slot : Nat -> Slot) (view : α -> Option Node) (k : Nat) (l : List α) :
    (Node.listed slot view k l).map (seen n) = (l.filterMap view).map (h, ·) := by
  rw [← listed_nodes slot view k l, List.map_map]
  refine List.map_congr_left fun x _ => ?_
  simp [seen, hshape]

/-- The entry of a statement list at a slot. -/
theorem mem_stmtList {slot : Slot} {s : Stmt} {ss : List Stmt}
    (h : (slot, Node.stmt s) ∈ Node.listed .stmt Node.ofStmt? 0 ss) :
    ∃ i, slot = .stmt i ∧ ss[i]? = some s ∧ s.isMissing = false := by
  obtain ⟨i, t, ht, hslot, hview⟩ := Node.mem_listed.1 h
  obtain ⟨heq, hfilled⟩ := Node.ofStmt?_eq_some.1 hview
  cases heq
  exact ⟨i, by simpa using hslot, ht, hfilled⟩

theorem mem_armBody {span : Span} {labels : List Expr} {arrow : Bool} {body : List Stmt} {i : Nat}
    {s : Stmt} (h : (Slot.stmt i, Node.stmt s) ∈ (Node.arm (.mk span labels arrow body)).slots) :
    (Slot.stmt i, Node.stmt s) ∈ Node.listed .stmt Node.ofStmt? 0 body := by
  rcases List.mem_append.1 h with hlabel | hstmt
  · obtain ⟨_, _, _, hslot, _⟩ := Node.mem_listed.1 hlabel
    cases hslot
  · exact hstmt

/-- What is put where only one statement fits. -/
theorem asOne_row (span : Span) {new : List Stmt} (hnew : ∀ t ∈ new, t.isMissing = false) :
    let one := asOne span (if new.length = 1 then new else new.map Stmt.explicit)
    Row new [.stmt one] ∧ one.isMissing = false := by
  intro one
  by_cases hone : new.length = 1
  · obtain ⟨t, rfl⟩ := List.length_eq_one_iff.1 hone
    exact ⟨.listed, hnew t (by simp)⟩
  · have hblock : one = .block (.mk span (new.map Stmt.explicit)) := by
      simp only [one, if_neg hone]
      cases new with
      | nil => rfl
      | cons t rest =>
          cases rest with
          | nil => simp at hone
          | cons u rest => rfl
    rw [hblock]
    exact ⟨.block span, rfl⟩

theorem shape_block (s : Span) (ss : List Stmt) (slot : Slot) :
    shape (.stmt (.block (.mk s ss))) slot = .stmt blockShape := by
  simp [shape, stmtShape, blockShape, Stmt.anchorSlot?, Stmt.needsTypedTemp]

theorem shape_arm (s : Span) (labels : List Expr) (arrow : Bool) (body : List Stmt) (slot : Slot) :
    shape (.arm (.mk s labels arrow body)) slot = .arm := rfl

/-- Splicing keeps the children on both sides of the statement. -/
theorem spliceInto_outline {parent changed : Node} {slot : Slot} {s : Stmt} {new : List Stmt}
    (hget : parent.get? slot = some (.stmt s)) (hnew : ∀ t ∈ new, t.isMissing = false)
    (h : spliceInto parent slot s new = .ok changed) :
    ∃ l mid r, parent.slots = l ++ (slot, .stmt s) :: r ∧
      outline changed = l.map (seen parent) ++ mid.map (shape parent slot, ·) ++
        r.map (seen parent) ∧ Row new mid := by
  have hmem := Node.get?_eq_some.1 hget
  unfold spliceInto at h
  split at h
  next s' ss i =>
    -- a list of statements
    obtain ⟨j, hj, hs, hfilled⟩ :=
      mem_stmtList (show (_, _) ∈ Node.listed .stmt Node.ofStmt? 0 ss from hmem)
    cases hj
    cases h
    refine ⟨Node.listed .stmt Node.ofStmt? 0 (ss.take i), _,
      Node.listed .stmt Node.ofStmt? (i + 1) (ss.drop (i + 1)), ?_, ?_, .explicit⟩
    · exact listed_split_zero hs (Node.ofStmt?_of_filled hfilled)
    · rw [outline_block]
      simp only [listed_seen (shape_block s' ss), shape_block]
      simp [spliceEntry, filterMap_explicit hnew]
  next s' labels body i =>
    -- the one statement after an arrow
    obtain ⟨j, hj, hs, hfilled⟩ := mem_stmtList (mem_armBody hmem)
    cases hj
    split at h
    next hone =>
      cases h
      obtain ⟨t, rfl⟩ := List.length_eq_one_iff.1 hone
      obtain ⟨rfl, rfl⟩ : i = 0 ∧ t = s := by
        have hlt := (List.getElem?_eq_some_iff.1 hs).1
        simp only [List.length_cons, List.length_nil, Nat.zero_add, Nat.lt_one_iff] at hlt
        subst hlt
        exact ⟨rfl, by simpa using hs⟩
      refine ⟨Node.listed .label Node.ofExpr? 0 labels, _, [], ?_, ?_, .block t.span⟩
      · simp [Node.slots, Case.labels, Case.body, Node.listed, Node.ofStmt?_of_filled hfilled]
      · rw [outline_arm, listed_seen (shape_arm s' labels true [t])]
        simp [Node.ofStmt?, shape]
    next => cases h
  next s' labels body i =>
    -- the statements of an arm that falls through
    cases h
    obtain ⟨j, hj, hs, hfilled⟩ := mem_stmtList (mem_armBody hmem)
    cases hj
    refine ⟨Node.listed .label Node.ofExpr? 0 labels ++
      Node.listed .stmt Node.ofStmt? 0 (body.take i),
      (if new.length = 1 then new else new.map Stmt.explicit).filterMap Node.ofStmt?,
      Node.listed .stmt Node.ofStmt? (i + 1) (body.drop (i + 1)), ?_, ?_, ?_⟩
    · simp only [Node.slots, Case.labels, Case.body]
      rw [listed_split_zero hs (Node.ofStmt?_of_filled hfilled)]
      simp
    · rw [outline_arm]
      simp only [List.map_append, listed_seen (shape_arm s' labels false body), shape_arm]
      simp [spliceEntry]
    · split
      · rw [filterMap_ofStmt? hnew]
        exact .listed
      · rw [filterMap_explicit hnew]
        exact .explicit
  next =>
    -- a place for a single statement
    obtain ⟨hrow, hfilled⟩ := asOne_row s.span hnew
    simp only [Node.replaceChild, hget, Node.isOperand, if_true] at h
    split at h
    next hset =>
      cases h
      have hone : (Node.stmt (asOne s.span
          (if new.length = 1 then new else new.map Stmt.explicit))).isFilled = true := by
        simp [Node.isFilled, hfilled]
      obtain ⟨l, r, hl, hr, _⟩ := Node.slots_set_split hget hone hset
      refine ⟨l, _, r, hl, ?_, hrow⟩
      have hseen : seen changed = seen parent := by
        funext x
        simp [seen, shape_set hget hset rfl]
      simp [outline, hr, hseen]
      simp [seen]
    next => cases h

theorem spliceInto_face {parent changed : Node} {slot : Slot} {s : Stmt} {new : List Stmt}
    (h : spliceInto parent slot s new = .ok changed) :
    parent.face? = changed.face? ∧ changed.isFilled = true := by
  unfold spliceInto at h
  split at h
  · cases h
    exact ⟨rfl, rfl⟩
  · split at h <;> cases h
    exact ⟨rfl, rfl⟩
  · cases h
    exact ⟨rfl, rfl⟩
  · simp only [Node.replaceChild] at h
    split at h
    next hput =>
      cases h
      split at hput
      next =>
        split at hput
        · exact ⟨(face?_set hput).symm, Node.isFilled_set hput⟩
        · cases hput
      next => cases hput
    next => cases h

theorem face?_of_holds {n : Node} {slot : Slot} (h : (shape n slot).holds = true) :
    n.face? = none := by
  cases n with
  | expr e =>
      cases e <;> simp only [shape] at h
      all_goals repeat' split at h
      all_goals simp [Shape.holds] at h
  | _ => rfl

theorem siteKind?_of_face {o : Options} {n : Node} (h : n.face? = none) :
    siteKind? o n = none := by
  cases n <;> simp_all [Node.face?, siteKind?]

/-! ## The whole tree -/

theorem putAt_ok {root root' new : Node} {p : Path} {span : Span}
    (h : putAt root p span new = .ok root') : root.put? new p = some root' := by
  unfold putAt at h
  split at h
  next hput =>
    cases h
    exact hput
  next => cases h

/-- Splicing changes the parent of the statement, in its place. -/
theorem splice_ok {root root' : Node} {anchor : Path} {s : Stmt} {new : List Stmt}
    (hat : root.at? anchor = some (.stmt s)) (h : splice root anchor s new = .ok root') :
    ∃ p slot parent changed, anchor = p ++ [slot] ∧ root.at? p = some parent ∧
      parent.get? slot = some (.stmt s) ∧ spliceInto parent slot s new = .ok changed ∧
      root.put? changed p = some root' := by
  unfold splice at h
  split at h
  next slot parent hlast hparent =>
    have hanchor : anchor = anchor.dropLast ++ [slot] :=
      (List.dropLast_append_getLast? slot hlast).symm
    rw [hanchor, Node.at?_concat_eq_some] at hat
    obtain ⟨c, hc, hslot⟩ := hat
    rw [hparent] at hc
    cases hc
    split at h
    next hsplice => exact ⟨_, slot, parent, _, hanchor, hparent, hslot, hsplice, putAt_ok h⟩
    next => cases h
  next => cases h

/-- Shapes that stand for the shape of a parent as far as statements below it can tell. -/
structure Stands (h : Shape) (x : List Shape) : Prop where
  holds : ∀ up, (x ++ up).head?.any Shape.holds = true
  exit : ∀ up, scopeExit? (x ++ up) = scopeExit? (h :: up)

theorem stands_self {h : Shape} (hholds : h.holds = true) : Stands h [h] :=
  ⟨fun _ => by simp [hholds], fun _ => rfl⟩

theorem stands_block (h : Shape) : Stands h [.stmt blockShape, h] :=
  ⟨fun _ => rfl, fun _ => rfl⟩

theorem outline_explicit (s : Stmt) : outline (.stmt s.explicit) = outline (.stmt s) := by
  cases s <;> rfl

theorem ways_explicit (o : Options) (s : Stmt) :
    ways o (.stmt s.explicit) = ways o (.stmt s) := by
  rw [ways_outline, ways_outline, outline_explicit]
  rfl

/-- The sites of new statements see their parent, perhaps through a block. -/
theorem Row.ways {new : List Stmt} {mid : List Node} (hrow : Row new mid)
    (hnew : ∀ t ∈ new, t.isMissing = false) {h : Shape} (hholds : h.holds = true) (o : Options) :
    ∃ x, Stands h x ∧ (mid.flatMap fun n => (ways o n).map (· ++ [h])) =
      (new.flatMap fun t => ways o (.stmt t)).map (· ++ x) := by
  cases hrow with
  | listed => exact ⟨[h], stands_self hholds, by simp [List.flatMap_map, List.map_flatMap]⟩
  | explicit =>
      exact ⟨[h], stands_self hholds, by simp [List.flatMap_map, List.map_flatMap, ways_explicit]⟩
  | block span =>
      refine ⟨_, stands_block h, ?_⟩
      rw [List.flatMap_singleton, ways_outline, outline_block, filterMap_explicit hnew]
      simp [siteKind?, List.flatMap_map, List.map_flatMap, ways_explicit, Function.comp_def]

/--
What splicing does to the ways up from all sites.  The lists `l` and `r` are of the sites
on both sides of the statement.
-/
theorem splice_ways {o : Options} {root root' : Node} {anchor : Path} {s : Stmt}
    {new : List Stmt} {h : Shape} {up : List Shape} (hat : root.at? anchor = some (.stmt s))
    (hup : shapes (root.spine anchor) = h :: up) (hholds : h.holds = true)
    (hnew : ∀ t ∈ new, t.isMissing = false) (hsplice : splice root anchor s new = .ok root') :
    ∃ l x r, Stands h x ∧
      located o root = l ++
        (located o (.stmt s)).map (fun y => (anchor ++ y.1, y.2 ++ h :: up)) ++ r ∧
      ways o root' = l.map (·.2) ++
        (new.flatMap fun t => ways o (.stmt t)).map (· ++ (x ++ up)) ++ r.map (·.2) ∧
      ∀ y ∈ l ++ r, anchor.below? y.1 = none := by
  obtain ⟨p, slot, parent, changed, rfl, hp, hslot, hinto, hput⟩ := splice_ok hat hsplice
  rw [Node.spine_concat hp hslot, shapes_cons, List.cons.injEq] at hup
  obtain ⟨rfl, rfl⟩ := hup
  obtain ⟨hface, hfilled⟩ := spliceInto_face hinto
  obtain ⟨l, r, hl, hr, hlr⟩ := located_put (o := o) hp hput hfilled hface
  obtain ⟨before, mid, after, hparent, hchanged, hrow⟩ := spliceInto_outline hslot hnew hinto
  obtain ⟨x, hx, hmid⟩ := hrow.ways hnew hholds o
  have hsite : siteKind? o parent = none ∧ siteKind? o changed = none :=
    ⟨siteKind?_of_face (face?_of_holds hholds),
      siteKind?_of_face (hface ▸ face?_of_holds hholds)⟩
  let below (y : Slot × Node) : List (Path × List Shape) := (located o y.2).map (raise parent y.1)
  let upper (y : Path × List Shape) : Path × List Shape :=
    (p ++ y.1, y.2 ++ shapes (root.spine p))
  refine ⟨l ++ (before.flatMap below).map upper, x, (after.flatMap below).map upper ++ r, hx,
    ?_, ?_, ?_⟩
  · rw [hl, located_eq, hparent, hsite.1]
    simp [below, upper, Function.comp_def, raise]
  · rw [hr, ways_outline, hchanged, hsite.2]
    simp only [List.flatMap_append, List.flatMap_map, hmid]
    simp [below, upper, Function.comp_def, raise, seen, ways, List.map_flatMap]
  · have hother (z : Slot × Node) (hz : z ∈ before ++ after) :
        ∀ y ∈ (below z).map upper, Path.below? (p ++ [slot]) y.1 = none := by
      intro y hy
      obtain ⟨_, hy', rfl⟩ := List.mem_map.1 hy
      obtain ⟨w, _, rfl⟩ := List.mem_map.1 hy'
      rw [Path.below?_append]
      simp [upper, raise, Path.below?_self_append, Path.below?, Ne.symm (Node.slots_ne hparent z hz)]
    have hthis (y : Path × List Shape) (hy : y ∈ l ++ r) :
        Path.below? (p ++ [slot]) y.1 = none := by
      rw [Path.below?_append]
      simp [hlr y hy]
    intro y hy
    rw [List.map_flatMap, List.map_flatMap] at hy
    simp only [List.mem_append, List.mem_flatMap] at hy
    rcases hy with (hy | ⟨z, hz, hy⟩) | (⟨z, hz, hy⟩ | hy)
    · exact hthis y (by simp [hy])
    · exact hother z (by simp [hz]) y hy
    · exact hother z (by simp [hz]) y hy
    · exact hthis y (by simp [hy])

end EarlyExit.Expansion
