import EarlyExit.Proofs.Expansion.Fresh
import EarlyExit.Proofs.Expansion.Move
import EarlyExit.Proofs.Expansion.Moved

/-!
# A step does not depend on names

What a step does to a renamed tree is the renaming of what it does to the tree, as long as
the names it draws are renamed too.  So the supplies of names may differ: for the names of
one that are drawn, the renaming has to give those of the other.
-/

namespace EarlyExit.Expansion

open Node

/-! ## Supplies of names -/

namespace Names

theorem length_several (ns : Names) (k : Nat) : (ns.several k).length = k := by
  induction k generalizing ns with
  | zero => rfl
  | succ k ih => rw [several, List.length_cons, ih]

/-- The next names of one supply are renamed to those of the other. -/
def Paired (f : String -> String) (k : Nat) (a b : Names) : Prop :=
  (a.several k).map f = b.several k

theorem paired_add {f : String -> String} {k l : Nat} {a b : Names} :
    Paired f (k + l) a b ↔ Paired f k a b ∧ Paired f l (a.later k) (b.later k) := by
  unfold Paired
  rw [several_add, several_add, List.map_append]
  constructor
  · exact fun h => List.append_inj h (by simp [length_several])
  · rintro ⟨h, h'⟩
    rw [h, h']

end Names

/-! ## Hoisting -/

section Hoisting

variable {f : String -> String}

/-- The second program does to renamed names and statements what the first one does. -/
def Mirrors (f : String -> String) (x : Hoisting α) (y : Hoisting β) (r : α -> β) : Prop :=
  ∀ d v d', x d = .ok v d' -> ∃ k, d'.names = d.names.later k ∧
    ∀ ns, Names.Paired f k d.names ns ->
      y ⟨ns, d.prologue.map (Stmt.rename f)⟩ =
        .ok (r v) ⟨ns.later k, d'.prologue.map (Stmt.rename f)⟩

namespace Mirrors

theorem pure {r : α -> β} {a : α} {b : β} (h : r a = b) :
    Mirrors f (pure a) (pure b) r := by
  subst h
  intro d v d' hrun
  cases hrun
  exact ⟨0, rfl, fun _ _ => rfl⟩

theorem bind {x : Hoisting α} {y : Hoisting β} {r : α -> β} {g : α -> Hoisting γ}
    {g' : β -> Hoisting δ} {r' : γ -> δ} (hx : Mirrors f x y r)
    (hg : ∀ a, Mirrors f (g a) (g' (r a)) r') : Mirrors f (x >>= g) (y >>= g') r' := by
  intro d v d'' hrun
  simp only [Bind.bind, EStateM.bind] at hrun ⊢
  split at hrun
  next a d' hfirst =>
    obtain ⟨k, hk, hy⟩ := hx d a d' hfirst
    obtain ⟨l, hl, hy'⟩ := hg a d' v d'' hrun
    refine ⟨k + l, by rw [hl, hk, Names.later_add], fun ns hpaired => ?_⟩
    obtain ⟨hfirst, hsecond⟩ := Names.paired_add.1 hpaired
    rw [hy ns hfirst]
    rw [← hk] at hsecond
    rw [Names.later_add]
    exact hy' _ hsecond
  next => cases hrun

theorem throw {x : Hoisting β} {r : α -> β} {defect : Defect} : Mirrors f (throw defect) x r := by
  intro d v d' hrun
  cases hrun

theorem fresh : Mirrors f fresh fresh f := by
  intro d v d' hrun
  cases hrun
  refine ⟨1, rfl, fun ns hpaired => ?_⟩
  have hname : f d.names.fresh.1 = ns.fresh.1 := by
    simpa [Names.Paired, Names.several] using hpaired
  rw [hname]
  rfl

theorem emit {ss ts : List Stmt} (h : ss.map (Stmt.rename f) = ts) :
    Mirrors f (emit ss) (emit ts) id := by
  subst h
  intro d v d' hrun
  cases hrun
  refine ⟨0, rfl, fun ns _ => ?_⟩
  rw [List.map_append]
  rfl

end Mirrors

abbrev MirrorsExpr (f : String -> String) (x y : Hoisting Expr) : Prop :=
  Mirrors f x y (Expr.rename f)

theorem mirrors_spill (e : Expr) : MirrorsExpr f (spill e) (spill (e.rename f)) := by
  unfold spill
  refine .bind .fresh fun name => .bind (.emit ?_) fun _ => .pure ?_
  · simp [Stmt.rename]
  · simp [Expr.rename]

theorem contains_map (hf : Function.Injective f) (l : List String) (x : String) :
    (l.map f).contains (f x) = l.contains x := by
  rw [Bool.eq_iff_iff, List.contains_iff_mem, List.contains_iff_mem, List.mem_map_of_injective hf]

theorem isStable_rename (hf : Function.Injective f) (written : List String) (e : Expr) :
    isStable (written.map f) (e.rename f) = isStable written e := by
  cases e with
  | ident => simp only [Expr.rename, isStable, contains_map hf]
  | _ => rfl

theorem mirrors_settle (hf : Function.Injective f) (written : List String) (e : Expr) :
    MirrorsExpr f (settle written e) (settle (written.map f) (e.rename f)) := by
  unfold settle
  rw [isStable_rename hf]
  split
  next => exact .pure rfl
  next => exact mirrors_spill e

theorem writtenName?_rename (n : Node) :
    writtenName? (n.rename f) = (writtenName? n).map f := by
  cases n with
  | expr e =>
      cases e with
      | assign s target => cases target <;> rfl
      | unary s op operand trailing =>
          cases operand with
          | ident =>
              simp only [rename_expr, Expr.rename, writtenName?]
              split <;> rfl
          | _ => rfl
      | _ => rfl
  | _ => rfl

theorem writtenNames_rename (e : Expr) : writtenNames (e.rename f) = (writtenNames e).map f := by
  rw [writtenNames, ← rename_expr, nodes_rename, List.filterMap_map, writtenNames,
    List.map_filterMap]
  exact congrArg ((Node.expr e).nodes.filterMap ·) (funext writtenName?_rename)

theorem targetMoves_rename (hf : Function.Injective f) (written : List String)
    (target value : Expr) :
    targetMoves (written.map f) (target.rename f) (value.rename f) =
      targetMoves written target value := by
  cases target with
  | ident => simp only [Expr.rename, targetMoves, writtenNames_rename, contains_map hf]
  | _ => simp only [targetMoves, ← isStable_rename hf written, Expr.rename]

theorem statement_rename (exit : Exit) (e : Expr) :
    (exit.statement e).rename f = exit.statement (e.rename f) := by
  cases exit <;> simp [Exit.statement, Stmt.rename]

theorem mirrors_hoistSite {exit : Exit} {kind : Kind} (hkind : f kind.name = kind.name)
    (s : Span) (receiverType type : String) (e : Expr) :
    MirrorsExpr f (hoistSite exit kind s receiverType type e)
      (hoistSite exit kind s receiverType type (e.rename f)) := by
  have hreconstruct (name : String) : (kind.reconstruct (.ident s name receiverType) s).rename f =
      kind.reconstruct (.ident s (f name) receiverType) s := by
    unfold Kind.reconstruct
    split <;> simp [Expr.rename, hkind]
  unfold hoistSite
  refine .bind .fresh fun name => .bind (.emit ?_) fun _ => .pure ?_
  · simp [guardStatements, Stmt.rename, Block.rename, Kind.guard, Expr.rename, statement_rename,
      hreconstruct]
  · simp [Kind.extract, Expr.rename]

/-- No class of a marked kind is renamed. -/
def Marks.Fixed (f : String -> String) (m : Marks) : Prop :=
  ∀ x ∈ m.sites, f x.2.name = x.2.name

theorem Marks.Fixed.under {m : Marks} (h : m.Fixed f) (slot : Slot) : (m.under slot).Fixed f := by
  rintro ⟨p, k⟩ hx
  exact h (slot :: p, k) (Marks.mem_under_sites.1 hx)

theorem Marks.Fixed.kind {m : Marks} (h : m.Fixed f) {k : Kind} (hk : m.kind? = some k) :
    f k.name = k.name := by
  obtain ⟨l, r, hsplit, -⟩ := List.lookup_eq_some_iff.1 hk
  exact h ([], k) (by simp [hsplit])

def Setting.rename (f : String -> String) (c : Setting) : Setting :=
  { c with written := c.written.map f }

theorem mirrors_operand (hf : Function.Injective f) (c : Setting) (m : Marks) (later : Bool)
    (e : Expr) :
    MirrorsExpr f (c.operand m later e) ((c.rename f).operand m later (e.rename f)) := by
  unfold Setting.operand
  split
  next => exact mirrors_settle hf c.written e
  next => exact .pure rfl

theorem mirrors_target (hf : Function.Injective f) (c : Setting) (e : Expr) :
    MirrorsExpr f (c.target e) ((c.rename f).target (e.rename f)) := by
  cases e with
  | index s array position type =>
      exact .bind (mirrors_settle hf c.written array) fun a =>
        .bind (mirrors_settle hf c.written position) fun p => .pure rfl
  | field s target name type =>
      exact .bind (mirrors_settle hf c.written target) fun t => .pure rfl
  | _ => exact .pure rfl

mutual

/-- Hoisting out of a renamed expression is renamed hoisting. -/
theorem mirrors_hoist (hf : Function.Injective f) (c : Setting) :
    (e : Expr) -> (m : Marks) -> m.Fixed f ->
      MirrorsExpr f (hoist c m e) (hoist (c.rename f) m (e.rename f))
  | .call s receiver name args type, m, hm => by
      rw [Expr.rename, hoist, hoist]
      split
      next => exact .pure rfl
      next =>
        refine .bind (mirrors_hoist hf c receiver _ (hm.under _)) fun r => ?_
        split
        next kind hkind =>
          rw [Expr.staticType_rename]
          exact mirrors_hoistSite (hm.kind hkind) s _ type r
        next =>
          rw [renameExprs_eq_map, List.length_map]
          exact .bind (mirrors_operand hf c _ _ r) fun r =>
            .bind (mirrors_hoistList hf c m hm .arg 0 false args) fun vs =>
              .pure (by rw [Expr.rename, renameExprs_eq_map])
  | .field s target name type, m, hm => by
      rw [Expr.rename, hoist, hoist]
      split
      next => exact .pure rfl
      next => exact .bind (mirrors_hoist hf c target _ (hm.under _)) fun t => .pure rfl
  | .index s array position type, m, hm => by
      rw [Expr.rename, hoist, hoist]
      split
      next => exact .pure rfl
      next =>
        exact .bind (mirrors_hoist hf c array _ (hm.under _)) fun a =>
          .bind (mirrors_operand hf c _ _ a) fun a =>
            .bind (mirrors_hoist hf c position _ (hm.under _)) fun p => .pure rfl
  | .newArray s elemType dims elements isListed, m, hm => by
      rw [Expr.rename, hoist, hoist]
      split
      next => exact .pure rfl
      next =>
        simp only [renameExprs_eq_map, List.length_map]
        exact .bind (mirrors_hoistList hf c m hm .dim 0 _ dims) fun ds =>
          .bind (mirrors_hoistList hf c m hm .element 0 false elements) fun es =>
            .pure (by simp only [Expr.rename, renameExprs_eq_map])
  | .newObject s className args, m, hm => by
      rw [Expr.rename, hoist, hoist]
      split
      next => exact .pure rfl
      next =>
        rw [renameExprs_eq_map]
        exact .bind (mirrors_hoistList hf c m hm .arg 0 false args) fun vs =>
          .pure (by rw [Expr.rename, renameExprs_eq_map])
  | .unary s op operand trailing, m, hm => by
      rw [Expr.rename, hoist, hoist]
      split
      next => exact .pure rfl
      next => exact .bind (mirrors_hoist hf c operand _ (hm.under _)) fun v => .pure rfl
  | .binary s left op right, m, hm => by
      rw [Expr.rename, hoist, hoist]
      split
      next => exact .pure rfl
      next =>
        refine .bind (mirrors_hoist hf c left _ (hm.under _)) fun l => ?_
        split
        next => exact .pure rfl
        next =>
          exact .bind (mirrors_operand hf c _ _ l) fun l =>
            .bind (mirrors_hoist hf c right _ (hm.under _)) fun r => .pure rfl
  | .assign s target op value, m, hm => by
      rw [Expr.rename, hoist, hoist]
      split
      next => exact .pure rfl
      next =>
        refine .bind (mirrors_target hf c target) fun t => ?_
        have hmoves := targetMoves_rename hf c.written t value
        simp only [Setting.rename] at hmoves ⊢
        rw [hmoves]
        split
        next =>
          exact .bind (mirrors_spill t) fun old =>
            .bind (mirrors_hoist hf c value _ (hm.under _)) fun v => .pure rfl
        next => exact .bind (mirrors_hoist hf c value _ (hm.under _)) fun v => .pure rfl
  | .switch s selector cases type, m, hm => by
      rw [Expr.rename, hoist, hoist]
      split
      next => exact .pure rfl
      next => exact .bind (mirrors_hoist hf c selector _ (hm.under _)) fun v => .pure rfl
  | .missing, m, hm | .ident .., m, hm | .literal .., m, hm | .conditional .., m, hm
  | .lambda .., m, hm | .template .., m, hm => by
      simp only [Expr.rename, hoist]
      split
      next => exact .pure rfl
      next => exact .throw

theorem mirrors_hoistList (hf : Function.Injective f) (c : Setting) (m : Marks) (hm : m.Fixed f)
    (slot : Nat -> Slot) (i : Nat) (after : Bool) :
    (l : List Expr) -> Mirrors f (hoistList c m slot i after l)
      (hoistList (c.rename f) m slot i after (l.map (Expr.rename f))) (List.map (Expr.rename f))
  | [] => .pure rfl
  | e :: rest => by
      rw [List.map_cons, hoistList, hoistList, List.length_map]
      exact .bind (mirrors_hoist hf c e _ (hm.under _)) fun v =>
        .bind (mirrors_operand hf c _ _ v) fun v =>
          .bind (mirrors_hoistList hf c m hm slot (i + 1) after rest) fun vs => .pure rfl

end

end Hoisting

/-! ## Statements -/

section Statements

variable {f : String -> String}

theorem anchorExpr_rename (s : Stmt) : (s.rename f).anchorExpr = s.anchorExpr.rename f := by
  cases s <;> rfl

theorem withAnchorExpr_rename (s : Stmt) (e : Expr) :
    (s.rename f).withAnchorExpr (e.rename f) = (s.withAnchorExpr e).rename f := by
  cases s <;> rfl

theorem explicit_rename (s : Stmt) : (s.rename f).explicit = s.explicit.rename f := by
  cases s <;> rfl

def Hoisted.rename (f : String -> String) (h : Hoisted) (names : Names) : Hoisted :=
  ⟨h.prologue.map (Stmt.rename f), h.continuation.rename f, names⟩

theorem Hoisted.statements_rename (h : Hoisted) (names : Names) :
    (h.rename f names).statements = h.statements.map (Stmt.rename f) := by
  simp [Hoisted.statements, Hoisted.rename]

theorem hoistAnchor_rename (hf : Function.Injective f) {a : Names} {s : Stmt} {exit : Exit}
    {marks : Marks} (hmarks : marks.Fixed f) {h : Hoisted}
    (hrun : hoistAnchor a s exit marks = .ok h) :
    ∃ k, h.names = a.later k ∧ ∀ b, Names.Paired f k a b ->
      hoistAnchor b (s.rename f) exit marks = .ok (h.rename f (b.later k)) := by
  unfold hoistAnchor at hrun ⊢
  rw [anchorSlot?_rename]
  cases hslot : s.anchorSlot? with
  | none => simp [hslot] at hrun
  | some slot =>
      simp only [hslot, EStateM.run] at hrun ⊢
      split at hrun
      next v d hv =>
        cases hrun
        obtain ⟨k, hk, hmirrors⟩ := mirrors_hoist hf ⟨exit, writtenNames s.anchorExpr⟩
          s.anchorExpr _ (hmarks.under slot) _ v d hv
        refine ⟨k, hk, fun b hpaired => ?_⟩
        have hrenamed := hmirrors b hpaired
        simp only [Setting.rename, ← writtenNames_rename, ← anchorExpr_rename, List.map_nil]
          at hrenamed
        rw [hrenamed]
        simp only [withAnchorExpr_rename]
        rfl
      next => cases hrun

def Conditional.rename (f : String -> String) (c : Conditional) : Conditional :=
  ⟨c.span, c.test.rename f, c.onTrue.rename f, c.onFalse.rename f, c.type⟩

theorem Conditional.span_rename (c : Conditional) : (c.rename f).span = c.span := rfl

theorem ofNode?_rename (n : Node) :
    Conditional.ofNode? (n.rename f) = (Conditional.ofNode? n).map (Conditional.rename f) := by
  cases n with
  | expr e => cases e <;> rfl
  | _ => rfl

theorem valueType_rename (c : Conditional) : (c.rename f).valueType = c.valueType :=
  conditionalType_rename _ _ _

theorem assigning_rename (c : Conditional) (target : Expr) (op : Operator) :
    (c.rename f).assigning (target.rename f) op = (c.assigning target op).rename f := by
  simp [Conditional.assigning, Conditional.branches, Conditional.rename, Stmt.rename, Expr.rename]

theorem assigning_ident_rename (c : Conditional) (s : Span) (x type : String) (op : Operator) :
    (c.rename f).assigning (.ident s (f x) type) op =
      (c.assigning (.ident s x type) op).rename f :=
  assigning_rename c (.ident s x type) op

theorem lift_rename {a names : Names} {s : Stmt} {c : Conditional} {new : List Stmt}
    (h : lift a s c = .ok (new, names)) :
    ∃ k, names = a.later k ∧ ∀ b, Names.Paired f k a b ->
      lift b (s.rename f) (c.rename f) = .ok (new.map (Stmt.rename f), b.later k) := by
  cases s with
  | ret | throw | yield =>
      cases h
      exact ⟨0, rfl, fun b _ => rfl⟩
  | var s name type value =>
      simp only [Stmt.rename, lift, valueType_rename] at h ⊢
      generalize (if type.isEmpty then c.valueType else type) = type' at h ⊢
      split at h
      next => cases h
      next htype =>
        cases h
        refine ⟨0, rfl, fun b _ => ?_⟩
        rw [if_neg htype, assigning_ident_rename]
        rfl
  | expr s e =>
      cases e with
      | assign s' target op value =>
          cases h
          refine ⟨0, rfl, fun b _ => ?_⟩
          simp only [Stmt.rename, Expr.rename, lift, assigning_rename]
          rfl
      | _ =>
          cases h
          refine ⟨0, rfl, fun b _ => ?_⟩
          simp only [Stmt.rename, Expr.rename, lift, Conditional.branches, Conditional.rename,
            Expr.span_rename, List.map_cons, List.map_nil, Names.later]
  | branch | switch | sync | forEach =>
      simp only [lift] at h
      split at h
      next => cases h
      next htype =>
        cases h
        refine ⟨1, rfl, fun b hpaired => ?_⟩
        have hname : b.fresh.1 = f a.fresh.1 := by
          simpa [Names.Paired, Names.several] using hpaired.symm
        simp only [Stmt.rename, lift, valueType_rename, if_neg htype, hname,
          Conditional.span_rename, assigning_ident_rename]
        rfl
  | _ => cases h

theorem wrapLambda_rename {e e' : Expr} (h : wrapLambda e = .ok e') :
    wrapLambda (e.rename f) = .ok (e'.rename f) := by
  unfold wrapLambda at h
  split at h
  next s params e =>
    split at h
    next => cases h
    next hmissing =>
      cases h
      simp [Expr.rename, Body.rename, Block.rename, Stmt.rename, wrapLambda, hmissing]
  next => cases h

/-! ## Splicing -/

theorem spliceEntry_map {g : α -> β} (l : List α) (i : Nat) (new : List α) :
    spliceEntry (l.map g) i (new.map g) = (spliceEntry l i new).map g := by
  simp [spliceEntry, List.map_take, List.map_drop]

theorem map_explicit_rename (new : List Stmt) :
    (new.map (Stmt.rename f)).map Stmt.explicit = (new.map Stmt.explicit).map (Stmt.rename f) := by
  simp [explicit_rename]

theorem asOne_rename (s : Span) (new : List Stmt) :
    asOne s (new.map (Stmt.rename f)) = (asOne s new).rename f := by
  cases new with
  | nil => rfl
  | cons t rest =>
      cases rest with
      | nil => rfl
      | cons => simp [asOne, Stmt.rename, Block.rename]

theorem isOperand_rename (n : Node) : (n.rename f).isOperand = n.isOperand := by
  cases n <;> rfl

theorem replaceChild_rename {parent new changed : Node} {slot : Slot}
    (h : parent.replaceChild slot new = some changed) :
    (parent.rename f).replaceChild slot (new.rename f) = some (changed.rename f) := by
  unfold replaceChild at h ⊢
  rw [get?_rename]
  cases hget : parent.get? slot with
  | none => simp [hget] at h
  | some old =>
      simp only [hget, Option.map_some, isOperand_rename] at h ⊢
      split at h
      next hoperand =>
        rw [if_pos hoperand]
        exact set?_rename f h
      next => cases h

theorem eq_block_of_rename {n : Node} {s : Span} {ss : List Stmt}
    (h : n.rename f = .stmt (.block (.mk s ss))) : ∃ ss', n = .stmt (.block (.mk s ss')) := by
  cases n with
  | stmt t =>
      cases t with
      | block b =>
          cases b
          cases h
          exact ⟨_, rfl⟩
      | _ => cases h
  | _ => cases h

theorem eq_arm_of_rename {n : Node} {s : Span} {labels : List Expr} {arrow : Bool}
    {body : List Stmt} (h : n.rename f = .arm (.mk s labels arrow body)) :
    ∃ labels' body', n = .arm (.mk s labels' arrow body') := by
  cases n with
  | arm c =>
      cases c
      cases h
      exact ⟨_, _, rfl⟩
  | _ => cases h

theorem spliceInto_rename {parent changed : Node} {slot : Slot} {anchor : Stmt} {new : List Stmt}
    (h : spliceInto parent slot anchor new = .ok changed) :
    spliceInto (parent.rename f) slot (anchor.rename f) (new.map (Stmt.rename f)) =
      .ok (changed.rename f) := by
  unfold spliceInto at h
  split at h
  next s ss i =>
    cases h
    simp only [rename_stmt, Stmt.rename, Block.rename, renameStmts_eq_map, spliceInto,
      map_explicit_rename, spliceEntry_map]
  next s labels body slot =>
    split at h
    next hone =>
      cases h
      simp [rename, Case.rename, spliceInto, hone, Stmt.rename, Block.rename, explicit_rename]
    next => cases h
  next s labels body i =>
    cases h
    simp only [rename, Case.rename, spliceInto, List.length_map, renameStmts_eq_map]
    split <;> simp only [map_explicit_rename, spliceEntry_map]
  next hblock harrow hlist =>
    -- a renamed parent is of the last kind if the parent is
    dsimp only at h
    split at h
    next n hreplace =>
      cases h
      have hone := replaceChild_rename (f := f) hreplace
      rw [rename_stmt, ← asOne_rename, apply_ite (List.map (Stmt.rename f)),
        ← map_explicit_rename] at hone
      rw [spliceInto.eq_4]
      · rw [List.length_map, Stmt.span_rename, hone]
      · intro s ss i hparent hslot
        obtain ⟨ss', rfl⟩ := eq_block_of_rename hparent
        exact hblock s ss' i rfl hslot
      · intro s labels body slot' hparent hslot
        obtain ⟨labels', body', rfl⟩ := eq_arm_of_rename hparent
        exact harrow s labels' body' slot' rfl hslot
      · intro s labels body i hparent hslot
        obtain ⟨labels', body', rfl⟩ := eq_arm_of_rename hparent
        exact hlist s labels' body' i rfl hslot
    next => cases h

theorem splice_rename {root root' : Node} {p : Path} {s : Stmt} {new : List Stmt}
    (h : splice root p s new = .ok root') :
    splice (root.rename f) p (s.rename f) (new.map (Stmt.rename f)) = .ok (root'.rename f) := by
  unfold splice at h ⊢
  rw [at?_rename]
  split at h
  next slot parent hslot hparent =>
    simp only [hslot, hparent, Option.map_some]
    split at h
    next changed hinto =>
      simp only [spliceInto_rename hinto]
      unfold putAt at h ⊢
      split at h
      next n hput =>
        cases h
        rw [put?_rename f hput]
      next => cases h
    next => cases h
  next => cases h

end Statements

/-! ## Steps -/

section Steps

variable {o : Options} {f : String -> String}

def Change.rename (f : String -> String) (c : Change) (names : Names) : Change :=
  ⟨⟨names, c.work.root.rename f⟩, c.event⟩

/-- The change goes through under other names. -/
def Carries (f : String -> String) (a : Names) (c : Change)
    (other : Names -> Except Defect Change) : Prop :=
  ∃ k, c.work.names = a.later k ∧
    ∀ b, Names.Paired f k a b -> other b = .ok (c.rename f (b.later k))

theorem bind_ok {x : Except ε α} {g : α -> Except ε β} {b : β} (h : (x >>= g) = .ok b) :
    ∃ a, x = .ok a ∧ g a = .ok b := by
  cases x with
  | error e => cases h
  | ok a => exact ⟨a, rfl, h⟩

theorem putAt_rename {root root' new : Node} {p : Path} {s : Span}
    (h : putAt root p s new = .ok root') :
    putAt (root.rename f) p s (new.rename f) = .ok (root'.rename f) := by
  unfold putAt at h ⊢
  split at h
  next n hput =>
    cases h
    rw [put?_rename f hput]
  next => cases h

theorem wrapAt_rename {a : Names} {root : Node} {p : Path} {c : Change}
    (h : wrapAt ⟨a, root⟩ p = .ok c) : Carries f a c fun b => wrapAt ⟨b, root.rename f⟩ p := by
  unfold wrapAt at h
  split at h
  next e hat =>
    obtain ⟨e', hwrap, h⟩ := bind_ok h
    obtain ⟨root', hput, h⟩ := bind_ok h
    cases h
    refine ⟨0, rfl, fun b _ => ?_⟩
    have hat' : (root.rename f).at? p = some (.expr (e.rename f)) := by
      rw [at?_rename, hat, Option.map_some, rename_expr]
    have hput' := putAt_rename (f := f) hput
    simp only [wrapAt, hat', wrapLambda_rename hwrap, Expr.span_rename, Bind.bind, Except.bind]
    rw [← rename_expr, hput']
    rfl
  next => cases h

theorem liftAt_rename {a : Names} {root : Node} {anchor p : Path} {c : Change}
    (h : liftAt ⟨a, root⟩ anchor p = .ok c) :
    Carries f a c fun b => liftAt ⟨b, root.rename f⟩ anchor p := by
  unfold liftAt at h
  split at h
  next s cond hat hcond =>
    obtain ⟨⟨new, names⟩, hlift, h⟩ := bind_ok h
    obtain ⟨root', hsplice, h⟩ := bind_ok h
    cases h
    obtain ⟨k, hk, hrenamed⟩ := lift_rename (f := f) hlift
    refine ⟨k, hk, fun b hpaired => ?_⟩
    have hat' : (root.rename f).at? anchor = some (.stmt (s.rename f)) := by
      rw [at?_rename, hat, Option.map_some, rename_stmt]
    have hcond' : ((root.rename f).at? p).bind Conditional.ofNode? = some (cond.rename f) := by
      rw [at?_rename, Option.bind_map, ← Option.map_some, ← hcond, Option.map_bind]
      exact congrArg _ (funext ofNode?_rename)
    simp only [liftAt, hat', hcond', hrenamed b hpaired, splice_rename hsplice, Bind.bind,
      Except.bind]
    rfl
  next => cases h

/-- The marks of tasks name the kinds of their sites. -/
theorem fixed_ofSites {anchor : Path} {l : List (Path × Kind × List Path)}
    (h : ∀ x ∈ l, f x.2.1.name = x.2.1.name) : (Marks.ofSites anchor l).Fixed f := by
  rintro ⟨p, k⟩ hx
  obtain ⟨y, hy, hp⟩ := List.mem_filterMap.1 hx
  obtain ⟨q, _, heq⟩ := Option.map_eq_some_iff.1 hp
  cases heq
  exact h y hy

theorem hoistAt_rename (hf : Function.Injective f) {a : Names} {root : Node} {anchor : Path}
    {exit : Exit} {ts : List Task} (hkinds : ∀ t ∈ ts, f t.site.kind.name = t.site.kind.name)
    {c : Change} (h : hoistAt ⟨a, root⟩ anchor exit ts = .ok c) :
    Carries f a c fun b => hoistAt ⟨b, root.rename f⟩ anchor exit ts := by
  unfold hoistAt at h
  split at h
  next s hat =>
    obtain ⟨hoisted, hhoist, h⟩ := bind_ok h
    obtain ⟨root', hsplice, h⟩ := bind_ok h
    cases h
    have hfixed : (Marks.ofSites anchor (ts.map fun t =>
        (t.site.path, t.site.kind, t.chain))).Fixed f :=
      fixed_ofSites (List.forall_mem_map.2 hkinds)
    obtain ⟨k, hk, hrenamed⟩ := hoistAnchor_rename hf hfixed hhoist
    refine ⟨k, hk, fun b hpaired => ?_⟩
    have hat' : (root.rename f).at? anchor = some (.stmt (s.rename f)) := by
      rw [at?_rename, hat, Option.map_some, rename_stmt]
    simp only [hoistAt, hat', hrenamed b hpaired, Hoisted.statements_rename,
      splice_rename hsplice, Bind.bind, Except.bind]
    simp [Hoisted.rename, Change.rename, anchorName_rename, pure, Except.pure]
  next => cases h

theorem lookup_of_siteKind? {n : Node} {k : Kind} (h : siteKind? o n = some k) :
    ∃ type, o.registry.lookup type = some k := by
  unfold siteKind? at h
  split at h
  next =>
    split at h
    next =>
      unfold Registry.resolve at h
      split at h
      next => cases h
      next => exact ⟨_, h⟩
    next => cases h
  next => cases h

/-- A step of a renamed tree, with names to match, is a step of the tree. -/
theorem step_rename (hf : Function.Injective f)
    (hkinds : ∀ type k, o.registry.lookup type = some k -> f k.name = k.name) {a : Names}
    {root : Node} {c : Change} (h : step o ⟨a, root⟩ = .ok (some c)) :
    ∃ k, c.work.names = a.later k ∧ ∀ b, Names.Paired f k a b ->
      step o ⟨b, root.rename f⟩ = .ok (some (c.rename f (b.later k))) := by
  unfold step at h ⊢
  simp only [placements_rename]
  obtain ⟨ts, hts, h⟩ := bind_ok h
  simp only [hts, Bind.bind, Except.bind]
  cases ts with
  | nil => cases h
  | cons first rest =>
      dsimp only at h ⊢
      have hgo {x : Except Defect Change} {y : Names -> Except Defect Change}
          (hx : x = .ok c -> Carries f a c y) (h : some <$> x = .ok (some c)) :
          ∃ k, c.work.names = a.later k ∧ ∀ b, Names.Paired f k a b ->
            some <$> y b = .ok (some (c.rename f (b.later k))) := by
        obtain ⟨c', hc', heq⟩ := map_ok h
        cases heq
        obtain ⟨k, hk, hy⟩ := hx hc'
        refine ⟨k, hk, fun b hpaired => ?_⟩
        rw [hy b hpaired]
        rfl
      split at h
      next p hplace => exact hgo wrapAt_rename h
      next anchor p hplace => exact hgo liftAt_rename h
      next anchor hplace =>
        refine hgo (hoistAt_rename hf fun t ht => ?_) h
        obtain ⟨x, hx, hof⟩ := forall₂_right (tasks_ok hts) (List.mem_filter.1 ht).1
        obtain ⟨n, _, hkind, _⟩ := mem_sites.1 hx
        obtain ⟨type, htype⟩ := lookup_of_siteKind? hkind
        rw [hof.site]
        exact hkinds type x.kind htype

/-- There is nothing to do exactly if no site is left. -/
theorem step_eq_none {w : Work} : step o w = .ok none ↔ sites o w.root = [] := by
  constructor
  · intro h
    simpa [isLive] using step_none h
  · intro h
    simp only [step, placements, h]
    rfl

end Steps

end EarlyExit.Expansion
