import EarlyExit.Proofs.Expansion.Move

/-!
# The fate of a site

The fate of a site is the exit it has when it is hoisted, as foretold by the shapes
above it.  Wrapping, lifting and hoisting change what is above a site, but not its
fate: each step keeps the fates of the sites that remain, and a site that is hoisted
is hoisted with the exit of its fate.
-/

namespace EarlyExit.Expansion

/-- The exit that a site will have, if it gets to be hoisted. -/
def fate (w : List Shape) : Option Exit :=
  (prospect? .walking w).bind (·.later)

/-- A way that is accepted has the same fate as another one. -/
def Follows (u v : List Shape) : Prop :=
  ∀ p, prospect? .walking u = some p -> fate v = p.later

theorem follows_refl (u : List Shape) : Follows u u := by
  intro p hp
  simp [fate, hp]

/-! ## Other nodes above -/

/-- What is above an expression, before and after a change that its sites outlast. -/
structure Keeps (u v : List Shape) : Prop where
  plain : ∀ g p, prospect? g u = some p -> (prospect? g v).bind (·.later) = p.later
  assigned : ∀ typed viaTest stuck p,
    prospect? (.nested typed viaTest stuck) (.assignment :: u) = some p ->
      (prospect? (.nested typed viaTest stuck) (.assignment :: v)).bind (·.later) = p.later
  exit : scopeExit? u = scopeExit? v

theorem later_self {r : Option Prospect} {p : Prospect} (h : r = some p) :
    r.bind (·.later) = p.later := by
  simp [h]

theorem prospectAt_congr {u v : List Shape} (hhead : u.head?.any Shape.holds = v.head?.any Shape.holds)
    (hexit : scopeExit? u = scopeExit? v) (throws viaTest stuck : Bool) :
    prospectAt throws viaTest stuck u = prospectAt throws viaTest stuck v := by
  unfold prospectAt
  rw [hhead, hexit]

/-- A statement above sees only what it stands in and the scope. -/
theorem keeps_stmt {s : StmtShape} {u v : List Shape}
    (hhead : u.head?.any Shape.holds = v.head?.any Shape.holds)
    (hexit : scopeExit? u = scopeExit? v) : Keeps (.stmt s :: u) (.stmt s :: v) := by
  have hat := prospectAt_congr hhead hexit
  constructor
  · intro g p h
    cases g with
    | walking =>
        simp only [prospect?, hat] at h ⊢
        exact later_self h
    | nested typed viaTest stuck =>
        simp only [prospect?, hat] at h ⊢
        exact later_self h
  · intro typed viaTest stuck p h
    simp only [prospect?, hat] at h ⊢
    exact later_self h
  · simpa [scopeExit?] using hexit

/-- An expression above that is no statement and no arm. -/
theorem keeps_expr {x : Shape} {u v : List Shape} (hx : x.isInline = true ∨ x = .lambda)
    (h : Keeps u v) : Keeps (x :: u) (x :: v) := by
  constructor
  · intro g p hp
    cases g with
    | walking =>
        cases x with
        | operand | assignment | switchExpr | conditional => exact h.plain _ p hp
        | lambda => exact later_self hp
        | barrier => cases hp
        | _ => simp [Shape.isInline] at hx
    | nested typed viaTest stuck =>
        cases x with
        | conditional => exact h.plain _ p hp
        | assignment => exact h.assigned typed viaTest stuck p hp
        | lambda => exact later_self hp
        | operand | switchExpr | barrier => cases hp
        | _ => simp [Shape.isInline] at hx
  · intro typed viaTest stuck p hp
    cases x with
    | operand | assignment | switchExpr | conditional | lambda | barrier => cases hp
    | _ => simp [Shape.isInline] at hx
  · cases x with
    | lambda => rfl
    | operand | assignment | switchExpr | conditional | barrier => simpa [scopeExit?] using h.exit
    | _ => simp [Shape.isInline] at hx

/-- Another node between keeps what is kept, if the change is not right above it. -/
theorem keeps_cons {x y : Shape} {u v : List Shape} (h : Keeps (x :: u) (x :: v)) :
    Keeps (y :: x :: u) (y :: x :: v) := by
  cases y with
  | stmt s => exact keeps_stmt rfl h.exit
  | arm =>
      constructor
      · intro g p hp
        cases g <;> cases hp
      · intro _ _ _ p hp
        cases hp
      · simp only [scopeExit?, List.head?_cons]
        exact if_congr Iff.rfl rfl h.exit
  | method =>
      constructor
      · intro g p hp
        cases g <;> cases hp
      · intro _ _ _ p hp
        cases hp
      · rfl
  | other =>
      constructor
      · intro g p hp
        cases g <;> cases hp
      · intro _ _ _ p hp
        cases hp
      · simpa [scopeExit?] using h.exit
  | _ => exact keeps_expr (by simp [Shape.isInline]) h

theorem keeps_mid {x : Shape} {u v : List Shape} (h : Keeps (x :: u) (x :: v))
    (mid : List Shape) : Keeps (mid ++ x :: u) (mid ++ x :: v) := by
  induction mid with
  | nil => exact h
  | cons y mid ih =>
      cases mid with
      | nil => exact keeps_cons h
      | cons z mid => exact keeps_cons ih

theorem Keeps.follows {u v : List Shape} (h : Keeps u v) : Follows u v :=
  h.plain .walking

/-- Sites of an expression outlast a change above it. -/
theorem follows_expr {o : Options} {e : Expr} {w u v : List Shape} (hw : w ∈ ways o (.expr e))
    (h : Keeps u v) : Follows (w ++ u) (w ++ v) := by
  rcases mem_ways hw with ⟨rfl, _⟩ | ⟨slot, c, w', _, _, rfl⟩
  · exact h.follows
  · rw [List.append_assoc, List.append_assoc]
    exact (keeps_mid (keeps_expr (shape_expr e slot) h) w').follows

/-- Sites in a statement outlast a change of what it stands in. -/
theorem follows_stmt {o : Options} {s : Stmt} {w u v : List Shape} (hw : w ∈ ways o (.stmt s))
    (hhead : u.head?.any Shape.holds = v.head?.any Shape.holds)
    (hexit : scopeExit? u = scopeExit? v) : Follows (w ++ u) (w ++ v) := by
  rcases mem_ways hw with ⟨_, hsite⟩ | ⟨slot, c, w', _, _, rfl⟩
  · simp [siteKind?] at hsite
  · rw [List.append_assoc, List.append_assoc]
    exact (keeps_mid (keeps_stmt hhead hexit) w').follows

/-! ## Wrapping -/

def returnShape : StmtShape where
  anchors := true
  throws := false
  typedTemp := false
  isExpr := false
  holds := false

theorem keeps_wrap (up : List Shape) :
    Keeps (.lambda :: up) (.stmt returnShape :: .stmt blockShape :: .lambda :: up) := by
  constructor
  · intro g p h
    cases g <;> cases h <;>
      simp [prospect?, prospectAt, returnShape, blockShape, Shape.holds, scopeExit?]
  · intro _ _ _ p h
    cases h
  · rfl

/-! ## Lifting

A nest of conditionals ends in a statement, or in an assignment that is one.  What the
sites of the outermost conditional come to is then known up to how they were reached.
-/

/-- Above the outermost conditional of a nest: a place that throws or exits with `e`. -/
structure NestEnd (throws : Bool) (e : Option Exit) (t : List Shape) : Prop where
  later : ∀ typed viaTest stuck p, prospect? (.nested typed viaTest stuck) t = some p ->
    ∃ x, e = some x ∧
      p.later = if stuck then none else some (if throws && !viaTest then .throw else x)
  exit : scopeExit? t = e

/-- Above a branch after the lift: the same place as before. -/
structure Lands (throws : Bool) (e : Option Exit) (v : List Shape) : Prop where
  walking : ∀ x, e = some x -> fate v = some (if throws then .throw else x)
  nested : ∀ x typed viaTest stuck, e = some x ->
    (prospect? (.nested typed viaTest stuck) v).bind (·.later) =
      if stuck then none else some (if throws && !viaTest then .throw else x)
  exit : scopeExit? v = e

/-- The branches of the lifted conditional. -/
theorem keeps_branch {throws typed : Bool} {e : Option Exit} {t v : List Shape}
    (ht : NestEnd throws e t) (hv : Lands throws e v) :
    Keeps (.conditional typed false :: t) v := by
  constructor
  · intro g p h
    cases g with
    | walking =>
        obtain ⟨x, hx, hp⟩ := ht.later typed false false p h
        rw [hp]
        simpa [fate] using hv.walking x hx
    | nested typed' viaTest stuck =>
        rw [prospect?] at h
        obtain ⟨x, hx, hp⟩ := ht.later _ _ _ p h
        rw [hp, hv.nested x typed' viaTest stuck hx]
        simp
  · intro _ _ _ p h
    cases h
  · simpa [scopeExit?] using ht.exit.trans hv.exit.symm

def testShape : StmtShape where
  anchors := true
  throws := false
  typedTemp := true
  isExpr := false
  holds := true

def branchShape : StmtShape where
  anchors := false
  throws := false
  typedTemp := true
  isExpr := false
  holds := true

/-- The test of the lifted conditional. -/
theorem keeps_test {throws typed : Bool} {e : Option Exit} {t v : List Shape}
    (ht : NestEnd throws e t) (hhead : v.head?.any Shape.holds = true) (hexit : scopeExit? v = e) :
    Keeps (.conditional typed true :: t) (.stmt testShape :: v) := by
  have hat (viaTest stuck : Bool) (x : Exit) (hx : e = some x) :
      (prospectAt false viaTest stuck v).bind (·.later) = if stuck then none else some x := by
    simp [prospectAt, hhead, hexit, hx]
  constructor
  · intro g p h
    cases g with
    | walking =>
        obtain ⟨x, hx, hp⟩ := ht.later typed true false p h
        rw [hp]
        simpa [prospect?, testShape] using hat false false x hx
    | nested typed' viaTest stuck =>
        rw [prospect?] at h
        obtain ⟨x, hx, hp⟩ := ht.later _ _ _ p h
        rw [hp]
        cases typed' with
        | true => simpa [prospect?, testShape] using hat viaTest stuck x hx
        | false => simp [prospect?, testShape]
  · intro _ _ _ p h
    cases h
  · simpa [scopeExit?] using ht.exit.trans hexit.symm

/-- The statement that has the conditional in its anchor slot. -/
theorem nestEnd_stmt (s : StmtShape) (up : List Shape) :
    NestEnd s.throws (scopeExit? up) (.stmt s :: up) := by
  constructor
  · intro typed viaTest stuck p h
    simp only [prospect?] at h
    split at h
    next =>
      unfold prospectAt at h
      split at h
      next =>
        obtain ⟨x, hx, rfl⟩ := Option.map_eq_some_iff.1 h
        exact ⟨x, hx, rfl⟩
      next => cases h
    next => cases h
  · rfl

/-- The statement that assigns the conditional. -/
theorem nestEnd_assignment (s : StmtShape) (up : List Shape) :
    NestEnd false (scopeExit? up) (.assignment :: .stmt s :: up) := by
  constructor
  · intro typed viaTest stuck p h
    simp only [prospect?] at h
    split at h
    next =>
      unfold prospectAt at h
      split at h
      next =>
        obtain ⟨x, hx, rfl⟩ := Option.map_eq_some_iff.1 h
        exact ⟨x, hx, by simp⟩
      next => cases h
    next => cases h
  · rfl

/-- A statement that evaluates a branch and nothing else. -/
theorem lands_stmt {s : StmtShape} (hanchors : s.anchors = true) (htemp : s.typedTemp = false)
    (up : List Shape) : Lands s.throws (scopeExit? up) (.stmt s :: .stmt branchShape :: up) := by
  constructor
  · intro x hx
    simp [fate, prospect?, prospectAt, hanchors, branchShape, Shape.holds, scopeExit?, hx]
  · intro x typed viaTest stuck hx
    simp [prospect?, prospectAt, hanchors, htemp, branchShape, Shape.holds, scopeExit?, hx]
  · rfl

def exprShape : StmtShape where
  anchors := true
  throws := false
  typedTemp := false
  isExpr := true
  holds := false

/-- A statement that assigns a branch. -/
theorem lands_assignment (up : List Shape) :
    Lands false (scopeExit? up) (.assignment :: .stmt exprShape :: .stmt branchShape :: up) := by
  constructor
  · intro x hx
    simp [fate, prospect?, prospectAt, exprShape, branchShape, Shape.holds, scopeExit?, hx]
  · intro x typed viaTest stuck hx
    simp [prospect?, prospectAt, exprShape, branchShape, Shape.holds, scopeExit?, hx]
  · rfl

/-! ## The sites of a statement by slot -/

/-- The anchor slot comes first, and the other slots do not depend on what is in it. -/
theorem slots_anchor {s : Stmt} {slot : Slot} (h : s.anchorSlot? = some slot) :
    ∃ others, (∀ x ∈ others, x.1 ≠ slot) ∧ ∀ v, (Node.stmt (s.withAnchorExpr v)).slots =
      Node.single slot (Node.ofExpr? v) ++ others := by
  refine ⟨(Node.stmt (s.withAnchorExpr .missing)).slots, ?_, ?_⟩
  · intro x hx heq
    have hnone : (Node.stmt (s.withAnchorExpr .missing)).get? slot = none := by
      rw [get?_anchor]
      · cases s <;> simp_all [Stmt.anchorSlot?, Stmt.withAnchorExpr, Stmt.anchorExpr, Node.ofExpr?]
      · cases s <;> simp_all [Stmt.anchorSlot?, Stmt.withAnchorExpr]
    obtain ⟨slot', c⟩ := x
    cases heq
    rw [Node.get?_eq_some.2 hx] at hnone
    cases hnone
  · intro v
    cases s <;> simp [Stmt.anchorSlot?] at h
    all_goals
      subst h
      simp [Stmt.withAnchorExpr, Node.slots, Node.stmtSlots, Node.ofExpr?, Node.single]

theorem stmtShape_anchor (s : Stmt) (v : Expr) (slot : Slot) :
    stmtShape (s.withAnchorExpr v) slot = stmtShape s slot := by
  cases s <;> rfl

theorem located_single (o : Options) (n : Node) (slot : Slot) (e : Expr) :
    ((Node.single slot (Node.ofExpr? e)).flatMap fun x => (located o x.2).map (raise n x.1)) =
      (located o (.expr e)).map (raise n slot) := by
  cases hmissing : e.isMissing with
  | false => simp [Node.ofExpr?_of_filled hmissing, Node.single]
  | true =>
      obtain rfl := Expr.eq_missing hmissing
      have : located o (.expr .missing) = [] := by
        have := isLive_missing o
        simpa [isLive, located] using this
      simp [Node.ofExpr?, Node.single, this]

/-- The sites in the anchor slot, and those in the rest of the statement. -/
theorem located_anchor (o : Options) {s : Stmt} {slot : Slot} (h : s.anchorSlot? = some slot) :
    ∃ rest, (∀ x ∈ rest, Path.below? [slot] x.1 = none) ∧
      (∀ x ∈ rest, ∃ t, x.2 ∈ ways o (.stmt t)) ∧
      ∀ v, located o (.stmt (s.withAnchorExpr v)) =
        (located o (.expr v)).map (raise (.stmt s) slot) ++ rest := by
  obtain ⟨others, hne, hslots⟩ := slots_anchor h
  have hshape (v : Expr) : raise (.stmt (s.withAnchorExpr v)) = raise (.stmt s) := by
    funext slot' x
    simp [raise, shape, stmtShape_anchor]
  have hall (v : Expr) : located o (.stmt (s.withAnchorExpr v)) =
      (located o (.expr v)).map (raise (.stmt s) slot) ++
        others.flatMap fun x => (located o x.2).map (raise (.stmt s) x.1) := by
    rw [located_eq, hslots, List.flatMap_append, hshape, located_single]
    simp [siteKind?]
  refine ⟨others.flatMap fun x => (located o x.2).map (raise (.stmt s) x.1), ?_, ?_, hall⟩
  · intro x hx
    obtain ⟨z, hz, hx⟩ := List.mem_flatMap.1 hx
    obtain ⟨y, _, rfl⟩ := List.mem_map.1 hx
    simp [Path.below?, raise, Ne.symm (hne z hz)]
  · intro x hx
    refine ⟨s.withAnchorExpr .missing, ?_⟩
    rw [ways, hall]
    exact List.mem_map.2 ⟨x, List.mem_append_right _ hx, rfl⟩

theorem ways_single (o : Options) (n : Node) (slot : Slot) (e : Expr) :
    ((Node.single slot (Node.ofExpr? e)).flatMap fun x => (ways o x.2).map (· ++ [shape n x.1])) =
      (ways o (.expr e)).map (· ++ [shape n slot]) := by
  have := congrArg (List.map (·.2)) (located_single o n slot e)
  simpa [ways, List.map_flatMap, Function.comp_def, raise] using this

theorem ways_singleStmt (o : Options) (n : Node) (slot : Slot) (s : Stmt) :
    ((Node.single slot (Node.ofStmt? s)).flatMap fun x => (ways o x.2).map (· ++ [shape n x.1])) =
      (ways o (.stmt s)).map (· ++ [shape n slot]) := by
  cases hmissing : s.isMissing with
  | false => simp [Node.ofStmt?_of_filled hmissing, Node.single]
  | true =>
      obtain rfl := Stmt.eq_missing hmissing
      simp [Node.ofStmt?, Node.single, isLive_eq_false.1 (isLive_missingStmt o)]

theorem ways_conditional (o : Options) (c : Conditional) :
    ways o (.expr c.expr) =
      (ways o (.expr c.test)).map (· ++ [.conditional (!c.valueType.isEmpty) true]) ++
      ((ways o (.expr c.onTrue)).map (· ++ [.conditional (!c.valueType.isEmpty) false]) ++
      (ways o (.expr c.onFalse)).map (· ++ [.conditional (!c.valueType.isEmpty) false])) := by
  rw [ways_eq]
  simp only [Conditional.expr, Node.slots, Node.exprSlots, List.flatMap_append, ways_single]
  simp [siteKind?, shape, Conditional.valueType]

theorem ways_branch (o : Options) (s : Span) (test : Expr) (onTrue onFalse : Stmt) :
    ways o (.stmt (.branch s test onTrue onFalse)) =
      (ways o (.expr test)).map (· ++ [.stmt testShape]) ++
      ((ways o (.stmt onTrue)).map (· ++ [.stmt branchShape]) ++
      (ways o (.stmt onFalse)).map (· ++ [.stmt branchShape])) := by
  rw [ways_eq]
  simp only [Node.slots, Node.stmtSlots, List.flatMap_append, ways_single, ways_singleStmt]
  simp [siteKind?, shape, stmtShape, testShape, branchShape, Stmt.anchorSlot?,
    Stmt.needsTypedTemp]

theorem ways_anchor (o : Options) {s : Stmt} {slot : Slot} (h : s.anchorSlot? = some slot) :
    ∃ rest, (∀ w ∈ rest, ∃ t, w ∈ ways o (.stmt t)) ∧
      ∀ v, ways o (.stmt (s.withAnchorExpr v)) =
        (ways o (.expr v)).map (· ++ [.stmt (stmtShape s slot)]) ++ rest := by
  obtain ⟨rest, _, hrest, hall⟩ := located_anchor o h
  refine ⟨rest.map (·.2), ?_, fun v => ?_⟩
  · intro w hw
    obtain ⟨x, hx, rfl⟩ := List.mem_map.1 hw
    exact hrest x hx
  · simp [ways, hall v, raise, shape, Function.comp_def]

theorem ways_exprStmt (o : Options) (s : Span) (e : Expr) :
    ways o (.stmt (.expr s e)) = (ways o (.expr e)).map (· ++ [.stmt exprShape]) := by
  rw [ways_eq]
  simp only [Node.slots, Node.stmtSlots, ways_single]
  simp [siteKind?, shape, stmtShape, exprShape, Stmt.anchorSlot?, Stmt.needsTypedTemp]

theorem ways_var (o : Options) (s : Span) (name type : String) (v : Expr) :
    ways o (.stmt (.var s name type v)) =
      (ways o (.expr v)).map (· ++ [.stmt (stmtShape (.var s name type v) .value)]) := by
  rw [ways_eq]
  simp only [Node.slots, Node.stmtSlots, ways_single]
  simp [siteKind?, shape]

theorem ways_assignVariable (o : Options) (s s' : Span) (x type : String) (op : Operator)
    (v : Expr) : ways o (.expr (.assign s (.ident s' x type) op v)) =
      (ways o (.expr v)).map (· ++ [.assignment]) := by
  rw [ways_eq]
  simp only [Node.slots, Node.exprSlots, List.flatMap_append, ways_single]
  simp [siteKind?, shape, Expr.isVariable, isLive_eq_false.1 (isLive_ident o s' x type)]

/-- A statement that leaves has no sites but those of its value. -/
theorem ways_leaves (o : Options) {s : Stmt} {slot : Slot} (h : leaves s = true)
    (hslot : s.anchorSlot? = some slot) (v : Expr) :
    ways o (.stmt (s.withAnchorExpr v)) =
      (ways o (.expr v)).map (· ++ [.stmt (stmtShape s slot)]) := by
  cases s <;> simp [leaves] at h
  all_goals
    simp only [Stmt.anchorSlot?, Option.some.injEq] at hslot
    subst hslot
    rw [ways_eq]
    simp only [Stmt.withAnchorExpr, Node.slots, Node.stmtSlots, ways_single]
    simp [siteKind?, shape, stmtShape, Stmt.anchorSlot?, Stmt.needsTypedTemp]

theorem ways_assigning (o : Options) (c : Conditional) (s : Span) (x type : String)
    (op : Operator) : ways o (.stmt (c.assigning (.ident s x type) op)) =
      (ways o (.expr c.test)).map (· ++ [.stmt testShape]) ++
      ((ways o (.expr c.onTrue)).map
        (· ++ [.assignment, .stmt exprShape, .stmt branchShape]) ++
      (ways o (.expr c.onFalse)).map
        (· ++ [.assignment, .stmt exprShape, .stmt branchShape])) := by
  simp [Conditional.assigning, Conditional.branches, ways_branch, ways_exprStmt,
    ways_assignVariable, Function.comp_def]

/-! ## Lifted statements -/

theorem forall₂_follows {l : List (List Shape)} {f g : List Shape -> List Shape}
    (h : ∀ w ∈ l, Follows (f w) (g w)) : List.Forall₂ Follows (l.map f) (l.map g) := by
  induction l with
  | nil => exact .nil
  | cons w l ih => exact .cons (h w (by simp)) (ih fun v hv => h v (by simp [hv]))

/-- The three parts of a conditional, before and after a lift. -/
theorem follows_parts (o : Options) (c : Conditional) (typed : Bool) {throws : Bool} {e : Option Exit}
    {t v up : List Shape} (ht : NestEnd throws e t) (hv : Lands throws e v)
    (hhead : up.head?.any Shape.holds = true) (hexit : scopeExit? up = e) :
    List.Forall₂ Follows
      ((ways o (.expr c.test)).map (· ++ .conditional typed true :: t) ++
        ((ways o (.expr c.onTrue)).map (· ++ .conditional typed false :: t) ++
          (ways o (.expr c.onFalse)).map (· ++ .conditional typed false :: t)))
      ((ways o (.expr c.test)).map (· ++ .stmt testShape :: up) ++
        ((ways o (.expr c.onTrue)).map (· ++ v) ++ (ways o (.expr c.onFalse)).map (· ++ v))) := by
  refine List.rel_append (forall₂_follows fun w hw => ?_)
    (List.rel_append (forall₂_follows fun w hw => ?_) (forall₂_follows fun w hw => ?_))
  · exact follows_expr hw (keeps_test ht hhead hexit)
  · exact follows_expr hw (keeps_branch ht hv)
  · exact follows_expr hw (keeps_branch ht hv)

theorem stmtShape_leaves {s : Stmt} {slot : Slot} (h : leaves s = true)
    (hslot : s.anchorSlot? = some slot) :
    (stmtShape s slot).anchors = true ∧ (stmtShape s slot).typedTemp = false := by
  refine ⟨by simp [stmtShape, hslot], ?_⟩
  cases s <;> simp_all [leaves, stmtShape, Stmt.needsTypedTemp]

/-- The sites of a statement that is split follow their fates. -/
theorem Lifted.follows {o : Options} {c : Conditional} {ns ns' : Names} {s : Stmt}
    {new : List Stmt} (h : Lifted c ns s new ns') {above : Shape} {x up : List Shape}
    (hx : Stands above x) (hholds : above.holds = true) :
    List.Forall₂ Follows ((ways o (.stmt s)).map (· ++ above :: up))
      ((new.flatMap fun t => ways o (.stmt t)).map (· ++ (x ++ up))) := by
  have hhead := hx.holds up
  have hexit := hx.exit up
  have hland : Lands false (scopeExit? (above :: up))
      (.assignment :: .stmt exprShape :: .stmt branchShape :: (x ++ up)) :=
    hexit ▸ lands_assignment (x ++ up)
  have hdeclared (s : Span) (name type : String) :
      ways o (.stmt (.var s name type .missing)) = [] := isLive_eq_false.1 (by simp)
  cases h with
  | exit hleaves hexpr =>
      obtain ⟨slot, hslot⟩ := Option.isSome_iff_exists.1 (anchorSlot?_of_leaves hleaves)
      obtain ⟨hanchors, htemp⟩ := stmtShape_leaves hleaves hslot
      have hold := ways_leaves o hleaves hslot s.anchorExpr
      rw [withAnchorExpr_self (by simp [hslot]), hexpr, ways_conditional] at hold
      have hnew := follows_parts o c (!c.valueType.isEmpty)
        (nestEnd_stmt (stmtShape s slot) (above :: up))
        (hexit ▸ lands_stmt hanchors htemp (x ++ up)) hhead hexit
      rw [hold]
      simpa [Conditional.branches, ways_branch, ways_explicit, ways_leaves o hleaves hslot,
        Function.comp_def] using hnew
  | declared s name type type' =>
      have hend : NestEnd false (scopeExit? (above :: up))
          (.stmt (stmtShape (.var s name type c.expr) .value) :: above :: up) :=
        nestEnd_stmt (stmtShape (.var s name type c.expr) .value) (above :: up)
      have hnew := follows_parts o c (!c.valueType.isEmpty) hend hland hhead hexit
      rw [ways_var, ways_conditional]
      simpa [hdeclared, ways_assigning, Function.comp_def] using hnew
  | assigned s s' s'' y t op =>
      have hnew := follows_parts o c (!c.valueType.isEmpty)
        (nestEnd_assignment exprShape (above :: up)) hland hhead hexit
      rw [ways_exprStmt, ways_assignVariable, ways_conditional]
      simpa [ways_assigning, Function.comp_def] using hnew
  | evaluated s =>
      have hnew := follows_parts o c (!c.valueType.isEmpty)
        (nestEnd_stmt exprShape (above :: up))
        (hexit ▸ lands_stmt (s := exprShape) rfl rfl (x ++ up)) hhead hexit
      rw [ways_exprStmt, ways_conditional]
      simpa [Conditional.branches, ways_branch, ways_exprStmt, Function.comp_def] using hnew
  | stored hheaded hexpr =>
      obtain ⟨slot, hslot⟩ := Option.isSome_iff_exists.1 (anchorSlot?_of_isHeaded hheaded)
      have hthrows : (stmtShape s slot).throws = false := by
        cases s <;> simp_all [isHeaded, stmtShape]
      have hend : NestEnd false (scopeExit? (above :: up))
          (.stmt (stmtShape s slot) :: above :: up) :=
        hthrows ▸ nestEnd_stmt _ _
      have hnew := follows_parts o c (!c.valueType.isEmpty) hend hland hhead hexit
      obtain ⟨rest, hstmts, hrest⟩ := ways_anchor o hslot
      have hfollows : List.Forall₂ Follows (rest.map (· ++ above :: up))
          (rest.map (· ++ (x ++ up))) := by
        refine forall₂_follows fun w hw => ?_
        obtain ⟨t, ht⟩ := hstmts w hw
        exact follows_stmt ht (by rw [hhead]; simp [hholds]) hexit.symm
      have hold := hrest s.anchorExpr
      rw [withAnchorExpr_self (by simp [hslot]), hexpr, ways_conditional] at hold
      have hboth := List.rel_append hnew hfollows
      rw [hold]
      simpa [hdeclared, ways_assigning, hrest, isLive_eq_false.1 (isLive_ident ..),
        Function.comp_def] using hboth

end EarlyExit.Expansion
