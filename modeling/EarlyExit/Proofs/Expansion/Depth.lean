import EarlyExit.Proofs.Expansion.Climb

/-!
# The deepest site

A step takes a site of the greatest depth.  If that site reaches an anchor, the anchor's
expression holds no deeper scope with a site in it, and no conditional with one: all
its sites are plain operands, so they can be hoisted together.
-/

namespace EarlyExit.Expansion

/-! ## Depth by shapes -/

def shapeDepth : List Shape -> Nat
  | [] => 0
  | .lambda :: rest => shapeDepth rest + 1
  | .arm :: rest => shapeDepth rest + if rest.head? = some .switchExpr then 1 else 0
  | _ :: rest => shapeDepth rest

theorem shapeDepth_cons_le (x : Shape) (up : List Shape) :
    shapeDepth up ≤ shapeDepth (x :: up) := by
  cases x <;> simp [shapeDepth]

theorem shapeDepth_le (w up : List Shape) : shapeDepth up ≤ shapeDepth (w ++ up) := by
  induction w with
  | nil => exact Nat.le_refl _
  | cons x w ih => exact Nat.le_trans ih (shapeDepth_cons_le x (w ++ up))

theorem shapeDepth_passes {w up : List Shape} (h : ∀ x ∈ w, x.passes = true) :
    shapeDepth (w ++ up) = shapeDepth up := by
  induction w with
  | nil => rfl
  | cons x w ih =>
      have hrest := ih fun y hy => h y (by simp [hy])
      have hx := h x (by simp)
      cases x <;> simp [Shape.passes] at hx <;> simpa [shapeDepth] using hrest

theorem scopeDepth_eq (up : List Above) : scopeDepth up = shapeDepth (shapes up) := by
  induction up with
  | nil => rfl
  | cons a rest ih =>
      obtain ⟨path, node, slot⟩ := a
      cases node with
      | arm c =>
          simp only [scopeDepth, shapes_cons, shape, shapeDepth, ih, head?_isSwitchExpr]
      | expr e =>
          cases e with
          | binary s l op r =>
              simp only [scopeDepth, shapes_cons, shape]
              split <;> simpa [shapeDepth] using ih
          | assign s t op v =>
              simp only [scopeDepth, shapes_cons, shape]
              repeat' split
              all_goals simpa [shapeDepth] using ih
          | _ => simp [scopeDepth, shape, shapeDepth, ih]
      | _ => simp [scopeDepth, shape, shapeDepth, ih]

/-! ## Ways inside an expression -/

/-- Shapes of expressions that are no scopes. -/
def Shape.isInline : Shape -> Bool
  | operand | barrier | conditional .. | assignment | switchExpr => true
  | _ => false

theorem isInline_of_passes {x : Shape} (h : x.passes = true) : x.isInline = true := by
  cases x <;> simp_all [Shape.passes, Shape.isInline]

/-- The shape of an expression is inline, or that of a lambda. -/
theorem shape_expr (e : Expr) (slot : Slot) :
    (shape (.expr e) slot).isInline = true ∨ shape (.expr e) slot = .lambda := by
  cases e <;> simp only [shape] <;> (repeat' split) <;> simp [Shape.isInline]

/-- A way up begins in a child. -/
theorem mem_ways {o : Options} {n : Node} {w : List Shape} (h : w ∈ ways o n) :
    (w = [] ∧ (siteKind? o n).isSome = true) ∨
      ∃ slot c w', (slot, c) ∈ n.slots ∧ w' ∈ ways o c ∧ w = w' ++ [shape n slot] := by
  rw [ways_eq, List.mem_append] at h
  rcases h with h | h
  · split at h
    next hsite => exact .inl ⟨by simpa using h, hsite⟩
    next => simp at h
  · obtain ⟨⟨slot, c⟩, hc, hw⟩ := List.mem_flatMap.1 h
    obtain ⟨w', hw', rfl⟩ := List.mem_map.1 hw
    exact .inr ⟨slot, c, w', hc, hw', rfl⟩

/-- What can stand below an expression. -/
theorem exprSlots_cases {e : Expr} {slot : Slot} {c : Node} (h : (slot, c) ∈ Node.exprSlots e) :
    (∃ e', c = .expr e') ∨ (∃ a, c = .arm a ∧ shape (.expr e) slot = .switchExpr) ∨
      (shape (.expr e) slot = .lambda) := by
  cases e with
  | lambda => exact .inr (.inr rfl)
  | switch s selector cases type =>
      rcases List.mem_append.1 h with h | h
      · obtain ⟨_, hc⟩ := Node.mem_single.1 h
        exact .inl ⟨_, (Node.ofExpr?_eq_some.1 hc).1⟩
      · obtain ⟨_, a, _, _, hc⟩ := Node.mem_listed.1 h
        cases hc
        exact .inr (.inl ⟨a, rfl, rfl⟩)
  | _ =>
      refine .inl ?_
      simp only [Node.exprSlots, List.mem_append, Node.mem_single, Node.mem_listed,
        Node.ofExpr?_eq_some] at h
      grind

/-- A site in an expression that is no deeper than it has only inline shapes in between. -/
theorem ways_inline {o : Options} {e : Expr} {w up : List Shape} (hw : w ∈ ways o (.expr e))
    (hdepth : shapeDepth (w ++ up) ≤ shapeDepth up) : ∀ x ∈ w, x.isInline = true := by
  suffices ∀ n e, n = Node.expr e -> ∀ w ∈ ways o n, ∀ up,
      shapeDepth (w ++ up) ≤ shapeDepth up -> ∀ x ∈ w, x.isInline = true from
    this _ e rfl w hw up hdepth
  intro n
  induction n using Node.childInduction with
  | step n ih =>
      rintro e rfl w hw up hdepth
      rcases mem_ways hw with ⟨rfl, _⟩ | ⟨slot, c, w', hc, hw', rfl⟩
      · simp
      · rw [List.append_assoc, List.singleton_append] at hdepth
        have hge := shapeDepth_le w' (shape (.expr e) slot :: up)
        have hlambda : shape (.expr e) slot ≠ .lambda := by
          intro h
          rw [h] at hdepth hge
          simp only [shapeDepth] at hge
          omega
        rcases exprSlots_cases hc with ⟨e', rfl⟩ | ⟨a, rfl, hswitch⟩ | h
        · have hbelow := ih _ hc e' rfl w' hw' (shape (.expr e) slot :: up)
            (Nat.le_trans hdepth (shapeDepth_cons_le _ up))
          have hlast := (shape_expr e slot).resolve_right hlambda
          simpa [or_imp, forall_and, hlast] using hbelow
        · rcases mem_ways hw' with ⟨_, hsite⟩ | ⟨slot', c', w'', _, _, rfl⟩
          · simp [siteKind?] at hsite
          · have hge' := shapeDepth_le w'' (.arm :: .switchExpr :: up)
            rw [hswitch, List.append_assoc] at hdepth
            simp [shape, shapeDepth] at hdepth hge'
            omega
        · exact absurd h hlambda

/-! ## The expression of an anchor -/

/-- Every site of the expression is an operand that is evaluated once, in its turn. -/
def Direct (o : Options) (e : Expr) : Prop :=
  ∀ w ∈ ways o (.expr e), ∀ x ∈ w, x.passes = true

/-- A way that leads out of a conditional, perhaps into an assignment of its value. -/
def LeavesNest (w : List Shape) : Prop :=
  ∃ low typed viaTest, w = low ++ [.conditional typed viaTest] ∨
    w = low ++ [.conditional typed viaTest, .assignment]

theorem leavesNest_cons {w : List Shape} (h : LeavesNest w) (x : Shape) : LeavesNest (x :: w) := by
  obtain ⟨low, typed, viaTest, rfl | rfl⟩ := h
  · exact ⟨x :: low, typed, viaTest, .inl rfl⟩
  · exact ⟨x :: low, typed, viaTest, .inr rfl⟩

theorem nested_inline {t v typed viaTest stuck : Bool} {w up : List Shape} {s : StmtShape}
    (hw : ∀ x ∈ w, x.isInline = true)
    (h : (prospect? (.nested typed viaTest stuck) (w ++ .stmt s :: up)).isSome = true) :
    LeavesNest (.conditional t v :: w) := by
  induction w generalizing t v typed viaTest stuck with
  | nil => exact ⟨[], t, v, .inl rfl⟩
  | cons x w ih =>
      have hrest : ∀ y ∈ w, y.isInline = true := fun y hy => hw y (by simp [hy])
      cases x with
      | conditional typed' viaTest' =>
          rw [List.cons_append, prospect?] at h
          exact leavesNest_cons (ih hrest h) _
      | assignment =>
          cases w with
          | nil => exact ⟨[], t, v, .inr rfl⟩
          | cons y w =>
              have hy := hrest y (by simp)
              cases y <;> simp [Shape.isInline, prospect?] at hy h
      | operand | barrier | switchExpr => simp [prospect?] at h
      | _ => simpa [Shape.isInline] using hw _ List.mem_cons_self

/-- The way from an accepted site to a statement passes operands, or leads out of a nest. -/
theorem walking_inline {w up : List Shape} {s : StmtShape} (hw : ∀ x ∈ w, x.isInline = true)
    (h : (prospect? .walking (w ++ .stmt s :: up)).isSome = true) :
    (∀ x ∈ w, x.passes = true) ∨ LeavesNest w := by
  induction w with
  | nil => exact .inl (by simp)
  | cons x w ih =>
      have hrest : ∀ y ∈ w, y.isInline = true := fun y hy => hw y (by simp [hy])
      cases x with
      | conditional t v => exact .inr (nested_inline hrest h)
      | operand | assignment | switchExpr =>
          rcases ih hrest h with hall | hnest
          · exact .inl (by simpa [Shape.passes] using hall)
          · exact .inr (leavesNest_cons hnest _)
      | barrier => simp [prospect?] at h
      | _ => simpa [Shape.isInline] using hw _ List.mem_cons_self

/-- The last shape on a way out of an expression is that of the expression. -/
theorem ways_last {o : Options} {e : Expr} {w : List Shape} {x : Shape}
    (h : w ++ [x] ∈ ways o (.expr e)) :
    ∃ slot c, (slot, c) ∈ Node.exprSlots e ∧ w ∈ ways o c ∧ x = shape (.expr e) slot := by
  rcases mem_ways h with ⟨hnil, _⟩ | ⟨slot, c, w', hc, hw', heq⟩
  · simp at hnil
  · obtain ⟨rfl, hx⟩ := List.append_inj' heq rfl
    exact ⟨slot, c, hc, hw', by simpa using hx⟩

theorem shape_eq_conditional {e : Expr} {slot : Slot} {typed viaTest : Bool}
    (h : shape (.expr e) slot = .conditional typed viaTest) :
    ∃ s c a b t, e = .conditional s c a b t := by
  cases e <;> simp only [shape] at h
  all_goals first
    | exact ⟨_, _, _, _, _, rfl⟩
    | repeat' split at h
      all_goals simp at h

theorem shape_eq_assignment {e : Expr} {slot : Slot} (h : shape (.expr e) slot = .assignment) :
    slot = .value ∧ ∃ s x op v, e = .assign s x op v ∧ x.isVariable = true := by
  cases e with
  | assign s t op v =>
      simp only [shape] at h
      repeat' split at h
      all_goals simp_all
  | _ =>
      simp only [shape] at h
      repeat' split at h
      all_goals simp at h

/-- No site of a conditional is direct. -/
theorem conditional_not_direct {o : Options} {s : Span} {c a b : Expr} {t : String}
    {w : List Shape} (h : w ∈ ways o (.expr (.conditional s c a b t))) :
    ¬∀ x ∈ w, x.passes = true := by
  intro hpass
  rcases mem_ways h with ⟨_, hsite⟩ | ⟨slot, d, w', _, _, rfl⟩
  · simp [siteKind?] at hsite
  · simpa [shape, Shape.passes] using hpass (shape (.expr (.conditional s c a b t)) slot) (by simp)

/-- If one site of an expression is direct, no way out of it leaves a nest. -/
theorem not_leavesNest {o : Options} {e : Expr} {w₀ w : List Shape}
    (hw₀ : w₀ ∈ ways o (.expr e)) (hpass : ∀ x ∈ w₀, x.passes = true)
    (hw : w ∈ ways o (.expr e)) : ¬LeavesNest w := by
  rintro ⟨low, typed, viaTest, rfl | rfl⟩
  · obtain ⟨slot, c, hc, _, hx⟩ := ways_last hw
    obtain ⟨s, c, a, b, t, rfl⟩ := shape_eq_conditional hx.symm
    exact conditional_not_direct hw₀ hpass
  · rw [show low ++ [.conditional typed viaTest, .assignment] =
      low ++ [.conditional typed viaTest] ++ [.assignment] by simp] at hw
    obtain ⟨slot, c, hc, hlow, hx⟩ := ways_last hw
    obtain ⟨rfl, s, x, op, v, rfl, hvar⟩ := shape_eq_assignment hx.symm
    have hvalue (d : Node) (hd : (.value, d) ∈ Node.exprSlots (.assign s x op v)) :
        d = .expr v := by
      simp [Node.exprSlots, Node.mem_single, Node.ofExpr?_eq_some] at hd
      exact hd.1
    cases hvalue c hc
    obtain ⟨slot', c', _, _, hx'⟩ := ways_last hlow
    obtain ⟨s', c', a', b', t', rfl⟩ := shape_eq_conditional hx'.symm
    rcases mem_ways hw₀ with ⟨_, hsite⟩ | ⟨slot, d, w', hd, hw', rfl⟩
    · simp [siteKind?] at hsite
    · by_cases hslot : slot = .value
      · subst hslot
        cases hvalue d hd
        exact conditional_not_direct hw' fun y hy => hpass y (by simp [hy])
      · have htarget : slot = .target := by
          simp [Node.slots, Node.exprSlots, Node.mem_single, hslot] at hd
          exact hd.1
        subst htarget
        simpa [shape, Shape.passes] using hpass .barrier (by simp [shape])

/-- The expression of an anchor is direct if it holds one of the deepest sites. -/
theorem direct_of_deepest {o : Options} {e : Expr} {s : StmtShape} {up w₀ : List Shape}
    (hw₀ : w₀ ∈ ways o (.expr e)) (hpass : ∀ x ∈ w₀, x.passes = true)
    (haccepted : ∀ w ∈ ways o (.expr e), (prospect? .walking (w ++ .stmt s :: up)).isSome = true)
    (hdepth : ∀ w ∈ ways o (.expr e),
      shapeDepth (w ++ .stmt s :: up) ≤ shapeDepth (.stmt s :: up)) :
    Direct o e := by
  intro w hw
  have hinline : ∀ x ∈ w, x.isInline = true := ways_inline hw (hdepth w hw)
  exact (walking_inline hinline (haccepted w hw)).resolve_right (not_leavesNest hw₀ hpass hw)

end EarlyExit.Expansion
