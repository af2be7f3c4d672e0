import EarlyExit.Proofs.Expansion.Cleared

/-!
# What a step does

A step wraps a lambda, lifts a conditional or hoists the sites of an anchor.  This
module says once, for each of the three, what the tree was like and how it is changed,
and nothing of how the step was chosen.  All properties of whole runs rest on it.
-/

namespace EarlyExit.Expansion

/-! ## Tasks -/

/-- A task is what was found out about a site. -/
structure Task.Of (root : Node) (s : Site) (t : Task) : Prop where
  site : t.site = s
  chain : t.chain = (place root s.path s.span).chain
  verdict : (place root s.path s.span).verdict = .accepted t.context

theorem tasks_ok {o : Options} {root : Node} {ts : List Task}
    (h : tasks (placements o root) = .ok ts) :
    List.Forall₂ (Task.Of root) (sites o root) ts := by
  unfold placements at h
  generalize sites o root = found at h ⊢
  induction found generalizing ts with
  | nil =>
      cases h
      exact .nil
  | cons s rest ih =>
      rw [List.map_cons, tasks] at h
      split at h
      · cases h
      · cases h
      next context hverdict =>
        split at h
        next us hus =>
          cases h
          exact .cons ⟨rfl, rfl, hverdict⟩ (ih hus)
        next => cases h

theorem forall₂_right {root : Node} {found : List Site} {ts : List Task}
    (h : List.Forall₂ (Task.Of root) found ts) {t : Task} (ht : t ∈ ts) :
    ∃ x ∈ found, t.Of root x := by
  induction h with
  | nil => simp at ht
  | cons hof _ ih =>
      rcases List.mem_cons.1 ht with rfl | ht
      · exact ⟨_, by simp, hof⟩
      · obtain ⟨x, hx, hof'⟩ := ih ht
        exact ⟨x, by simp [hx], hof'⟩

theorem forall₂_left {root : Node} {found : List Site} {ts : List Task}
    (h : List.Forall₂ (Task.Of root) found ts) {x : Site} (hx : x ∈ found) :
    ∃ t ∈ ts, t.Of root x := by
  induction h with
  | nil => simp at hx
  | cons hof _ ih =>
      rcases List.mem_cons.1 hx with rfl | hx
      · exact ⟨_, by simp, hof⟩
      · obtain ⟨t, ht, hof'⟩ := ih hx
        exact ⟨t, by simp [ht], hof'⟩

theorem deepest_mem (t : Task) (ts : List Task) : deepest t ts ∈ t :: ts := by
  induction ts generalizing t with
  | nil => simp [deepest]
  | cons u rest ih =>
      rw [deepest]
      split
      · exact List.mem_cons_of_mem t (ih u)
      · have := ih t
        simp only [List.mem_cons] at this ⊢
        tauto

theorem deepest_le (t : Task) (ts : List Task) :
    ∀ u ∈ t :: ts, u.context.depth ≤ (deepest t ts).context.depth := by
  induction ts generalizing t with
  | nil => simp [deepest]
  | cons v rest ih =>
      intro u hu
      rw [deepest]
      split
      next hlt =>
        rcases List.mem_cons.1 hu with rfl | hu
        · exact Nat.le_trans (Nat.le_of_lt hlt) (ih v v (by simp))
        · exact ih v u hu
      next hle =>
        rcases List.mem_cons.1 hu with rfl | hu
        · exact ih u u (by simp)
        · rcases List.mem_cons.1 hu with rfl | hu
          · exact Nat.le_trans (Nat.le_of_not_lt hle) (ih t t (by simp))
          · exact ih t u (by simp [hu])

/-! ## Anchors -/

def Conditional.expr (c : Conditional) : Expr :=
  .conditional c.span c.test c.onTrue c.onFalse c.type

/-- A statement that a conditional can be lifted out of. -/
inductive Lifts (c : Conditional) : Stmt -> Prop
  | whole {s : Stmt} (hslot : s.anchorSlot?.isSome = true) (hexpr : s.anchorExpr = c.expr) :
      Lifts c s
  | assigned (s s' s'' : Span) (x t : String) (op : Operator) :
      Lifts c (.expr s (.assign s' (.ident s'' x t) op c.expr))

/-- Statements that leave a scope with a value. -/
def leaves : Stmt -> Bool
  | .ret .. | .throw .. | .yield .. => true
  | _ => false

/-- Statements that evaluate an expression before the statements in them. -/
def isHeaded : Stmt -> Bool
  | .branch .. | .switch .. | .sync .. | .forEach .. => true
  | _ => false

/-- The statements that a statement is split into by a conditional. -/
inductive Lifted (c : Conditional) (ns : Names) : Stmt -> List Stmt -> Names -> Prop
  | exit {s : Stmt} (hleaves : leaves s = true) (hexpr : s.anchorExpr = c.expr) :
      Lifted c ns s [c.branches (s.withAnchorExpr c.onTrue).explicit
        (s.withAnchorExpr c.onFalse).explicit] ns
  | declared (s : Span) (name type type' : String) (htype : type'.isEmpty = false) :
      Lifted c ns (.var s name type c.expr)
        [.var s name type' .missing, c.assigning (.ident s name type') .assign] ns
  | assigned (s s' s'' : Span) (x t : String) (op : Operator) :
      Lifted c ns (.expr s (.assign s' (.ident s'' x t) op c.expr))
        [c.assigning (.ident s'' x t) op] ns
  | evaluated (s : Span) :
      Lifted c ns (.expr s c.expr)
        [c.branches (.expr c.onTrue.span c.onTrue) (.expr c.onFalse.span c.onFalse)] ns
  | stored {s : Stmt} (hheaded : isHeaded s = true) (hexpr : s.anchorExpr = c.expr)
      (htype : c.valueType.isEmpty = false) :
      Lifted c ns s [.var c.span ns.fresh.1 c.valueType .missing,
        c.assigning (.ident c.span ns.fresh.1 c.valueType) .assign,
        s.withAnchorExpr (.ident c.span ns.fresh.1 c.valueType)] ns.fresh.2

theorem lift_ok {c : Conditional} {s : Stmt} {ns ns' : Names} {new : List Stmt}
    (hlifts : Lifts c s) (h : lift ns s c = .ok (new, ns')) : Lifted c ns s new ns' := by
  cases hlifts with
  | assigned s s' s'' x t op =>
      cases h
      exact .assigned s s' s'' x t op
  | whole hslot hexpr =>
      cases s with
      | ret | throw | yield =>
          cases h
          exact .exit rfl hexpr
      | var s name type value =>
          cases (hexpr : value = c.expr)
          simp only [lift] at h
          generalize htype : (if type.isEmpty then c.valueType else type) = type' at h
          cases hempty : type'.isEmpty with
          | true => simp [hempty] at h
          | false =>
              simp only [hempty, Bool.false_eq_true, if_false] at h
              cases h
              exact .declared s name type type' hempty
      | expr s e =>
          cases (hexpr : e = c.expr)
          cases h
          exact .evaluated s
      | branch | switch | sync | forEach =>
          simp only [lift] at h
          cases hempty : c.valueType.isEmpty with
          | true => simp [hempty] at h
          | false =>
              simp only [hempty, Bool.false_eq_true, if_false] at h
              cases h
              exact .stored rfl hexpr hempty
      | _ => simp [Stmt.anchorSlot?] at hslot

theorem withAnchorExpr_self {s : Stmt} (h : s.anchorSlot?.isSome = true) :
    s.withAnchorExpr s.anchorExpr = s := by
  cases s <;> simp [Stmt.anchorSlot?] at h <;> rfl

theorem isMissing_withAnchorExpr (s : Stmt) (v : Expr) :
    (s.withAnchorExpr v).isMissing = s.isMissing := by
  cases s <;> rfl

/-- What stands in place of a hoisted anchor is no hole. -/
theorem Tidy.filled_anchor {o : Options} {exit : Exit} {count : Nat} {new : List Stmt}
    (h : Tidy o exit count new) {s : Stmt} {slot : Slot} (hslot : s.anchorSlot? = some slot)
    (v : Expr) : ∀ t ∈ new ++ [s.withAnchorExpr v], t.isMissing = false := by
  intro t ht
  rcases List.mem_append.1 ht with ht | ht
  · exact h.filled t ht
  · rw [List.mem_singleton.1 ht, isMissing_withAnchorExpr]
    cases s <;> simp_all [Stmt.anchorSlot?, Stmt.isMissing]

theorem anchorSlot?_of_leaves {s : Stmt} (h : leaves s = true) : s.anchorSlot?.isSome = true := by
  cases s <;> simp_all [leaves, Stmt.anchorSlot?]

theorem anchorSlot?_of_isHeaded {s : Stmt} (h : isHeaded s = true) :
    s.anchorSlot?.isSome = true := by
  cases s <;> simp_all [isHeaded, Stmt.anchorSlot?]

theorem Lifted.filled {c : Conditional} {ns ns' : Names} {s : Stmt} {new : List Stmt}
    (h : Lifted c ns s new ns') : ∀ t ∈ new, t.isMissing = false := by
  cases h with
  | stored hheaded =>
      cases s <;> simp [isHeaded] at hheaded
      all_goals simp [Conditional.assigning, Conditional.branches, Stmt.withAnchorExpr,
        Stmt.isMissing]
  | _ => simp [Conditional.branches, Conditional.assigning, Stmt.isMissing]

theorem Lifted.anchored {c : Conditional} {ns ns' : Names} {s : Stmt} {new : List Stmt}
    (h : Lifted c ns s new ns') : s.anchorSlot?.isSome = true := by
  cases h with
  | exit hleaves => exact anchorSlot?_of_leaves hleaves
  | stored hheaded => exact anchorSlot?_of_isHeaded hheaded
  | _ => rfl

theorem get?_anchor {s : Stmt} {slot : Slot} (h : s.anchorSlot? = some slot) :
    (Node.stmt s).get? slot = Node.ofExpr? s.anchorExpr := by
  refine Option.ext fun c => ?_
  rw [Node.get?_eq_some]
  cases s <;> simp only [Stmt.anchorSlot?, Option.some.injEq, reduceCtorEq] at h
  all_goals
    subst h
    simp [Node.slots, Node.stmtSlots, Stmt.anchorExpr, Node.mem_single, Node.mem_listed]

theorem anchorExpr_of_get {s : Stmt} {slot : Slot} {e : Expr} (h : s.anchorSlot? = some slot)
    (hget : (Node.stmt s).get? slot = some (.expr e)) : s.anchorExpr = e := by
  rw [get?_anchor h, Node.ofExpr?_eq_some] at hget
  simpa using hget.1.symm

theorem ofNode?_eq_some {n : Node} {c : Conditional} (h : Conditional.ofNode? n = some c) :
    n = .expr c.expr := by
  unfold Conditional.ofNode? at h
  split at h
  · cases h
    rfl
  · cases h

/-- A statement that a site reaches is in a place where it can be given a prologue. -/
theorem holds_of_prospect {g : Gait} {mid up : List Shape} {s : StmtShape}
    (hmid : ∀ x ∈ mid, x.isInline = true)
    (h : (prospect? g (mid ++ .stmt s :: up)).isSome = true) :
    up.head?.any Shape.holds = true := by
  have hat (throws viaTest stuck : Bool)
      (h : (prospectAt throws viaTest stuck up).isSome = true) :
      up.head?.any Shape.holds = true := by
    unfold prospectAt at h
    split at h
    next hholds => exact hholds
    next => simp at h
  induction mid generalizing g with
  | nil =>
      cases g with
      | walking =>
          simp only [List.nil_append, prospect?] at h
          split at h
          · exact hat _ _ _ h
          · simp at h
      | nested typed viaTest stuck =>
          simp only [List.nil_append, prospect?] at h
          split at h
          · exact hat _ _ _ h
          · simp at h
  | cons x mid ih =>
      have hrest : ∀ y ∈ mid, y.isInline = true := fun y hy => hmid y (by simp [hy])
      have hx := hmid x (by simp)
      cases x with
      | operand | switchExpr =>
          cases g with
          | walking => exact ih hrest h
          | nested => simp [prospect?] at h
      | barrier => cases g <;> simp [prospect?] at h
      | conditional typed viaTest => cases g <;> exact ih hrest h
      | assignment =>
          cases g with
          | walking => exact ih hrest h
          | nested typed viaTest stuck =>
              cases mid with
              | nil =>
                  simp only [List.cons_append, List.nil_append, prospect?] at h
                  split at h
                  · exact hat _ _ _ h
                  · simp at h
              | cons y mid =>
                  have hy := hrest y (by simp)
                  cases y <;> simp [Shape.isInline, prospect?] at hy h
      | _ => simp [Shape.isInline] at hx

/-! ## The three changes -/

/--
What the next step settles: for each site whether it gets its test, and the exits of the
tests that are put in.
-/
def settles (o : Options) (w : Work) : Except Defect (List Bool × List Exit) := do
  match ← tasks (placements o w.root) with
  | [] => return ([], [])
  | first :: rest =>
      let ts := first :: rest
      let next := (deepest first rest).context
      match next.place with
      | .anchored anchor =>
          match w.root.at? anchor with
          | some (.stmt s) =>
              let marks := Marks.ofSites anchor ((group anchor ts).map fun t =>
                (t.site.path, t.site.kind, t.chain))
              let h ← hoistAnchor w.names s next.exit marks
              return (ts.map fun t => t.context.place == .anchored anchor,
                h.prologue.filterMap guardExit?)
          | _ => .error (.inconsistentTree .nowhere "place not found")
      | _ => return (ts.map fun _ => false, [])

/-- One step from one tree under expansion to the next, with what it settles. -/
inductive Stepped (o : Options) (w : Work) : List Bool × List Exit -> Work -> Prop
  | wrapped {p : Path} {s : Span} {ps : List Param} {e : Expr} {root' : Node}
      (hat : w.root.at? p = some (.expr (.lambda s ps (.value e))))
      (hfilled : e.isMissing = false) (hlive : isLive o (.expr e) = true)
      (hput : w.root.put? (.expr (.lambda s ps (.block (.mk e.span [.ret e.span e])))) p =
        some root') : Stepped o w ((sites o w.root).map fun _ => false, []) ⟨w.names, root'⟩
  | lifted {anchor : Path} {s : Stmt} {c : Conditional} {h : Shape} {up : List Shape}
      {new : List Stmt} {names : Names} {root' : Node}
      (hat : w.root.at? anchor = some (.stmt s)) (hup : shapes (w.root.spine anchor) = h :: up)
      (hholds : h.holds = true) (hlive : isLive o (.expr s.anchorExpr) = true)
      (hlifted : Lifted c w.names s new names)
      (hsplice : splice w.root anchor s new = .ok root') :
      Stepped o w ((sites o w.root).map fun _ => false, []) ⟨names, root'⟩
  | hoisted {anchor : Path} {s : Stmt} {slot : Slot} {exit : Exit} {h : Shape} {up : List Shape}
      {v : Expr} {new : List Stmt} {names : Names} {root' : Node}
      (hat : w.root.at? anchor = some (.stmt s)) (hup : shapes (w.root.spine anchor) = h :: up)
      (hholds : h.holds = true) (hslot : s.anchorSlot? = some slot)
      (hexit : prospectAt (stmtShape s slot).throws false false (h :: up) = some ⟨exit, some exit⟩)
      (hdirect : Direct o s.anchorExpr) (hlive : isLive o (.expr s.anchorExpr) = true)
      (hhoist : (hoistAll o ⟨exit, writtenNames s.anchorExpr⟩ s.anchorExpr).run ⟨w.names, []⟩ =
        .ok v ⟨names, new⟩)
      (hsplice : splice w.root anchor s (new ++ [s.withAnchorExpr v]) = .ok root') :
      Stepped o w ((sites o w.root).map fun x => ((anchor ++ [slot]).below? x.path).isSome,
        new.filterMap guardExit?) ⟨names, root'⟩

/-- What an accepted site has above it, in a tree. -/
theorem Task.Of.above {o : Options} {root : Node} {x : Site} {t : Task}
    (hx : x ∈ sites o root) (ht : t.Of root x) :
    ∃ low conds tail c, root.at? x.path = some c ∧ siteKind? o c = some x.kind ∧
      root.spine x.path = low ++ conds ++ tail ∧
      (∀ a ∈ low, (shape a.node a.slot).passes = true) ∧
      (∀ a ∈ conds, a.isConditional = true) ∧ Ends conds.getLast? tail t.context.place ∧
      t.context.depth = scopeDepth (root.spine x.path) := by
  obtain ⟨c, hc, hkind, _⟩ := mem_sites.1 hx
  obtain ⟨low, conds, tail, hup, hlow, hconds, hends, hdepth⟩ := climb_accepted ht.verdict
  exact ⟨low, conds, tail, c, hc, hkind, hup, hlow, hconds, hends, hdepth⟩

theorem Task.Of.exit {root : Node} {x : Site} {t : Task} (ht : t.Of root x) :
    (prospect? .walking (shapes (root.spine x.path))).map (·.now) = some t.context.exit := by
  rw [← climb_exit x.span (scopeDepth (root.spine x.path)) []]
  have := ht.verdict
  unfold place at this
  simp [this, Verdict.exit?]

theorem wrapAt_ok {w : Work} {p : Path} {s : Span} {ps : List Param} {body : Body}
    {change : Change} (hat : w.root.at? p = some (.expr (.lambda s ps body)))
    (h : wrapAt w p = .ok change) :
    ∃ e root', body = .value e ∧ e.isMissing = false ∧ change.work = ⟨w.names, root'⟩ ∧
      w.root.put? (.expr (.lambda s ps (.block (.mk e.span [.ret e.span e])))) p = some root' := by
  unfold wrapAt at h
  rw [hat] at h
  cases body with
  | block b => cases h
  | value e =>
      cases hmissing : e.isMissing with
      | true => simp [wrapLambda, hmissing, Bind.bind, Except.bind] at h
      | false =>
          simp only [wrapLambda, hmissing, Bind.bind, Except.bind, Bool.false_eq_true, if_false] at h
          split at h
          · cases h
          next root' hput =>
            cases h
            exact ⟨e, root', rfl, hmissing, rfl, putAt_ok hput⟩

theorem step_wrapped {o : Options} {w : Work} {x : Site} {t : Task} {p : Path} {change : Change}
    (hx : x ∈ sites o w.root) (ht : t.Of w.root x) (hplace : t.context.place = .wrapped p)
    (h : wrapAt w p = .ok change) :
    Stepped o w ((sites o w.root).map fun _ => false, []) change.work := by
  obtain ⟨low, conds, tail, c, hc, hkind, hup, _, _, hends, _⟩ := ht.above hx
  rw [hplace] at hends
  generalize conds.getLast? = top at hends
  cases hends with
  | wrapped hnode =>
      obtain ⟨d, q, hat, hget, hq, _, _, _⟩ := Node.spine_split hc hup
      rw [hnode] at hat hget
      obtain ⟨e, root', rfl, hfilled, hwork, hput⟩ := wrapAt_ok hat h
      rw [hwork]
      refine .wrapped hat hfilled ?_ hput
      have hlive : isLive o d = true := isLive_of_at hq (isLive_of_site hkind)
      rw [Node.get?_eq_some] at hget
      rcases List.mem_append.1 hget with hparam | hbody
      · obtain ⟨_, _, _, _, hd⟩ := Node.mem_listed.1 hparam
        cases hd
        rw [isLive_eq] at hlive
        simp [siteKind?, Node.slots] at hlive
      · obtain ⟨_, hd⟩ := Node.mem_single.1 hbody
        obtain ⟨rfl, _⟩ := Node.ofExpr?_eq_some.1 hd
        exact hlive

theorem liftAt_ok {w : Work} {anchor p : Path} {s : Stmt} {change : Change}
    (hat : w.root.at? anchor = some (.stmt s)) (h : liftAt w anchor p = .ok change) :
    ∃ c new names root', (w.root.at? p).bind Conditional.ofNode? = some c ∧
      lift w.names s c = .ok (new, names) ∧ splice w.root anchor s new = .ok root' ∧
      change.work = ⟨names, root'⟩ := by
  unfold liftAt at h
  rw [hat] at h
  split at h
  next s' c hs hc =>
    cases hs
    simp only [Bind.bind, Except.bind] at h
    split at h
    · cases h
    next lifted hlift =>
      split at h
      · cases h
      next root' hsplice =>
        cases h
        exact ⟨c, _, _, root', hc, hlift, hsplice, rfl⟩
  next => cases h

/-- The node right below another one on a spine. -/
theorem spine_below {n c : Node} {p : Path} (hc : n.at? p = some c) {low rest : List Above}
    {top a : Above} (h : n.spine p = low ++ top :: a :: rest) :
    n.at? top.path = some top.node ∧ n.at? a.path = some a.node ∧
      a.node.get? a.slot = some top.node ∧ rest = n.spine a.path := by
  obtain ⟨_, _, htop, _, _, _, hrest, _⟩ := Node.spine_split hc h
  obtain ⟨d, q, ha, hget, hq, _, hrest', hlow⟩ :=
    Node.spine_split htop (hrest.symm.trans (List.nil_append _).symm)
  cases q with
  | nil =>
      cases hq
      exact ⟨htop, ha, hget, hrest'⟩
  | cons slot q =>
      obtain ⟨e, he, _⟩ := Node.at?_cons_eq_some.1 hq
      simp [Node.spine, he] at hlow

theorem isLive_above {o : Options} {n c : Node} {k : Kind} {p : Path} (hc : n.at? p = some c)
    (hkind : siteKind? o c = some k) {low rest : List Above} {a : Above}
    (h : n.spine p = low ++ a :: rest) : isLive o a.node = true := by
  obtain ⟨d, q, _, hget, hq, _, _, _⟩ := Node.spine_split hc h
  exact isLive_of_at (Node.at?_cons_eq_some.2 ⟨d, hget, hq⟩) (isLive_of_site hkind)

/-- What is above the statement that a site reaches. -/
theorem Task.Of.holds {root : Node} {x : Site} {t : Task} (ht : t.Of root x)
    {mid : List Above} {a : Above} {s : Stmt} (hnode : a.node = .stmt s)
    (hup : root.spine x.path = mid ++ a :: root.spine a.path)
    (hmid : ∀ b ∈ mid, (shape b.node b.slot).isInline = true) :
    ∃ h up, shapes (root.spine a.path) = h :: up ∧ h.holds = true := by
  have hsome : (prospect? .walking (shapes (root.spine x.path))).isSome = true := by
    simpa using congrArg Option.isSome ht.exit
  rw [hup, shapes_append, shapes_cons, hnode, shape] at hsome
  have hinline : ∀ y ∈ shapes mid, y.isInline = true := by
    simpa [shapes] using hmid
  have hholds := holds_of_prospect hinline hsome
  cases hshapes : shapes (root.spine a.path) with
  | nil => simp [hshapes] at hholds
  | cons h up => exact ⟨h, up, rfl, by simpa [hshapes] using hholds⟩

theorem isInline_conditional {a : Above} (h : a.isConditional = true) :
    (shape a.node a.slot).isInline = true := by
  obtain ⟨typed, hshape⟩ := conditional_shape h
  rw [hshape]
  rfl

theorem step_lifted {o : Options} {w : Work} {x : Site} {t : Task} {anchor p : Path}
    {change : Change} (hx : x ∈ sites o w.root) (ht : t.Of w.root x)
    (hplace : t.context.place = .lifted anchor p) (h : liftAt w anchor p = .ok change) :
    Stepped o w ((sites o w.root).map fun _ => false, []) change.work := by
  obtain ⟨low, conds, tail, c, hc, hkind, hup, hlow, hconds, hends, _⟩ := ht.above hx
  rw [hplace] at hends
  generalize hlast : conds.getLast? = top at hends
  have hinline : ∀ b ∈ low ++ conds, (shape b.node b.slot).isInline = true := by
    intro b hb
    rcases List.mem_append.1 hb with hb | hb
    · exact isInline_of_passes (hlow b hb)
    · exact isInline_conditional (hconds b hb)
  cases hends with
  | @lifted top a s rest hnode hlifts =>
      obtain ⟨inner, rfl⟩ := List.getLast?_eq_some_iff.1 hlast
      have hup' : w.root.spine x.path = (low ++ inner) ++ top :: a :: rest := by simp [hup]
      obtain ⟨htop, hat, hget, rfl⟩ := spine_below hc hup'
      rw [hnode] at hat hget
      obtain ⟨h', up, hshapes, hholds⟩ := ht.holds hnode hup hinline
      obtain ⟨d, new, names, root', hcond, hlift, hsplice, hwork⟩ := liftAt_ok hat h
      rw [htop, Option.bind_some] at hcond
      have hd := ofNode?_eq_some hcond
      rw [hd] at hget hlifts
      simp only [liftsFrom, Conditional.expr, Bool.and_eq_true, decide_eq_true_eq] at hlifts
      have hexpr := anchorExpr_of_get hlifts.1 hget
      rw [hwork]
      refine .lifted hat hshapes hholds ?_ (lift_ok (.whole (by simp [hlifts.1]) hexpr) hlift)
        hsplice
      rw [hexpr, ← hd]
      exact isLive_above hc hkind hup'
  | @assigned top b a s s' s'' y type op v e rest hassign hvalue hnode hslot =>
      obtain ⟨inner, rfl⟩ := List.getLast?_eq_some_iff.1 hlast
      have hup' : w.root.spine x.path = (low ++ inner) ++ top :: b :: a :: rest := by simp [hup]
      have hup'' : w.root.spine x.path = (low ++ (inner ++ [top])) ++ b :: a :: rest := by
        simp [hup]
      obtain ⟨htop, _, hgetTop, _⟩ := spine_below hc hup'
      obtain ⟨_, hat, hgetAssign, rfl⟩ := spine_below hc hup''
      rw [hassign, hvalue] at hgetTop
      rw [hnode, hslot, hassign] at hgetAssign
      rw [hnode] at hat
      cases (anchorExpr_of_get (s := .expr s'' e) rfl hgetAssign : e = _)
      obtain ⟨d, new, names, root', hcond, hlift, hsplice, hwork⟩ := liftAt_ok hat h
      rw [htop, Option.bind_some] at hcond
      have hd := ofNode?_eq_some hcond
      have hv : v = d.expr := by
        rw [hd, get?_value, Node.ofExpr?_eq_some] at hgetTop
        simpa using hgetTop.1.symm
      have hmid : w.root.spine x.path =
          (low ++ (inner ++ [top]) ++ [b]) ++ a :: w.root.spine a.path := by
        simp [hup]
      have hinline' : ∀ z ∈ low ++ (inner ++ [top]) ++ [b],
          (shape z.node z.slot).isInline = true := by
        intro z hz
        rcases List.mem_append.1 hz with hz | hz
        · exact hinline z hz
        · rw [List.mem_singleton.1 hz, hassign, hvalue]
          rfl
      obtain ⟨h', up, hshapes, hholds⟩ := ht.holds hnode hmid hinline'
      rw [hwork]
      have hlive := isLive_above hc hkind hup''
      subst hv
      rw [hassign] at hlive
      exact .lifted hat hshapes hholds hlive (lift_ok (.assigned ..) hlift) hsplice

/-! ## Hoisting -/

theorem prospect?_passes {low up : List Shape} (h : ∀ x ∈ low, x.passes = true) :
    prospect? .walking (low ++ up) = prospect? .walking up := by
  induction low with
  | nil => rfl
  | cons x low ih =>
      have hrest := ih fun y hy => h y (by simp [hy])
      have hx := h x (by simp)
      cases x <;> simp [Shape.passes] at hx <;> simpa [prospect?] using hrest

theorem prospectAt_false {throws : Bool} {up : List Shape} {p : Prospect}
    (h : prospectAt throws false false up = some p) : p = ⟨p.now, some p.now⟩ := by
  unfold prospectAt at h
  split at h
  · obtain ⟨e, _, rfl⟩ := Option.map_eq_some_iff.1 h
    cases throws <;> rfl
  · cases h

theorem shapes_under (p : Path) (up : List Above) : shapes (up.map (Above.under p)) = shapes up := by
  simp [shapes, Above.under, Function.comp_def]

theorem mem_ways_of_site {o : Options} {n c : Node} {p : Path} {k : Kind} (hc : n.at? p = some c)
    (hkind : siteKind? o c = some k) : shapes (n.spine p) ∈ ways o n := by
  have hmem : (⟨p, c.span, k⟩ : Site) ∈ sites o n := mem_sites.2 ⟨c, hc, hkind, rfl⟩
  simp only [ways, located, List.map_map, List.mem_map]
  exact ⟨_, hmem, rfl⟩

theorem exists_site_of_way {o : Options} {n : Node} {w : List Shape} (h : w ∈ ways o n) :
    ∃ p c k, n.at? p = some c ∧ siteKind? o c = some k ∧ w = shapes (n.spine p) := by
  simp only [ways, located, List.map_map, List.mem_map] at h
  obtain ⟨s, hs, rfl⟩ := h
  obtain ⟨c, hc, hkind, _⟩ := mem_sites.1 hs
  exact ⟨s.path, c, s.kind, hc, hkind, rfl⟩

/-- An anchor in a tree, with the expression in its anchor slot. -/
structure Anchor (root : Node) (anchor : Path) (s : Stmt) (slot : Slot) : Prop where
  hat : root.at? anchor = some (.stmt s)
  hslot : s.anchorSlot? = some slot
  hfilled : s.anchorExpr.isMissing = false

namespace Anchor

variable {o : Options} {root : Node} {anchor : Path} {s : Stmt} {slot : Slot}

theorem at?_eq (h : Anchor root anchor s slot) (q : Path) :
    root.at? (anchor ++ slot :: q) = (Node.expr s.anchorExpr).at? q := by
  rw [Node.at?_append, h.hat, Option.bind_some, Node.at?, get?_anchor h.hslot,
    Node.ofExpr?_of_filled h.hfilled]
  rfl

theorem spine_eq (h : Anchor root anchor s slot) (q : Path) :
    root.spine (anchor ++ slot :: q) =
      ((Node.expr s.anchorExpr).spine q).map (Above.under (anchor ++ [slot])) ++
        ⟨anchor, .stmt s, slot⟩ :: root.spine anchor := by
  have hat : root.at? (anchor ++ [slot]) = some (.expr s.anchorExpr) := h.at?_eq []
  have hget : (Node.stmt s).get? slot = some (.expr s.anchorExpr) := by
    rw [get?_anchor h.hslot, Node.ofExpr?_of_filled h.hfilled]
  have := Node.spine_append hat q
  rw [List.append_assoc, List.singleton_append, Node.spine_concat h.hat hget] at this
  exact this

/-- A site below an anchor belongs to the anchor, if all operands on the way run in their turn. -/
theorem place_through (h : Anchor root anchor s slot) {y : Site} {t : Task} (hy : y ∈ sites o root)
    (ht : t.Of root y) {q : Path} (hq : y.path = anchor ++ slot :: q)
    (hpass : ∀ x ∈ shapes ((Node.expr s.anchorExpr).spine q), x.passes = true) :
    t.context.place = .anchored anchor ∧
      t.chain = q.above.map fun r => anchor ++ slot :: r := by
  obtain ⟨c, hc, _, _⟩ := mem_sites.1 hy
  rw [hq, h.at?_eq] at hc
  have hlow : ∀ a ∈ ((Node.expr s.anchorExpr).spine q).map (Above.under (anchor ++ [slot])),
      (shape a.node a.slot).passes = true := by
    intro a ha
    obtain ⟨b, hb, rfl⟩ := List.mem_map.1 ha
    exact hpass _ (List.mem_map.2 ⟨b, hb, rfl⟩)
  have hplace : place root y.path y.span = judge (scopeDepth (root.spine y.path))
      ((((Node.expr s.anchorExpr).spine q).map (Above.under (anchor ++ [slot]))).map (·.path))
      ⟨anchor, .stmt s, slot⟩ s (root.spine anchor) (.anchored anchor) := by
    unfold place
    rw [hq, h.spine_eq, climb_through hlow rfl]
    rfl
  have hverdict := ht.verdict
  rw [hplace] at hverdict
  refine ⟨(judge_accepted hverdict).2.1, ?_⟩
  rw [ht.chain, hplace, judge_chain, List.map_map, ← Node.spine_paths hc, List.map_map]
  simp [Above.under, Function.comp_def]

/-- A site below a direct anchor belongs to the anchor. -/
theorem place_eq (h : Anchor root anchor s slot) (hd : Direct o s.anchorExpr) {y : Site}
    {t : Task} (hy : y ∈ sites o root) (ht : t.Of root y) {q : Path}
    (hq : y.path = anchor ++ slot :: q) :
    t.context.place = .anchored anchor ∧
      t.chain = q.above.map fun r => anchor ++ slot :: r := by
  obtain ⟨c, hc, hkind, _⟩ := mem_sites.1 hy
  rw [hq, h.at?_eq] at hc
  exact h.place_through hy ht hq (hd _ (mem_ways_of_site hc hkind))

/-- A site that belongs to an anchor is below it. -/
theorem path_eq (h : Anchor root anchor s slot) {y : Site} {t : Task} (hy : y ∈ sites o root)
    (ht : t.Of root y) (hplace : t.context.place = .anchored anchor) :
    ∃ q, y.path = anchor ++ slot :: q ∧
      ∀ x ∈ shapes ((Node.expr s.anchorExpr).spine q), x.passes = true := by
  obtain ⟨low, conds, tail, c, hc, hkind, hup, hlow, _, hends, _⟩ := ht.above hy
  rw [hplace] at hends
  generalize hlast : conds.getLast? = top at hends
  cases hends with
  | @anchored a s' rest hnode hslot =>
      obtain rfl := List.getLast?_eq_none_iff.1 hlast
      rw [List.append_nil] at hup
      obtain ⟨d, q, hat, hget, _, hpath, _, hlow'⟩ := Node.spine_split hc hup
      rw [h.hat, hnode] at hat
      cases hat
      have hslots : slot = a.slot := Option.some.inj (h.hslot.symm.trans hslot)
      subst hslots
      rw [hnode, get?_anchor hslot, Node.ofExpr?_of_filled h.hfilled] at hget
      cases hget
      refine ⟨q, hpath, ?_⟩
      rw [← shapes_under (a.path ++ [a.slot]), ← hlow']
      simpa [shapes] using hlow

/-- The anchor that a site reaches. -/
theorem of_task {x : Site} {t : Task} (hx : x ∈ sites o root) (ht : t.Of root x)
    (hplace : t.context.place = .anchored anchor) (hat : root.at? anchor = some (.stmt s)) :
    ∃ slot, Anchor root anchor s slot := by
  obtain ⟨low, conds, tail, c, hc, _, hup, _, _, hends, _⟩ := ht.above hx
  rw [hplace] at hends
  generalize conds.getLast? = top at hends
  cases hends with
  | @anchored a s' rest hnode hslot =>
      obtain ⟨d, q, hat', hget, _, _, _, _⟩ := Node.spine_split hc hup
      rw [hat, hnode] at hat'
      cases hat'
      rw [hnode, get?_anchor hslot, Node.ofExpr?_eq_some] at hget
      exact ⟨a.slot, hat, hslot, hget.2⟩

/-- The marks of the tasks at a direct anchor are those of all its sites. -/
theorem marked (h : Anchor root anchor s slot) (hd : Direct o s.anchorExpr) {ts : List Task}
    (hts : List.Forall₂ (Task.Of root) (sites o root) ts) :
    Marked o (.expr s.anchorExpr) ((Marks.ofSites anchor ((group anchor ts).map fun t =>
      (t.site.path, t.site.kind, t.chain))).under slot) := by
  have hgroup (t : Task) : t ∈ group anchor ts ↔ ∃ y q, y ∈ sites o root ∧ t.Of root y ∧
      t ∈ ts ∧ y.path = anchor ++ slot :: q := by
    simp only [group, List.mem_filter, beq_iff_eq]
    constructor
    · rintro ⟨ht, hplace⟩
      obtain ⟨y, hy, hof⟩ := forall₂_right hts ht
      obtain ⟨q, hq, _⟩ := h.path_eq hy hof hplace
      exact ⟨y, q, hy, hof, ht, hq⟩
    · rintro ⟨y, q, hy, hof, ht, hq⟩
      exact ⟨ht, (h.place_eq hd hy hof hq).1⟩
  -- a site of the expression is the site of a task in the group
  have htask {q : Path} {c : Node} {k : Kind} (hc : (Node.expr s.anchorExpr).at? q = some c)
      (hkind : siteKind? o c = some k) : ∃ t ∈ group anchor ts,
        t.site.path = anchor ++ slot :: q ∧ t.site.kind = k ∧
          t.chain = q.above.map fun r => anchor ++ slot :: r := by
    have hy : (⟨anchor ++ slot :: q, c.span, k⟩ : Site) ∈ sites o root :=
      mem_sites.2 ⟨c, (h.at?_eq q).trans hc, hkind, rfl⟩
    obtain ⟨t, ht, hof⟩ := forall₂_left hts hy
    refine ⟨t, (hgroup t).2 ⟨_, q, hy, hof, ht, rfl⟩, by rw [hof.site], by rw [hof.site], ?_⟩
    exact (h.place_eq hd hy hof rfl).2
  constructor
  · intro p
    rw [Marks.mem_under_hot]
    simp only [Marks.ofSites, List.flatMap_map, List.mem_filterMap, List.mem_flatMap,
      Path.below?_eq_some]
    constructor
    · rintro ⟨_, ⟨t, ht, hmem⟩, rfl⟩
      obtain ⟨y, q, hy, hof, _, hq⟩ := (hgroup t).1 ht
      rw [hof.site, (h.place_eq hd hy hof hq).2, hq] at hmem
      obtain ⟨c, hc, hkind, _⟩ := mem_sites.1 hy
      rw [hq, h.at?_eq] at hc
      have hbelow : ∃ r, q = p ++ r := by
        rcases List.mem_cons.1 hmem with heq | hmem
        · exact ⟨[], by simpa using heq.symm⟩
        · obtain ⟨r, hr, heq⟩ := List.mem_map.1 hmem
          obtain rfl : r = p := by simpa using heq
          obtain ⟨slot', r', rfl⟩ := Path.mem_above.1 hr
          exact ⟨slot' :: r', rfl⟩
      obtain ⟨r, rfl⟩ := hbelow
      rw [Node.at?_append, Option.bind_eq_some_iff] at hc
      obtain ⟨d, hd', hc⟩ := hc
      exact ⟨d, hd', isLive_of_at hc (isLive_of_site hkind)⟩
    · rintro ⟨d, hd', hlive⟩
      obtain ⟨r, c, k, hc, hkind⟩ := isLive_iff.1 hlive
      have hpr : (Node.expr s.anchorExpr).at? (p ++ r) = some c := by
        rw [Node.at?_append, hd', Option.bind_some, hc]
      obtain ⟨t, ht, hpath, _, hchain⟩ := htask hpr hkind
      refine ⟨_, ⟨t, ht, ?_⟩, rfl⟩
      rw [hpath, hchain]
      cases r with
      | nil => simp
      | cons slot' r =>
          exact List.mem_cons_of_mem _ (List.mem_map.2 ⟨p, Path.mem_above.2 ⟨slot', r, rfl⟩, rfl⟩)
  · intro p k
    rw [Marks.mem_under_sites]
    simp only [Marks.ofSites, List.filterMap_map, List.mem_filterMap, Function.comp_apply,
      Option.map_eq_some_iff, Path.below?_eq_some, Prod.mk.injEq]
    constructor
    · rintro ⟨t, ht, _, hpath, rfl, hkind'⟩
      obtain ⟨y, q, hy, hof, _, hq⟩ := (hgroup t).1 ht
      obtain ⟨c, hc, hkind, _⟩ := mem_sites.1 hy
      rw [hof.site] at hpath hkind'
      rw [hpath, h.at?_eq] at hc
      exact ⟨c, hc, hkind' ▸ hkind⟩
    · rintro ⟨c, hc, hkind⟩
      obtain ⟨t, ht, hpath, hk, _⟩ := htask hc hkind
      exact ⟨t, ht, _, hpath, rfl, hk⟩

/-- The anchor of a deepest site is direct. -/
theorem direct (h : Anchor root anchor s slot) {x : Site} {t : Task} {ts : List Task}
    (hts : List.Forall₂ (Task.Of root) (sites o root) ts) (hx : x ∈ sites o root)
    (ht : t.Of root x) (hplace : t.context.place = .anchored anchor)
    (hdeepest : ∀ u ∈ ts, u.context.depth ≤ t.context.depth) : Direct o s.anchorExpr := by
  have hway (q : Path) : shapes (root.spine (anchor ++ slot :: q)) =
      shapes ((Node.expr s.anchorExpr).spine q) ++
        .stmt (stmtShape s slot) :: shapes (root.spine anchor) := by
    rw [h.spine_eq, shapes_append, shapes_under, shapes_cons]
    rfl
  obtain ⟨q₀, hq₀, hpass⟩ := h.path_eq hx ht hplace
  obtain ⟨c, hc, hkind, _⟩ := mem_sites.1 hx
  rw [hq₀, h.at?_eq] at hc
  have hdepth₀ : t.context.depth =
      shapeDepth (.stmt (stmtShape s slot) :: shapes (root.spine anchor)) := by
    obtain ⟨_, _, _, _, _, _, _, _, _, _, hdepth⟩ := ht.above hx
    rw [hdepth, scopeDepth_eq, hq₀, hway, shapeDepth_passes hpass]
  -- what holds of every site below the anchor
  have hbelow (w : List Shape) (hw : w ∈ ways o (.expr s.anchorExpr)) :
      ∃ y u, y ∈ sites o root ∧ u.Of root y ∧ u ∈ ts ∧ shapes (root.spine y.path) =
        w ++ .stmt (stmtShape s slot) :: shapes (root.spine anchor) := by
    obtain ⟨q, c', k, hc', hkind', rfl⟩ := exists_site_of_way hw
    have hy : (⟨anchor ++ slot :: q, c'.span, k⟩ : Site) ∈ sites o root :=
      mem_sites.2 ⟨c', (h.at?_eq q).trans hc', hkind', rfl⟩
    obtain ⟨u, hu, hof⟩ := forall₂_left hts hy
    exact ⟨_, u, hy, hof, hu, hway q⟩
  have haccepted : ∀ w ∈ ways o (.expr s.anchorExpr), (prospect? .walking
      (w ++ .stmt (stmtShape s slot) :: shapes (root.spine anchor))).isSome = true := by
    intro w hw
    obtain ⟨y, u, _, hof, _, heq⟩ := hbelow w hw
    rw [← heq]
    simpa using congrArg Option.isSome hof.exit
  have hdepth : ∀ w ∈ ways o (.expr s.anchorExpr),
      shapeDepth (w ++ .stmt (stmtShape s slot) :: shapes (root.spine anchor)) ≤
        shapeDepth (.stmt (stmtShape s slot) :: shapes (root.spine anchor)) := by
    intro w hw
    obtain ⟨y, u, hy, hof, hu, heq⟩ := hbelow w hw
    obtain ⟨_, _, _, _, _, _, _, _, _, _, hdepth⟩ := hof.above hy
    have hle := hdeepest u hu
    rwa [hdepth, hdepth₀, scopeDepth_eq, heq] at hle
  exact direct_of_deepest (mem_ways_of_site hc hkind) hpass haccepted hdepth

end Anchor

theorem hoistAt_ok {w : Work} {anchor : Path} {s : Stmt} {exit : Exit} {ts : List Task}
    {change : Change} (hat : w.root.at? anchor = some (.stmt s))
    (h : hoistAt w anchor exit ts = .ok change) :
    ∃ hoisted root', hoistAnchor w.names s exit (Marks.ofSites anchor (ts.map fun t =>
        (t.site.path, t.site.kind, t.chain))) = .ok hoisted ∧
      splice w.root anchor s hoisted.statements = .ok root' ∧
      change.work = ⟨hoisted.names, root'⟩ := by
  unfold hoistAt at h
  rw [hat] at h
  simp only [Bind.bind, Except.bind] at h
  split at h
  · cases h
  next hoisted hh =>
    split at h
    · cases h
    next root' hsplice =>
      cases h
      exact ⟨hoisted, root', hh, hsplice, rfl⟩

theorem hoistAt_stmt {w : Work} {anchor : Path} {exit : Exit} {ts : List Task} {change : Change}
    (h : hoistAt w anchor exit ts = .ok change) : ∃ s, w.root.at? anchor = some (.stmt s) := by
  unfold hoistAt at h
  split at h
  next s hat => exact ⟨s, hat⟩
  next => cases h

/-- The tasks of a group are those whose site is below the anchor. -/
theorem Anchor.flags {o : Options} {root : Node} {anchor : Path} {s : Stmt} {slot : Slot}
    (h : Anchor root anchor s slot) (hd : Direct o s.anchorExpr) {ts : List Task}
    (hts : List.Forall₂ (Task.Of root) (sites o root) ts) :
    (ts.map fun t => t.context.place == .anchored anchor) =
      (sites o root).map fun x => ((anchor ++ [slot]).below? x.path).isSome := by
  have hflag {x : Site} {t : Task} (hx : x ∈ sites o root) (ht : t.Of root x) :
      (t.context.place == .anchored anchor) = ((anchor ++ [slot]).below? x.path).isSome := by
    rw [Bool.eq_iff_iff, beq_iff_eq, Option.isSome_iff_exists]
    simp only [Path.below?_eq_some, List.append_assoc, List.singleton_append]
    constructor
    · intro hplace
      obtain ⟨q, hq, _⟩ := h.path_eq hx ht hplace
      exact ⟨q, hq⟩
    · rintro ⟨q, hq⟩
      exact (h.place_eq hd hx ht hq).1
  generalize hfound : sites o root = found at hts
  replace hflag {x : Site} {t : Task} (hx : x ∈ found) := hflag (t := t) (hfound ▸ hx)
  clear hfound
  induction hts with
  | nil => rfl
  | cons hof _ ih =>
      simp only [List.map_cons, List.cons.injEq]
      exact ⟨hflag (by simp) hof, ih fun hx => hflag (by simp [hx])⟩

theorem step_hoisted {o : Options} {w : Work} {x : Site} {t : Task} {ts : List Task}
    {anchor : Path} {change : Change}
    (hts : List.Forall₂ (Task.Of w.root) (sites o w.root) ts) (hx : x ∈ sites o w.root)
    (ht : t.Of w.root x) (hplace : t.context.place = .anchored anchor)
    (hdeepest : ∀ u ∈ ts, u.context.depth ≤ t.context.depth)
    (h : hoistAt w anchor t.context.exit (group anchor ts) = .ok change) :
    ∃ s hoisted, w.root.at? anchor = some (.stmt s) ∧
      hoistAnchor w.names s t.context.exit (Marks.ofSites anchor ((group anchor ts).map fun t =>
        (t.site.path, t.site.kind, t.chain))) = .ok hoisted ∧
      Stepped o w (ts.map fun t => t.context.place == .anchored anchor,
        hoisted.prologue.filterMap guardExit?) change.work := by
  obtain ⟨s, hat⟩ := hoistAt_stmt h
  obtain ⟨slot, ha⟩ := Anchor.of_task hx ht hplace hat
  have hdirect := ha.direct hts hx ht hplace hdeepest
  obtain ⟨q, hq, hpass⟩ := ha.path_eq hx ht hplace
  obtain ⟨c, hc, hkind, _⟩ := mem_sites.1 hx
  rw [hq, ha.at?_eq] at hc
  have hexit := ht.exit
  rw [hq, ha.spine_eq, shapes_append, shapes_under, prospect?_passes hpass, shapes_cons] at hexit
  simp only [shape, prospect?] at hexit
  rw [if_pos (by simp [stmtShape, ha.hslot])] at hexit
  obtain ⟨prospect, hprospect, hnow⟩ := Option.map_eq_some_iff.1 hexit
  have hboth := prospectAt_false hprospect
  rw [hnow] at hboth
  rw [hboth] at hprospect
  have hholds : (shapes (w.root.spine anchor)).head?.any Shape.holds = true := by
    unfold prospectAt at hprospect
    split at hprospect
    next hholds => exact hholds
    next => cases hprospect
  obtain ⟨hoisted, root', hh, hsplice, hwork⟩ := hoistAt_ok hat h
  refine ⟨s, hoisted, hat, hh, ?_⟩
  unfold hoistAnchor at hh
  rw [ha.hslot] at hh
  simp only [hoist_eq o _ _ _ (ha.marked hdirect hts)] at hh
  split at hh
  next v d hrun =>
    cases hh
    cases hshapes : shapes (w.root.spine anchor) with
    | nil => simp [hshapes] at hholds
    | cons above up =>
        rw [hshapes] at hprospect hholds
        rw [hwork, ha.flags hdirect hts]
        exact .hoisted hat hshapes (by simpa using hholds) ha.hslot hprospect hdirect
          (isLive_of_at hc (isLive_of_site hkind)) hrun hsplice
  next => cases hh

/-! ## Steps -/

/-- All sites of a tree are accepted. -/
def Placeable (o : Options) (root : Node) : Prop :=
  ∀ w ∈ ways o root, (prospect? .walking w).isSome = true

theorem placeable_of_tasks {o : Options} {root : Node} {ts : List Task}
    (h : List.Forall₂ (Task.Of root) (sites o root) ts) : Placeable o root := by
  intro w hw
  simp only [ways, located, List.map_map, List.mem_map] at hw
  obtain ⟨x, hx, rfl⟩ := hw
  obtain ⟨t, _, hof⟩ := forall₂_left h hx
  simpa using congrArg Option.isSome hof.exit

theorem map_ok {f : α -> β} {x : Except ε α} {b : β} (h : f <$> x = .ok b) :
    ∃ a, x = .ok a ∧ f a = b := by
  cases x with
  | error e => cases h
  | ok a =>
      cases h
      exact ⟨a, rfl, rfl⟩

/-- What a step does, and what it has made sure of. -/
theorem step_some {o : Options} {w : Work} {change : Change} (h : step o w = .ok (some change)) :
    Placeable o w.root ∧ ∃ settled, settles o w = .ok settled ∧ Stepped o w settled change.work := by
  unfold step at h
  unfold settles
  cases hts : tasks (placements o w.root) with
  | error d => simp [hts, Bind.bind, Except.bind] at h
  | ok ts =>
      have hall := tasks_ok hts
      refine ⟨placeable_of_tasks hall, ?_⟩
      cases ts with
      | nil => simp [hts, Bind.bind, Except.bind, pure, Except.pure] at h
      | cons first rest =>
          obtain ⟨x, hx, hof⟩ := forall₂_right hall (deepest_mem first rest)
          have hnone : ((first :: rest).map fun _ => false) =
              (sites o w.root).map fun _ => false := by
            simp [hall.length_eq, List.replicate_succ]
          simp only [hts, Bind.bind, Except.bind, pure, Except.pure] at h ⊢
          cases hplace : (deepest first rest).context.place with
          | wrapped p =>
              rw [hplace] at h
              obtain ⟨_, hwrap, heq⟩ := map_ok h
              cases heq
              exact ⟨_, rfl, hnone ▸ step_wrapped hx hof hplace hwrap⟩
          | lifted anchor p =>
              rw [hplace] at h
              obtain ⟨_, hlift, heq⟩ := map_ok h
              cases heq
              exact ⟨_, rfl, hnone ▸ step_lifted hx hof hplace hlift⟩
          | anchored anchor =>
              rw [hplace] at h
              obtain ⟨_, hhoist, heq⟩ := map_ok h
              cases heq
              obtain ⟨s, hoisted, hat, hh, hstep⟩ :=
                step_hoisted hall hx hof hplace (deepest_le first rest) hhoist
              refine ⟨_, ?_, hstep⟩
              simp only [hat, hh]

theorem step_none {o : Options} {w : Work} (h : step o w = .ok none) : isLive o w.root = false := by
  unfold step at h
  cases hts : tasks (placements o w.root) with
  | error d => simp [hts, Bind.bind, Except.bind] at h
  | ok ts =>
      cases ts with
      | nil =>
          have hall := tasks_ok hts
          cases hfound : sites o w.root with
          | nil => simp [isLive, hfound]
          | cons x found =>
              rw [hfound] at hall
              cases hall
      | cons first rest =>
          simp only [hts, Bind.bind, Except.bind] at h
          split at h
          all_goals
            obtain ⟨_, _, heq⟩ := map_ok h
            cases heq

end EarlyExit.Expansion
