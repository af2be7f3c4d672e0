import EarlyExit.Proofs.Expansion.Fate
import EarlyExit.Proofs.Expansion.Moves

/-!
# Collecting through a step

What is collected from the nodes of a tree changes only where a step changes the tree,
as long as a node gives no more than what it and the faces of its children tell.  This
module says so for the three ways a step changes a tree: splicing, lifting and wrapping.
-/

namespace EarlyExit

namespace Node

def varName? : Node -> Option String
  | .expr (.ident _ name _) => some name
  | _ => none

/-- Children that a node above does not tell apart. -/
def Alike (c c' : Node) : Prop :=
  c.staticType = c'.staticType ∧ c.varName? = c'.varName?

theorem staticType_set {n n' c : Node} {slot : Slot} (h : n.set? slot c = some n') :
    n.staticType = n'.staticType :=
  staticType_of_face (Expansion.face?_set h).symm

theorem varName?_set {n n' c : Node} {slot : Slot} (h : n.set? slot c = some n') :
    n.varName? = n'.varName? :=
  (eq_of_bare (fun n => by cases n with | expr e => cases e <;> rfl | _ => rfl) h).symm

theorem alike_set {n n' c : Node} {slot : Slot} (h : n.set? slot c = some n') : Alike n n' :=
  ⟨staticType_set h, varName?_set h⟩

/-- Nodes that name nothing and call nothing. -/
def isSilent : Node -> Bool
  | .stmt (.var ..) | .stmt (.forEach ..) | .stmt (.labeled ..) | .param _
  | .expr (.ident ..) | .expr (.call ..) => false
  | _ => true

/-- What a node gives depends on little more than the node itself. -/
structure Local (g : Node -> List α) : Prop where
  silent : ∀ n, n.isSilent = true -> g n = []
  var : ∀ s s' name type type' e e', g (.stmt (.var s name type e)) = g (.stmt (.var s' name type' e'))
  forEach : ∀ s name type e e' b,
    g (.stmt (.forEach s name type e b)) = g (.stmt (.forEach s name type e' b))
  set : ∀ {n n' c c' : Node} {slot : Slot}, n.get? slot = some c -> n.set? slot c' = some n' ->
    c.staticType = c'.staticType -> (n.isBareCall = true -> c.varName? = c'.varName?) -> g n' = g n

theorem gather_children (g : Node -> List α) (n : Node) :
    gather g n = g n ++ n.children.flatMap (gather g) := by
  rw [gather_eq, children, List.flatMap_map]

theorem gather_ident (g : Node -> List α) (s : Span) (name type : String) :
    gather g (.expr (.ident s name type)) = g (.expr (.ident s name type)) := by
  rw [gather_eq]
  simp [slots, exprSlots]

namespace Local

variable {g : Node -> List α} (hg : Local g)

include hg

theorem explicit (s : Stmt) : gather g (.stmt s.explicit) = gather g (.stmt s) := by
  cases s with
  | yield s value implicit =>
      rw [gather_eq, gather_eq g (.stmt (.yield s value implicit)), hg.silent _ rfl,
        hg.silent (.stmt (.yield s value implicit)) rfl]
      rfl
  | _ => rfl

theorem missing : gather g (.expr .missing) = [] :=
  gather_missing (hg.silent _ rfl)

theorem ofExpr? (e : Expr) : (Node.ofExpr? e).elim [] (gather g) = gather g (.expr e) :=
  gather_ofExpr? (hg.silent _ rfl) e

theorem ofStmt? (s : Stmt) : (Node.ofStmt? s).elim [] (gather g) = gather g (.stmt s) :=
  gather_ofStmt? (hg.silent _ rfl) s

/-- A swap of nodes that look alike changes one stretch. -/
theorem swap {via : Node -> Prop} {old new n n' : Node} (h : Swap via old new n n')
    (halike : Alike old new) (hnew : new.isFilled = true) :
    ∃ l r, gather g n = l ++ gather g old ++ r ∧ gather g n' = l ++ gather g new ++ r :=
  gather_swap (R := Alike) h halike
    (fun _ hget hset hc => ⟨hg.set hget hset hc.1 fun _ => hc.2, alike_set hset⟩) hnew

/-! ## Statements and expressions -/

theorem gather_block (s : Span) (ss : List Stmt) :
    gather g (.stmt (.block (.mk s ss))) = ss.flatMap fun t => gather g (.stmt t) := by
  rw [gather_eq, hg.silent _ rfl]
  simp [slots, stmtSlots, Block.stmts, gather_listed, hg.ofStmt?]

theorem gather_var (s : Span) (name type : String) (e : Expr) :
    gather g (.stmt (.var s name type e)) = g (.stmt (.var s name type e)) ++ gather g (.expr e) := by
  rw [gather_eq]
  simp [slots, stmtSlots, gather_single, hg.ofExpr?]

theorem gather_exprStmt (s : Span) (e : Expr) :
    gather g (.stmt (.expr s e)) = gather g (.expr e) := by
  rw [gather_eq, hg.silent _ rfl]
  simp [slots, stmtSlots, gather_single, hg.ofExpr?]

theorem gather_exit (exit : Expansion.Exit) (e : Expr) :
    gather g (.stmt (exit.statement e)) = gather g (.expr e) := by
  cases exit
  all_goals
    rw [Expansion.Exit.statement, gather_eq, hg.silent _ rfl]
    simp [slots, stmtSlots, gather_single, hg.ofExpr?]

theorem gather_branch (s : Span) (test : Expr) (onTrue onFalse : Stmt) :
    gather g (.stmt (.branch s test onTrue onFalse)) =
      gather g (.expr test) ++ gather g (.stmt onTrue) ++ gather g (.stmt onFalse) := by
  rw [gather_eq, hg.silent _ rfl]
  simp [slots, stmtSlots, gather_single, hg.ofExpr?, hg.ofStmt?]

theorem gather_missingStmt : gather g (.stmt .missing) = [] := by
  rw [gather_eq, hg.silent _ rfl]
  rfl

theorem gather_call (s : Span) (receiver : Expr) (name : String) (args : List Expr)
    (type : String) : gather g (.expr (.call s receiver name args type)) =
      g (.expr (.call s receiver name args type)) ++ gather g (.expr receiver) ++
        args.flatMap fun a => gather g (.expr a) := by
  rw [gather_eq]
  simp [slots, exprSlots, gather_single, gather_listed, hg.ofExpr?]

theorem gather_assign (s : Span) (target : Expr) (op : Operator) (value : Expr) :
    gather g (.expr (.assign s target op value)) =
      gather g (.expr target) ++ gather g (.expr value) := by
  rw [gather_eq, hg.silent _ rfl]
  simp [slots, exprSlots, gather_single, hg.ofExpr?]

theorem gather_binary (s : Span) (left : Expr) (op : Operator) (right : Expr) :
    gather g (.expr (.binary s left op right)) =
      gather g (.expr left) ++ gather g (.expr right) := by
  rw [gather_eq, hg.silent _ rfl]
  simp [slots, exprSlots, gather_single, hg.ofExpr?]

theorem gather_index (s : Span) (array position : Expr) (type : String) :
    gather g (.expr (.index s array position type)) =
      gather g (.expr array) ++ gather g (.expr position) := by
  rw [gather_eq, hg.silent _ rfl]
  simp [slots, exprSlots, gather_single, hg.ofExpr?]

theorem gather_field (s : Span) (target : Expr) (name type : String) :
    gather g (.expr (.field s target name type)) = gather g (.expr target) := by
  rw [gather_eq, hg.silent _ rfl]
  simp [slots, exprSlots, gather_single, hg.ofExpr?]

theorem gather_conditional (c : Expansion.Conditional) :
    gather g (.expr c.expr) =
      gather g (.expr c.test) ++ gather g (.expr c.onTrue) ++ gather g (.expr c.onFalse) := by
  rw [gather_eq, hg.silent _ rfl]
  simp [Expansion.Conditional.expr, slots, exprSlots, gather_single, hg.ofExpr?]

theorem gather_wrapped (s : Span) (ps : List Param) (e : Expr) :
    gather g (.expr (.lambda s ps (.block (.mk e.span [.ret e.span e])))) =
      gather g (.expr (.lambda s ps (.value e))) := by
  have hret : gather g (ofBlock (.mk e.span [.ret e.span e])) = gather g (.expr e) := by
    rw [ofBlock, hg.gather_block]
    simpa [Expansion.Exit.statement] using hg.gather_exit .ret e
  rw [gather_eq, gather_eq g (.expr (.lambda s ps (.value e))), hg.silent _ rfl,
    hg.silent (.expr (.lambda s ps (.value e))) rfl]
  simp [slots, exprSlots, bodySlot, gather_single, hg.ofExpr?, hret]

end Local

end Node

namespace Expansion

open Node

variable {g : Node -> List α}

/-! ## Anchors -/

/-- What an anchor gives apart from its expression. -/
theorem gather_anchor (hg : Local g) {s : Stmt} {slot : Slot} (h : s.anchorSlot? = some slot) :
    ∃ rest, ∀ v, gather g (.stmt (s.withAnchorExpr v)) =
      g (.stmt s) ++ gather g (.expr v) ++ rest := by
  obtain ⟨others, _, hslots⟩ := slots_anchor h
  have hself (v : Expr) : g (.stmt (s.withAnchorExpr v)) = g (.stmt s) := by
    cases s with
    | var => exact hg.var ..
    | forEach => exact hg.forEach ..
    | _ =>
        simp only [Stmt.anchorSlot?, reduceCtorEq] at h
        try rw [hg.silent _ rfl, hg.silent _ rfl]
  refine ⟨others.flatMap fun x => gather g x.2, fun v => ?_⟩
  rw [gather_eq, hself, hslots]
  simp [gather_single, hg.ofExpr?]

/-- A statement that leaves gives what its value gives. -/
theorem gather_leaves (hg : Local g) {s : Stmt} (h : leaves s = true) (v : Expr) :
    gather g (.stmt (s.withAnchorExpr v)) = gather g (.expr v) := by
  rw [gather_eq]
  cases s <;> simp [leaves] at h
  all_goals
    rw [hg.silent _ rfl]
    simp [Stmt.withAnchorExpr, slots, stmtSlots, gather_single, hg.ofExpr?]

/-! ## Splicing -/

theorem Row.gather (hg : Local g) {new : List Stmt} {mid : List Node} (h : Row new mid) :
    mid.flatMap (Node.gather g) = new.flatMap fun t => Node.gather g (.stmt t) := by
  cases h with
  | listed => rw [List.flatMap_map]
  | explicit => rw [List.flatMap_map]; simp only [hg.explicit]
  | block span =>
      rw [List.flatMap_singleton, hg.gather_block, List.flatMap_map]
      simp only [hg.explicit]

/-- The children of a node that statements have been spliced into. -/
theorem spliceInto_children {parent changed : Node} {slot : Slot} {s : Stmt} {new : List Stmt}
    (hget : parent.get? slot = some (.stmt s)) (hnew : ∀ t ∈ new, t.isMissing = false)
    (h : spliceInto parent slot s new = .ok changed) :
    ∃ l mid r, parent.slots = l ++ (slot, .stmt s) :: r ∧
      changed.children = l.map (·.2) ++ mid ++ r.map (·.2) ∧ Row new mid := by
  obtain ⟨l, mid, r, hparent, houtline, hrow⟩ := spliceInto_outline hget hnew h
  refine ⟨l, mid, r, hparent, ?_, hrow⟩
  have hsnd := congrArg (List.map (·.2)) houtline
  simpa [outline, seen, children, Function.comp_def] using hsnd

/-- A node that statements have been spliced into gives itself what it gave before. -/
theorem spliceInto_local (hg : Local g) {parent changed : Node} {slot : Slot} {s : Stmt}
    {new : List Stmt} (hget : parent.get? slot = some (.stmt s))
    (h : spliceInto parent slot s new = .ok changed) : g changed = g parent := by
  unfold spliceInto at h
  split at h
  · cases h
    rw [hg.silent _ rfl, hg.silent _ rfl]
  · split at h
    · cases h
      rw [hg.silent _ rfl, hg.silent _ rfl]
    · cases h
  · cases h
    rw [hg.silent _ rfl, hg.silent _ rfl]
  · simp only [replaceChild, hget, isOperand, if_true] at h
    split at h
    next hset =>
      cases h
      exact hg.set hget hset rfl fun _ => rfl
    next => cases h

theorem spliceInto_gather (hg : Local g) {parent changed : Node} {slot : Slot} {s : Stmt}
    {new : List Stmt} (hget : parent.get? slot = some (.stmt s))
    (hnew : ∀ t ∈ new, t.isMissing = false) (h : spliceInto parent slot s new = .ok changed) :
    ∃ l r, gather g parent = l ++ gather g (.stmt s) ++ r ∧
      gather g changed = l ++ (new.flatMap fun t => gather g (.stmt t)) ++ r := by
  obtain ⟨l, mid, r, hparent, hchanged, hrow⟩ := spliceInto_children hget hnew h
  refine ⟨g parent ++ l.flatMap fun x => gather g x.2, r.flatMap fun x => gather g x.2, ?_, ?_⟩
  · rw [gather_eq, hparent]
    simp
  · rw [gather_children, hchanged, spliceInto_local hg hget h]
    simp [hrow.gather hg, List.flatMap_map]

/-- The node that a splice changes is a statement, an arm or another node that is no operand. -/
theorem spliceInto_alike {parent changed : Node} {slot : Slot} {s : Stmt} {new : List Stmt}
    (h : spliceInto parent slot s new = .ok changed) : Alike parent changed := by
  unfold spliceInto at h
  split at h
  · cases h
    exact ⟨rfl, rfl⟩
  · split at h <;> cases h
    exact ⟨rfl, rfl⟩
  · cases h
    exact ⟨rfl, rfl⟩
  · simp only [replaceChild] at h
    split at h
    next hput =>
      cases h
      split at hput
      next =>
        split at hput
        · exact alike_set hput
        · cases hput
      next => cases hput
    next => cases h

/-- Splicing changes what is collected where the statement stood. -/
theorem splice_gather (hg : Local g) {root root' : Node} {anchor : Path} {s : Stmt}
    {new : List Stmt} (hat : root.at? anchor = some (.stmt s))
    (hnew : ∀ t ∈ new, t.isMissing = false) (h : splice root anchor s new = .ok root') :
    ∃ l r, gather g root = l ++ gather g (.stmt s) ++ r ∧
      gather g root' = l ++ (new.flatMap fun t => gather g (.stmt t)) ++ r := by
  obtain ⟨p, slot, parent, changed, rfl, hp, hget, hinto, hput⟩ := splice_ok hat h
  obtain ⟨l, r, hl, hr⟩ := spliceInto_gather hg hget hnew hinto
  obtain ⟨l', r', hl', hr'⟩ := hg.swap (swap_of_put hp hput) (spliceInto_alike hinto)
    (spliceInto_face hinto).2
  refine ⟨l' ++ l, r ++ r', ?_, ?_⟩
  · simp [hl', hl]
  · simp [hr', hr]

/-! ## What holds everywhere -/

section Everywhere

variable {P : Node -> Prop}

theorem everywhere_explicit (hexplicit : ∀ s, P (.stmt s) -> P (.stmt s.explicit)) {s : Stmt}
    (h : Everywhere P (.stmt s)) : Everywhere P (.stmt s.explicit) := by
  obtain ⟨hself, hchildren⟩ := everywhere_children.1 h
  refine everywhere_children.2 ⟨hexplicit s hself, ?_⟩
  cases s <;> exact hchildren

/-- Of an anchor with another expression, the statement and the expression have to be looked at. -/
theorem everywhere_anchor {s : Stmt} {slot : Slot} (hslot : s.anchorSlot? = some slot) :
    ∃ Rest : Prop, ∀ v, Everywhere P (.stmt (s.withAnchorExpr v)) ↔
      P (.stmt (s.withAnchorExpr v)) ∧ InExpr P v ∧ Rest := by
  obtain ⟨others, _, hslots⟩ := slots_anchor hslot
  refine ⟨∀ x ∈ others, Everywhere P x.2, fun v => ?_⟩
  rw [everywhere_iff, hslots, List.forall_mem_append, forall_single]
  rfl

theorem everywhere_leaves {s : Stmt} (h : leaves s = true) {v : Expr} :
    Everywhere P (.stmt (s.withAnchorExpr v)) ↔
      P (.stmt (s.withAnchorExpr v)) ∧ InExpr P v := by
  rw [everywhere_iff]
  cases s <;> simp [leaves] at h
  all_goals
    simp only [Stmt.withAnchorExpr, slots, stmtSlots, forall_single]
    rfl

theorem everywhere_leavesExplicit {s : Stmt} (h : leaves s = true) {v : Expr} :
    Everywhere P (.stmt (s.withAnchorExpr v).explicit) ↔
      P (.stmt (s.withAnchorExpr v).explicit) ∧ InExpr P v := by
  have hexplicit : (s.withAnchorExpr v).explicit = s.explicit.withAnchorExpr v := by
    cases s <;> rfl
  have hleaves : leaves s.explicit = true := by
    cases s <;> first | rfl | cases h
  rw [hexplicit]
  exact everywhere_leaves hleaves

/-- The value of a lambda that has become a block. -/
theorem everywhere_wrapped {s : Span} {ps : List Param} {e : Expr}
    (h : Everywhere P (.expr (.lambda s ps (.value e))))
    (hlambda : P (.expr (.lambda s ps (.block (.mk e.span [.ret e.span e])))))
    (hblock : P (.stmt (.block (.mk e.span [.ret e.span e])))) (hret : P (.stmt (.ret e.span e))) :
    Everywhere P (.expr (.lambda s ps (.block (.mk e.span [.ret e.span e])))) := by
  obtain ⟨_, hchildren⟩ := everywhere_iff.1 h
  simp only [slots, exprSlots, bodySlot, List.forall_mem_append, forall_single] at hchildren
  have hvalue : Everywhere P (.stmt (.ret e.span e)) := by
    rw [everywhere_iff]
    simp only [slots, stmtSlots, forall_single]
    exact ⟨hret, hchildren.2⟩
  refine everywhere_iff.2 ⟨hlambda, ?_⟩
  simp only [slots, exprSlots, bodySlot, List.forall_mem_append, List.forall_mem_singleton]
  refine ⟨hchildren.1, everywhere_block.2 ⟨hblock, ?_⟩⟩
  rw [List.forall_mem_singleton]
  exact hvalue.inStmt

theorem get?_lambdaValue (s : Span) (ps : List Param) {e : Expr} (h : e.isMissing = false) :
    (Node.expr (.lambda s ps (.value e))).get? .body = some (.expr e) := by
  rw [get?_eq_some]
  simp [slots, exprSlots, bodySlot, single, ofExpr?_of_filled h]

structure Spliceable (P : Node -> Prop) : Prop where
  explicit : ∀ s, P (.stmt s) -> P (.stmt s.explicit)
  block : ∀ span ss, (∀ t ∈ ss, t.isMissing = false) -> P (.stmt (.block (.mk span ss)))

theorem Row.everywhere (hP : Spliceable P) {new : List Stmt} {mid : List Node} (h : Row new mid)
    (hfilled : ∀ t ∈ new, t.isMissing = false) (hnew : ∀ t ∈ new, Everywhere P (.stmt t)) :
    ∀ n ∈ mid, Everywhere P n := by
  cases h with
  | listed => simpa using hnew
  | explicit =>
      simp only [List.forall_mem_map]
      exact fun t ht => everywhere_explicit hP.explicit (hnew t ht)
  | block span =>
      intro n hn
      rw [List.mem_singleton.1 hn]
      refine everywhere_block.2 ⟨hP.block _ _ ?_, ?_⟩
      · simpa [isMissing_explicit] using hfilled
      · simp only [List.forall_mem_map]
        exact fun t ht => (everywhere_explicit hP.explicit (hnew t ht)).inStmt

theorem swap_live {o : Options} {root root' old new : Node} {p : Path}
    (hold : root.at? p = some old) (hput : root.put? new p = some root')
    (hlive : isLive o old = true) : Swap (fun n => isLive o n = true) old new root root' := by
  induction p generalizing root root' with
  | nil =>
      cases hold
      cases hput
      exact .here
  | cons slot rest ih =>
      have habove := isLive_of_at hold hlive
      obtain ⟨c, hc, hold⟩ := at?_cons_eq_some.1 hold
      obtain ⟨d, c', hd, hput, hset⟩ := put?_cons_eq_some.1 hput
      rw [hc] at hd
      cases hd
      exact .under habove hc hset (ih hold hput)

/-- Splicing keeps what holds everywhere, if the nodes above the statement keep it. -/
theorem splice_everywhere {o : Options} (hP : Spliceable P) {R : Node -> Node -> Prop}
    {root root' : Node} {anchor : Path} {s : Stmt} {new : List Stmt} (h : Everywhere P root)
    (hat : root.at? anchor = some (.stmt s)) (hlive : isLive o (.stmt s) = true)
    (hfilled : ∀ t ∈ new, t.isMissing = false) (hsplice : splice root anchor s new = .ok root')
    (hnew : ∀ t ∈ new, Everywhere P (.stmt t))
    (hparent : ∀ {p : Path} {slot : Slot} {parent changed : Node}, anchor = p ++ [slot] ->
      root.at? p = some parent -> parent.get? slot = some (.stmt s) ->
      spliceInto parent slot s new = .ok changed -> P parent -> P changed ∧ R parent changed)
    (hstep : ∀ {a a' c c' : Node} {slot : Slot}, isLive o a = true -> P a -> a.get? slot = some c ->
      a.set? slot c' = some a' -> c'.isFilled = true -> R c c' -> P a' ∧ R a a') :
    Everywhere P root' := by
  obtain ⟨p, slot, parent, changed, rfl, hp, hget, hinto, hput⟩ := splice_ok hat hsplice
  have hbefore := h.at? hp
  obtain ⟨hchanged, hrel⟩ := hparent rfl hp hget hinto hbefore.self
  obtain ⟨l, mid, r, hslots, hchildren, hrow⟩ := spliceInto_children hget hfilled hinto
  have hold := (everywhere_iff.1 hbefore).2
  rw [hslots] at hold
  have hafter : Everywhere P changed := by
    refine everywhere_children.2 ⟨hchanged, ?_⟩
    rw [hchildren]
    simp only [List.forall_mem_append, List.forall_mem_map]
    exact ⟨⟨fun x hx => hold x (by simp [hx]), hrow.everywhere hP hfilled hnew⟩,
      fun x hx => hold x (by simp [hx])⟩
  have habove : isLive o parent = true := isLive_of_at (p := [slot]) (by simp [at?, hget]) hlive
  exact (everywhere_swap h (swap_live hp hput habove) hafter (spliceInto_face hinto).2 hrel
    hstep).1

end Everywhere

end Expansion

end EarlyExit
