import EarlyExit.Proofs.Expansion.Move

/-!
# Expansion ends

What is left to do in a tree is counted by its sites, the conditionals with a site in
them and the lambdas that have one in their value.  Every step lowers this number: a
lift takes a conditional away, a wrap the value of a lambda, and a hoist at least one
site, and nothing that is put in counts.
-/

namespace EarlyExit.Expansion

/-! ## What is left to do -/

def isChoice : Node -> Bool
  | .expr (.conditional ..) => true
  | _ => false

def isValueLambda : Node -> Bool
  | .expr (.lambda _ _ (.value _)) => true
  | _ => false

def isOpenConditional (o : Options) (n : Node) : Bool :=
  isChoice n && isLive o n

def isOpenLambda (o : Options) (n : Node) : Bool :=
  isValueLambda n && isLive o n

/-- The sites, the open conditionals and the open lambdas of a tree. -/
def workload (o : Options) (n : Node) : Nat :=
  (sites o n).length + n.nodes.countP (isOpenConditional o) + n.nodes.countP (isOpenLambda o)

def ownLoad (o : Options) (n : Node) : Nat :=
  (if (siteKind? o n).isSome then 1 else 0) + (if isOpenConditional o n then 1 else 0) +
    (if isOpenLambda o n then 1 else 0)

theorem workload_eq (o : Options) (n : Node) :
    workload o n = ownLoad o n + (n.slots.map fun x => workload o x.2).sum := by
  have hcount (p : Node -> Bool) : n.nodes.countP p =
      (if p n then 1 else 0) + (n.slots.map fun x => x.2.nodes.countP p).sum := by
    rw [Node.nodes_eq, List.countP_cons, List.countP_flatMap, Nat.add_comm]
    rfl
  have hsites := siteCount_eq o n
  unfold siteCount at hsites
  unfold workload ownLoad
  rw [hsites, hcount, hcount, List.sum_map_add, List.sum_map_add]
  omega

theorem workload_outline (o : Options) (n : Node) :
    workload o n = ownLoad o n + ((outline n).map fun x => workload o x.2).sum := by
  rw [workload_eq, outline, List.map_map]
  rfl

theorem workload_dead {o : Options} {n : Node} (h : isLive o n = false) : workload o n = 0 := by
  induction n using Node.childInduction with
  | step n ih =>
      have hsplit := h
      rw [isLive_eq, Bool.or_eq_false_iff, List.any_eq_false] at hsplit
      have hown : ownLoad o n = 0 := by
        simp [ownLoad, isOpenConditional, isOpenLambda, h, hsplit.1]
      have hchildren : ∀ k ∈ n.slots.map fun x => workload o x.2, k = 0 := by
        intro k hk
        obtain ⟨x, hx, rfl⟩ := List.mem_map.1 hk
        exact ih x hx (by simpa using hsplit.2 x hx)
      rw [workload_eq, hown, List.sum_eq_zero hchildren, Nat.zero_add]

theorem workload_pos {o : Options} {n : Node} (h : isLive o n = true) : 0 < workload o n := by
  have : 0 < (sites o n).length := by
    rw [List.length_pos_iff]
    simpa [isLive] using h
  unfold workload
  omega

/-! ## Changing a tree below -/

/-- A changed part that has less to do and is live only if the part was before. -/
structure Eases (o : Options) (old new : Node) : Prop where
  load : workload o new < workload o old
  live : isLive o new = true -> isLive o old = true

theorem isChoice_set {n n' new : Node} {slot : Slot} (h : n.set? slot new = some n') :
    isChoice n' = isChoice n := by
  cases n with
  | expr e =>
      obtain ⟨e', hs, rfl⟩ := Option.map_eq_some_iff.1 h
      unfold Node.setExprSlot at hs
      split at hs
      all_goals simp only [Option.map_eq_some_iff, Option.some.injEq, reduceCtorEq] at hs
      all_goals first
        | subst hs; rfl
        | obtain ⟨_, _, rfl⟩ := hs; rfl
  | _ =>
      unfold Node.set? at h
      split at h
      all_goals simp_all [Option.map_eq_some_iff]
      all_goals first
        | subst h; rfl
        | obtain ⟨_, _, rfl⟩ := h; rfl

theorem isValueLambda_set {n n' old new : Node} {slot : Slot} (hold : n.get? slot = some old)
    (h : n.set? slot new = some n') (hface : old.face? = new.face?) :
    isValueLambda n' = isValueLambda n := by
  cases n with
  | expr e =>
      obtain ⟨e', hs, rfl⟩ := Option.map_eq_some_iff.1 h
      unfold Node.setExprSlot at hs
      split at hs
      all_goals simp only [Option.map_eq_some_iff, Option.some.injEq, reduceCtorEq] at hs
      all_goals first
        | subst hs; rfl
        | obtain ⟨_, _, rfl⟩ := hs; rfl
        | obtain ⟨_, _, rfl⟩ := hs
          cases ‹Body› <;> rfl
        | -- a value stands for a value and a block for a block
          subst hs
          rw [Node.get?_eq_some] at hold
          simp only [Node.slots, Node.exprSlots, Node.bodySlot_eq, List.mem_append, Node.mem_listed,
            Node.mem_single] at hold
          cases ‹Body› <;> simp_all [Node.ofBody?, Node.ofBlock, Node.ofExpr?_eq_some, Node.face?,
            isValueLambda]
          all_goals
            subst hold
            simp at hface
  | _ =>
      unfold Node.set? at h
      split at h
      all_goals simp_all [Option.map_eq_some_iff]
      all_goals first
        | subst h; rfl
        | obtain ⟨_, _, rfl⟩ := h; rfl

theorem ownLoad_set {o : Options} {n n' old new : Node} {slot : Slot}
    (hold : n.get? slot = some old) (h : n.set? slot new = some n')
    (hface : old.face? = new.face?) (hlive : isLive o n' = true -> isLive o n = true) :
    ownLoad o n' ≤ ownLoad o n := by
  unfold ownLoad isOpenConditional isOpenLambda
  rw [siteKind?_set hold h (Node.staticType_of_face hface), isChoice_set h,
    isValueLambda_set hold h hface]
  cases hn' : isLive o n' with
  | false =>
      simp only [Bool.and_false, Bool.false_eq_true, if_false]
      omega
  | true => simp only [hlive hn', Nat.le_refl]

theorem eases_set {o : Options} {n n' old new : Node} {slot : Slot}
    (hold : n.get? slot = some old) (hnew : new.isFilled = true)
    (h : n.set? slot new = some n') (hface : old.face? = new.face?) (hease : Eases o old new) :
    Eases o n n' := by
  obtain ⟨l, r, hl, hr, _⟩ := Node.slots_set_split hold hnew h
  have hlive : isLive o n' = true -> isLive o n = true := by
    rw [isLive_eq o n', isLive_eq o n, siteKind?_set hold h (Node.staticType_of_face hface), hl, hr]
    simp only [List.any_append, List.any_cons, Bool.or_eq_true]
    have := hease.live
    tauto
  refine ⟨?_, hlive⟩
  have hown := ownLoad_set hold h hface hlive
  have hless := hease.load
  rw [workload_eq o n', workload_eq o n, hl, hr]
  simp only [List.map_append, List.map_cons, List.sum_append, List.sum_cons]
  omega

theorem eases_put {o : Options} {root root' old new : Node} {p : Path}
    (hold : root.at? p = some old) (hput : root.put? new p = some root')
    (hnew : new.isFilled = true) (hface : old.face? = new.face?) (hease : Eases o old new) :
    Eases o root root' := by
  induction p generalizing root root' with
  | nil =>
      cases hold
      cases hput
      exact hease
  | cons slot rest ih =>
      obtain ⟨c, hc, hold⟩ := Node.at?_cons_eq_some.1 hold
      obtain ⟨d, c', hd, hput, hset⟩ := Node.put?_cons_eq_some.1 hput
      rw [hc] at hd
      cases hd
      exact eases_set hc (Node.isFilled_put hnew hput) hset (face?_put hold hput hface)
        (ih hold hput)

/-! ## Splicing -/

theorem ownLoad_of_face {o : Options} {n : Node} (h : n.face? = none) : ownLoad o n = 0 := by
  cases n <;> simp_all [Node.face?, ownLoad, siteKind?, isOpenConditional, isOpenLambda, isChoice,
    isValueLambda]

def totalLoad (o : Options) (ss : List Stmt) : Nat :=
  (ss.map fun s => workload o (.stmt s)).sum

@[simp] theorem totalLoad_nil (o : Options) : totalLoad o [] = 0 := rfl

@[simp] theorem totalLoad_cons (o : Options) (s : Stmt) (ss : List Stmt) :
    totalLoad o (s :: ss) = workload o (.stmt s) + totalLoad o ss := rfl

@[simp] theorem totalLoad_append (o : Options) (ss ts : List Stmt) :
    totalLoad o (ss ++ ts) = totalLoad o ss + totalLoad o ts := by
  simp [totalLoad]

theorem totalLoad_dead {o : Options} {ss : List Stmt} (h : anyLiveStmt o ss = false) :
    totalLoad o ss = 0 := by
  induction ss with
  | nil => rfl
  | cons s ss ih =>
      simp only [anyLiveStmt_cons, Bool.or_eq_false_iff] at h
      rw [totalLoad_cons, workload_dead h.1, ih h.2]

theorem workload_explicit (o : Options) (s : Stmt) :
    workload o (.stmt s.explicit) = workload o (.stmt s) := by
  rw [workload_outline, workload_outline, outline_explicit, ownLoad_of_face rfl,
    ownLoad_of_face rfl]

theorem isLive_explicit (o : Options) (s : Stmt) :
    isLive o (.stmt s.explicit) = isLive o (.stmt s) := by
  rw [isLive_outline, isLive_outline, outline_explicit]
  rfl

theorem Row.load {new : List Stmt} {mid : List Node} (hrow : Row new mid)
    (hnew : ∀ t ∈ new, t.isMissing = false) (o : Options) :
    (mid.map (workload o)).sum = totalLoad o new := by
  cases hrow with
  | listed => simp [totalLoad, Function.comp_def]
  | explicit => simp [totalLoad, Function.comp_def, workload_explicit]
  | block span =>
      rw [List.map_singleton, List.sum_singleton, workload_outline, outline_block,
        filterMap_explicit hnew, ownLoad_of_face rfl]
      simp [totalLoad, Function.comp_def, workload_explicit]

theorem Row.live {new : List Stmt} {mid : List Node} (hrow : Row new mid) (o : Options) :
    mid.any (isLive o) = anyLiveStmt o new := by
  cases hrow with
  | listed => simp [anyLiveStmt, Function.comp_def]
  | explicit => simp [anyLiveStmt, Function.comp_def, isLive_explicit]
  | block span => simp [anyLiveStmt, Function.comp_def, isLive_explicit]

theorem eases_splice {o : Options} {root root' : Node} {anchor : Path} {s : Stmt}
    {new : List Stmt} {h : Shape} {up : List Shape} (hat : root.at? anchor = some (.stmt s))
    (hup : shapes (root.spine anchor) = h :: up) (hholds : h.holds = true)
    (hnew : ∀ t ∈ new, t.isMissing = false) (hsplice : splice root anchor s new = .ok root')
    (hload : totalLoad o new < workload o (.stmt s))
    (hlive : anyLiveStmt o new = true -> isLive o (.stmt s) = true) : Eases o root root' := by
  obtain ⟨p, slot, parent, changed, rfl, hp, hslot, hinto, hput⟩ := splice_ok hat hsplice
  rw [Node.spine_concat hp hslot, shapes_cons, List.cons.injEq] at hup
  obtain ⟨rfl, rfl⟩ := hup
  obtain ⟨hface, hfilled⟩ := spliceInto_face hinto
  obtain ⟨before, mid, after, hparent, hchanged, hrow⟩ := spliceInto_outline hslot hnew hinto
  have hnone := face?_of_holds hholds
  refine eases_put hp hput hfilled hface ⟨?_, ?_⟩
  · have hmid : (mid.map fun n => workload o n).sum = totalLoad o new := hrow.load hnew o
    rw [workload_outline o changed, workload_eq o parent, hparent, hchanged,
      ownLoad_of_face hnone, ownLoad_of_face (hface ▸ hnone)]
    simp only [List.map_append, List.map_cons, List.map_map, List.sum_append, List.sum_cons,
      Function.comp_def, seen]
    omega
  · have hmid := hrow.live o
    rw [isLive_outline o changed, isLive_eq o parent, hparent, hchanged,
      siteKind?_of_face hnone, siteKind?_of_face (hface ▸ hnone)]
    simp only [List.any_append, List.any_cons, List.any_map, Function.comp_def, seen, hmid,
      Bool.or_eq_true]
    tauto

/-! ## Statements -/

section Statements

variable (o : Options)

theorem load_single (slot : Slot) (e : Expr) :
    ((Node.single slot (Node.ofExpr? e)).map fun x => workload o x.2).sum = workload o (.expr e) := by
  cases hmissing : e.isMissing with
  | false => simp [Node.ofExpr?_of_filled hmissing, Node.single]
  | true =>
      obtain rfl := Expr.eq_missing hmissing
      simp [Node.ofExpr?, Node.single, workload_dead]

theorem load_singleStmt (slot : Slot) (s : Stmt) :
    ((Node.single slot (Node.ofStmt? s)).map fun x => workload o x.2).sum = workload o (.stmt s) := by
  cases hmissing : s.isMissing with
  | false => simp [Node.ofStmt?_of_filled hmissing, Node.single]
  | true =>
      obtain rfl := Stmt.eq_missing hmissing
      simp [Node.ofStmt?, Node.single, workload_dead]

/-- The expression in the anchor slot, and all the rest of the statement. -/
theorem workload_anchor {s : Stmt} (h : s.anchorSlot?.isSome = true) (v : Expr) :
    workload o (.stmt (s.withAnchorExpr v)) =
      workload o (.expr v) + workload o (.stmt (s.withAnchorExpr .missing)) := by
  cases s <;> simp [Stmt.anchorSlot?] at h
  all_goals
    rw [workload_eq, workload_eq o (.stmt (Stmt.withAnchorExpr .missing _)), ownLoad_of_face rfl,
      ownLoad_of_face rfl]
    simp [Stmt.withAnchorExpr, Node.slots, Node.stmtSlots, load_single, workload_dead]

theorem isLive_anchor {s : Stmt} (h : s.anchorSlot?.isSome = true) (v : Expr) :
    isLive o (.stmt (s.withAnchorExpr v)) =
      (isLive o (.expr v) || isLive o (.stmt (s.withAnchorExpr .missing))) := by
  cases s <;> simp [Stmt.anchorSlot?] at h
  all_goals
    rw [isLive_eq, isLive_eq o (.stmt (Stmt.withAnchorExpr .missing _))]
    simp [Stmt.withAnchorExpr, siteKind?, Node.slots, Node.stmtSlots, any_single, any_listed]

theorem workload_branch (s : Span) (test : Expr) (onTrue onFalse : Stmt) :
    workload o (.stmt (.branch s test onTrue onFalse)) =
      workload o (.expr test) + workload o (.stmt onTrue) + workload o (.stmt onFalse) := by
  rw [workload_eq, ownLoad_of_face rfl]
  simp [Node.slots, Node.stmtSlots, load_single, load_singleStmt, Nat.add_assoc]

theorem workload_exprStmt (s : Span) (e : Expr) :
    workload o (.stmt (.expr s e)) = workload o (.expr e) := by
  rw [workload_eq, ownLoad_of_face rfl]
  simp [Node.slots, Node.stmtSlots, load_single]

theorem workload_declaration (s : Span) (name type : String) :
    workload o (.stmt (.var s name type .missing)) = 0 :=
  workload_dead (by simp)

theorem workload_assignVariable (s s' : Span) (x type : String) (op : Operator) (v : Expr) :
    workload o (.expr (.assign s (.ident s' x type) op v)) = workload o (.expr v) := by
  rw [workload_eq]
  simp [Node.slots, Node.exprSlots, load_single, ownLoad, siteKind?, isOpenConditional,
    isOpenLambda, isChoice, isValueLambda, workload_dead]

theorem workload_conditional (c : Conditional)
    (h : isLive o (.expr c.expr) = true) :
    workload o (.expr c.expr) =
      1 + (workload o (.expr c.test) + workload o (.expr c.onTrue) + workload o (.expr c.onFalse)) := by
  have hown : ownLoad o (.expr c.expr) = 1 := by
    unfold ownLoad isOpenConditional isOpenLambda
    rw [h]
    rfl
  rw [workload_eq, hown]
  simp [Conditional.expr, Node.slots, Node.exprSlots, load_single, Nat.add_assoc]

theorem workload_assigning (c : Conditional) (s : Span) (x type : String) (op : Operator) :
    workload o (.stmt (c.assigning (.ident s x type) op)) =
      workload o (.expr c.test) + workload o (.expr c.onTrue) + workload o (.expr c.onFalse) := by
  simp [Conditional.assigning, Conditional.branches, workload_branch, workload_exprStmt,
    workload_assignVariable]

end Statements

/-! ## Every step lowers the workload -/

/-- A statement that leaves has nothing in it but the value. -/
theorem workload_leaves (o : Options) {s : Stmt} (h : leaves s = true) (v : Expr) :
    workload o (.stmt (s.withAnchorExpr v).explicit) = workload o (.expr v) := by
  have hrest : workload o (.stmt (s.withAnchorExpr .missing)) = 0 := by
    refine workload_dead ?_
    rw [isLive_eq]
    cases s <;> simp [leaves] at h <;> rfl
  rw [workload_explicit, workload_anchor o (anchorSlot?_of_leaves h), hrest]
  rfl

theorem Lifted.load {o : Options} {c : Conditional} {ns ns' : Names} {s : Stmt}
    {new : List Stmt} (h : Lifted c ns s new ns') (hlive : isLive o (.expr s.anchorExpr) = true) :
    totalLoad o new < workload o (.stmt s) := by
  cases h with
  | exit hleaves hexpr =>
      have hslot := anchorSlot?_of_leaves hleaves
      rw [hexpr] at hlive
      have hs : workload o (.stmt s) = workload o (.expr c.expr) := by
        have := workload_leaves o hleaves s.anchorExpr
        rwa [workload_explicit, withAnchorExpr_self hslot, hexpr] at this
      rw [hs, workload_conditional o c hlive]
      simp only [totalLoad_cons, totalLoad_nil, Conditional.branches, workload_branch,
        workload_leaves o hleaves]
      omega
  | declared s name type type' =>
      have hs := workload_anchor o (s := .var s name type c.expr) rfl c.expr
      simp only [Stmt.withAnchorExpr, workload_declaration] at hs
      rw [hs, workload_conditional o c hlive]
      simp only [totalLoad_cons, totalLoad_nil, workload_declaration, workload_assigning]
      omega
  | assigned s s' s'' x t op =>
      have hcond : isLive o (.expr c.expr) = true := by simpa [Stmt.anchorExpr] using hlive
      rw [workload_exprStmt, workload_assignVariable, workload_conditional o c hcond]
      simp only [totalLoad_cons, totalLoad_nil, workload_assigning]
      omega
  | evaluated s =>
      rw [workload_exprStmt, workload_conditional o c hlive]
      simp only [totalLoad_cons, totalLoad_nil, Conditional.branches, workload_branch,
        workload_exprStmt]
      omega
  | stored hheaded hexpr =>
      have hslot := anchorSlot?_of_isHeaded hheaded
      rw [hexpr] at hlive
      have hs := workload_anchor o hslot s.anchorExpr
      rw [withAnchorExpr_self hslot, hexpr, workload_conditional o c hlive] at hs
      have htemp := workload_anchor o hslot (.ident c.span ns.fresh.1 c.valueType)
      rw [workload_dead (isLive_ident ..)] at htemp
      simp only [totalLoad_cons, totalLoad_nil, workload_declaration, workload_assigning]
      omega

theorem isLive_of_anchorExpr {o : Options} {s : Stmt} (h : s.anchorSlot?.isSome = true)
    (hlive : isLive o (.expr s.anchorExpr) = true) : isLive o (.stmt s) = true := by
  rw [← withAnchorExpr_self h, isLive_anchor o h, hlive]
  rfl

theorem eases_wrap {o : Options} {s : Span} {ps : List Param} {e : Expr}
    (hlive : isLive o (.expr e) = true) :
    Eases o (.expr (.lambda s ps (.value e)))
      (.expr (.lambda s ps (.block (.mk e.span [.ret e.span e])))) := by
  have hret : workload o (.stmt (.ret e.span e)) = workload o (.expr e) :=
    workload_leaves o (s := .ret e.span .missing) rfl e
  have hblock : workload o (.stmt (.block (.mk e.span [.ret e.span e]))) =
      workload o (.expr e) := by
    rw [workload_outline, outline_block, ownLoad_of_face rfl]
    simp [Node.ofStmt?, hret]
  have hlambda : isLive o (.expr (.lambda s ps (.value e))) = true := by
    rw [isLive_eq]
    simp [Node.slots, Node.exprSlots, Node.bodySlot_eq, Node.ofBody?, any_single, hlive]
  have hown : ownLoad o (.expr (.lambda s ps (.value e))) = 1 := by
    unfold ownLoad isOpenConditional isOpenLambda
    rw [hlambda]
    rfl
  refine ⟨?_, fun _ => hlambda⟩
  rw [workload_eq, workload_eq o (.expr (.lambda s ps (.value e))), hown]
  simp only [Node.slots, Node.exprSlots, Node.bodySlot_eq, Node.ofBody?, List.map_append,
    List.sum_append, load_single]
  simp [ownLoad, siteKind?, isOpenConditional, isOpenLambda, isChoice, isValueLambda,
    Node.single, Node.ofBlock, hblock]

/-- A step lowers the workload. -/
theorem Stepped.eases {o : Options} (ho : o.Apart) {w w' : Work} {settled : List Bool × List Exit}
    (h : Stepped o w settled w') : Eases o w.root w'.root := by
  cases h with
  | wrapped hat hfilled hlive hput =>
      refine eases_put hat hput rfl ?_ (eases_wrap hlive)
      rfl
  | lifted hat hup hholds hlive hlifted hsplice =>
      exact eases_splice hat hup hholds hlifted.filled hsplice (hlifted.load hlive)
        fun _ => isLive_of_anchorExpr hlifted.anchored hlive
  | @hoisted anchor s slot exit above up v new names root' hat hup hholds hslot hexit hdirect
      hlive hhoist hsplice =>
      have hanchor : s.anchorSlot?.isSome = true := by simp [hslot]
      have hstmt := isLive_of_anchorExpr hanchor hlive
      obtain ⟨hclear, htidy⟩ := hoistAll_run ho hdirect hhoist
      have hfilled := htidy.filled_anchor hslot v
      refine eases_splice hat hup hholds hfilled hsplice ?_ fun _ => hstmt
      have hnew := totalLoad_dead htidy.dead
      have hbefore := workload_anchor o hanchor s.anchorExpr
      rw [withAnchorExpr_self hanchor] at hbefore
      have hafter := workload_anchor o hanchor v
      rw [workload_dead hclear.dead] at hafter
      have hpos := workload_pos hlive
      rw [totalLoad_append, hnew, totalLoad_cons, totalLoad_nil]
      omega

end EarlyExit.Expansion
