import EarlyExit.Proofs.Expansion.Splice

/-!
# Nodes with sites in them

A node is live if it is a site or has one below it.  This is decided child by child,
and a path of a live node can be followed down to a site.
-/

namespace EarlyExit.Expansion

/-- Whether a node is a site or has one below it. -/
def isLive (o : Options) (n : Node) : Bool :=
  !(sites o n).isEmpty

theorem isLive_eq (o : Options) (n : Node) :
    isLive o n = ((siteKind? o n).isSome || n.slots.any fun x => isLive o x.2) := by
  rw [Bool.eq_iff_iff]
  simp only [isLive, Bool.not_eq_true', List.isEmpty_eq_false_iff, Bool.or_eq_true,
    List.any_eq_true, sites_eq o n, ne_eq, List.append_eq_nil_iff, List.flatMap_eq_nil_iff,
    List.map_eq_nil_iff, not_and_or, not_forall, exists_prop]
  cases h : siteKind? o n <;> simp [siteAt?, h]

theorem isLive_outline (o : Options) (n : Node) :
    isLive o n = ((siteKind? o n).isSome || (outline n).any fun x => isLive o x.2) := by
  rw [isLive_eq, outline, List.any_map]
  rfl

theorem isLive_eq_false {o : Options} {n : Node} : isLive o n = false ↔ ways o n = [] := by
  simp [isLive, ways, located]

theorem isLive_of_at {o : Options} {n c : Node} {p : Path} (h : n.at? p = some c)
    (hc : isLive o c = true) : isLive o n = true := by
  induction p generalizing n with
  | nil =>
      cases h
      exact hc
  | cons slot rest ih =>
      obtain ⟨d, hd, hrest⟩ := Node.at?_cons_eq_some.1 h
      rw [isLive_eq, Bool.or_eq_true, List.any_eq_true]
      exact .inr ⟨(slot, d), Node.get?_eq_some.1 hd, ih hrest⟩

theorem isLive_of_site {o : Options} {n : Node} {k : Kind} (h : siteKind? o n = some k) :
    isLive o n = true := by
  rw [isLive_eq, h]
  rfl

theorem mem_sites {o : Options} {n : Node} {s : Site} :
    s ∈ sites o n ↔
      ∃ c, n.at? s.path = some c ∧ siteKind? o c = some s.kind ∧ s.span = c.span := by
  unfold sites
  rw [List.mem_filterMap]
  constructor
  · rintro ⟨⟨p, c⟩, hpc, hs⟩
    obtain ⟨kind, hkind, rfl⟩ := Option.map_eq_some_iff.1 hs
    exact ⟨c, Node.mem_walk.1 hpc, hkind, rfl⟩
  · rintro ⟨c, hc, hkind, hspan⟩
    refine ⟨(s.path, c), Node.mem_walk.2 hc, ?_⟩
    simp [siteAt?, hkind, ← hspan]

theorem isLive_iff {o : Options} {n : Node} :
    isLive o n = true ↔ ∃ p c k, n.at? p = some c ∧ siteKind? o c = some k := by
  constructor
  · intro h
    simp only [isLive, Bool.not_eq_true', List.isEmpty_eq_false_iff] at h
    obtain ⟨s, hs⟩ := List.exists_mem_of_ne_nil _ h
    obtain ⟨c, hc, hkind, _⟩ := mem_sites.1 hs
    exact ⟨s.path, c, s.kind, hc, hkind⟩
  · rintro ⟨p, c, k, hc, hkind⟩
    exact isLive_of_at hc (isLive_of_site hkind)

/-! ## Children of each kind -/

theorem any_single (o : Options) (slot : Slot) (child : Option Node) :
    (Node.single slot child).any (fun x => isLive o x.2) = child.any (isLive o) := by
  cases child <;> simp [Node.single]

theorem any_listed (o : Options) (slot : Nat -> Slot) (view : α -> Option Node) (k : Nat)
    (l : List α) : (Node.listed slot view k l).any (fun x => isLive o x.2) =
      l.any fun a => (view a).any (isLive o) := by
  induction l generalizing k with
  | nil => rfl
  | cons a rest ih =>
      simp only [Node.listed, List.any_cons]
      cases view a <;> simp [ih]

@[simp] theorem isLive_missing (o : Options) : isLive o (.expr .missing) = false := by
  rw [isLive_eq]
  rfl

@[simp] theorem isLive_missingStmt (o : Options) : isLive o (.stmt .missing) = false := by
  rw [isLive_eq]
  rfl

@[simp] theorem any_ofExpr? (o : Options) (e : Expr) :
    (Node.ofExpr? e).any (isLive o) = isLive o (.expr e) := by
  cases e <;> simp [Node.ofExpr?]

@[simp] theorem any_ofStmt? (o : Options) (s : Stmt) :
    (Node.ofStmt? s).any (isLive o) = isLive o (.stmt s) := by
  cases s <;> simp [Node.ofStmt?]

def anyLive (o : Options) (es : List Expr) : Bool :=
  es.any fun e => isLive o (.expr e)

@[simp] theorem anyLive_nil (o : Options) : anyLive o [] = false := rfl

@[simp] theorem anyLive_cons (o : Options) (e : Expr) (es : List Expr) :
    anyLive o (e :: es) = (isLive o (.expr e) || anyLive o es) := rfl

def anyLiveStmt (o : Options) (ss : List Stmt) : Bool :=
  ss.any fun s => isLive o (.stmt s)

@[simp] theorem anyLiveStmt_nil (o : Options) : anyLiveStmt o [] = false := rfl

@[simp] theorem anyLiveStmt_cons (o : Options) (s : Stmt) (ss : List Stmt) :
    anyLiveStmt o (s :: ss) = (isLive o (.stmt s) || anyLiveStmt o ss) := rfl

@[simp] theorem anyLiveStmt_append (o : Options) (ss ts : List Stmt) :
    anyLiveStmt o (ss ++ ts) = (anyLiveStmt o ss || anyLiveStmt o ts) := by
  simp [anyLiveStmt]

/-! ## Expressions -/

section Expressions

variable (o : Options) (s : Span)

@[simp] theorem isLive_ident (name type : String) :
    isLive o (.expr (.ident s name type)) = false := by
  rw [isLive_eq]
  rfl

theorem isLive_call (receiver : Expr) (name : String) (args : List Expr) (type : String) :
    isLive o (.expr (.call s receiver name args type)) =
      ((siteKind? o (.expr (.call s receiver name args type))).isSome ||
        (isLive o (.expr receiver) || anyLive o args)) := by
  rw [isLive_eq]
  simp [Node.slots, Node.exprSlots, any_single, any_listed, anyLive]

@[simp] theorem isLive_field (target : Expr) (name type : String) :
    isLive o (.expr (.field s target name type)) = isLive o (.expr target) := by
  rw [isLive_eq]
  simp [siteKind?, Node.slots, Node.exprSlots, any_single]

@[simp] theorem isLive_assign (target : Expr) (op : Operator) (value : Expr) :
    isLive o (.expr (.assign s target op value)) =
      (isLive o (.expr target) || isLive o (.expr value)) := by
  rw [isLive_eq]
  simp [siteKind?, Node.slots, Node.exprSlots, any_single]

@[simp] theorem isLive_binary (left : Expr) (op : Operator) (right : Expr) :
    isLive o (.expr (.binary s left op right)) =
      (isLive o (.expr left) || isLive o (.expr right)) := by
  rw [isLive_eq]
  simp [siteKind?, Node.slots, Node.exprSlots, any_single]

@[simp] theorem isLive_unary (op : Operator) (operand : Expr) (trailing : Bool) :
    isLive o (.expr (.unary s op operand trailing)) = isLive o (.expr operand) := by
  rw [isLive_eq]
  simp [siteKind?, Node.slots, Node.exprSlots, any_single]

@[simp] theorem isLive_conditional (test onTrue onFalse : Expr) (type : String) :
    isLive o (.expr (.conditional s test onTrue onFalse type)) =
      (isLive o (.expr test) || (isLive o (.expr onTrue) || isLive o (.expr onFalse))) := by
  rw [isLive_eq]
  simp [siteKind?, Node.slots, Node.exprSlots, any_single]

@[simp] theorem isLive_index (array position : Expr) (type : String) :
    isLive o (.expr (.index s array position type)) =
      (isLive o (.expr array) || isLive o (.expr position)) := by
  rw [isLive_eq]
  simp [siteKind?, Node.slots, Node.exprSlots, any_single]

@[simp] theorem isLive_newArray (elemType : String) (dims elements : List Expr) (listed : Bool) :
    isLive o (.expr (.newArray s elemType dims elements listed)) =
      (anyLive o dims || anyLive o elements) := by
  rw [isLive_eq]
  simp [siteKind?, Node.slots, Node.exprSlots, any_listed, anyLive]

@[simp] theorem isLive_newObject (className : String) (args : List Expr) :
    isLive o (.expr (.newObject s className args)) = anyLive o args := by
  rw [isLive_eq]
  simp [siteKind?, Node.slots, Node.exprSlots, any_listed, anyLive]

@[simp] theorem isLive_switch (selector : Expr) (cases : List Case) (type : String) :
    isLive o (.expr (.switch s selector cases type)) =
      (isLive o (.expr selector) || cases.any fun c => isLive o (.arm c)) := by
  rw [isLive_eq]
  simp [siteKind?, Node.slots, Node.exprSlots, any_single, any_listed]

end Expressions

/-! ## Statements -/

section Statements

variable (o : Options) (s : Span)

@[simp] theorem isLive_block (ss : List Stmt) :
    isLive o (.stmt (.block (.mk s ss))) = anyLiveStmt o ss := by
  rw [isLive_eq]
  simp [siteKind?, Node.slots, Node.stmtSlots, Block.stmts, any_listed, anyLiveStmt]

@[simp] theorem isLive_var (name type : String) (value : Expr) :
    isLive o (.stmt (.var s name type value)) = isLive o (.expr value) := by
  rw [isLive_eq]
  simp [siteKind?, Node.slots, Node.stmtSlots, any_single]

@[simp] theorem isLive_exprStmt (e : Expr) :
    isLive o (.stmt (.expr s e)) = isLive o (.expr e) := by
  rw [isLive_eq]
  simp [siteKind?, Node.slots, Node.stmtSlots, any_single]

@[simp] theorem isLive_branch (test : Expr) (onTrue onFalse : Stmt) :
    isLive o (.stmt (.branch s test onTrue onFalse)) =
      (isLive o (.expr test) || (isLive o (.stmt onTrue) || isLive o (.stmt onFalse))) := by
  rw [isLive_eq]
  simp [siteKind?, Node.slots, Node.stmtSlots, any_single]

theorem isLive_exitStatement (exit : Exit) (value : Expr) :
    isLive o (.stmt (exit.statement value)) = isLive o (.expr value) := by
  cases exit
  all_goals
    rw [isLive_eq]
    simp [Exit.statement, siteKind?, Node.slots, Node.stmtSlots, any_single]

end Statements

end EarlyExit.Expansion
