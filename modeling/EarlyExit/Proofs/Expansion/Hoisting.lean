import EarlyExit.Proofs.Expansion.Live

/-!
# Hoisting by structure

Hoisting is told by marks which expressions hold a site.  If the marks are those of
all sites of the expression, they say no more than the expression itself, and hoisting
is a recursion on the expression alone.
-/

namespace EarlyExit.Expansion

/-! ## Hoisting without marks -/

/-- Settle an operand that is followed by a live one; `e` is the operand before hoisting. -/
def Setting.settled (c : Setting) (o : Options) (e : Expr) (later : Bool) (v : Expr) :
    Hoisting Expr :=
  if later && (siteKind? o (.expr e)).isNone then settle c.written v else return v

mutual

/-- Move all sites of an expression into the prologue. -/
def hoistAll (o : Options) (c : Setting) (e : Expr) : Hoisting Expr :=
  if !isLive o (.expr e) then return e else
  match e with
  | .call s receiver name args type => do
      let r ← hoistAll o c receiver
      match siteKind? o (.expr (.call s receiver name args type)) with
      | some kind => hoistSite c.exit kind s receiver.staticType type r
      | none =>
          let r ← c.settled o receiver (anyLive o args) r
          return .call s r name (← hoistAllList o c false args) type
  | .field s target name type => do
      return .field s (← hoistAll o c target) name type
  | .index s array position type => do
      let a ← hoistAll o c array
      let a ← c.settled o array (isLive o (.expr position)) a
      return .index s a (← hoistAll o c position) type
  | .newArray s elemType dims elements isListed => do
      let ds ← hoistAllList o c (anyLive o elements) dims
      return .newArray s elemType ds (← hoistAllList o c false elements) isListed
  | .newObject s className args => do
      return .newObject s className (← hoistAllList o c false args)
  | .unary s op operand trailing => do
      return .unary s op (← hoistAll o c operand) trailing
  | .binary s left op right => do
      let l ← hoistAll o c left
      if op.isShortCircuit then return .binary s l op right
      let l ← c.settled o left (isLive o (.expr right)) l
      return .binary s l op (← hoistAll o c right)
  | .assign s target op value => do
      let t ← c.target target
      match op.applied?, isLive o (.expr value) && targetMoves c.written t value with
      | some applied, true =>
          let old ← spill t
          return .assign s t .assign (.binary s old applied (← hoistAll o c value))
      | _, _ => return .assign s t op (← hoistAll o c value)
  | .switch s selector cases type => do
      return .switch s (← hoistAll o c selector) cases type
  | e => throw (.unsupportedNode e.span (Node.expr e).qualifiedTypeName)

/-- Hoist operands from left to right; `after` tells whether a live one follows the list. -/
def hoistAllList (o : Options) (c : Setting) (after : Bool) : List Expr -> Hoisting (List Expr)
  | [] => return []
  | e :: rest => do
      let v ← hoistAll o c e
      let v ← c.settled o e (anyLive o rest || after) v
      let vs ← hoistAllList o c after rest
      return v :: vs

end

/-! ## The operands of an expression by slot -/

/-- The expressions of a list slot, from some number on. -/
def Lists (n : Node) (slot : Nat -> Slot) (i : Nat) (l : List Expr) : Prop :=
  ∀ j e, l[j]? = some e -> n.get? (slot (i + j)) = Node.ofExpr? e

theorem lists_cons {n : Node} {slot : Nat -> Slot} {i : Nat} {e : Expr} {l : List Expr}
    (h : Lists n slot i (e :: l)) : n.get? (slot i) = Node.ofExpr? e ∧ Lists n slot (i + 1) l := by
  refine ⟨by simpa using h 0 e rfl, fun j e' hj => ?_⟩
  have := h (j + 1) e' (by simpa using hj)
  rwa [show i + (j + 1) = i + 1 + j by omega] at this

theorem get?_of_mem (e : Expr) (slot : Slot) (child : Expr)
    (h : ∀ c, (slot, c) ∈ Node.exprSlots e ↔ Node.ofExpr? child = some c) :
    (Node.expr e).get? slot = Node.ofExpr? child :=
  Option.ext fun c => by rw [Node.get?_eq_some, ← h]; rfl

theorem lists_of_mem (e : Expr) (slot : Nat -> Slot) (l : List Expr)
    (h : ∀ i a c, l[i]? = some a -> ((slot i, c) ∈ Node.exprSlots e ↔ Node.ofExpr? a = some c)) :
    Lists (.expr e) slot 0 l := by
  intro j a hj
  rw [Nat.zero_add]
  exact get?_of_mem e (slot j) a fun c => h j a c hj

section Slots

variable (s : Span)

theorem get?_receiver (receiver : Expr) (name : String) (args : List Expr) (type : String) :
    (Node.expr (.call s receiver name args type)).get? .receiver = Node.ofExpr? receiver :=
  get?_of_mem _ _ _ (by simp [Node.exprSlots, Node.mem_single, Node.mem_listed])

theorem lists_args (receiver : Expr) (name : String) (args : List Expr) (type : String) :
    Lists (.expr (.call s receiver name args type)) .arg 0 args :=
  lists_of_mem _ _ _ (by simp +contextual [Node.exprSlots, Node.mem_single, Node.mem_listed])

theorem get?_target (target : Expr) (name type : String) :
    (Node.expr (.field s target name type)).get? .target = Node.ofExpr? target :=
  get?_of_mem _ _ _ (by simp [Node.exprSlots, Node.mem_single])

theorem get?_array (array position : Expr) (type : String) :
    (Node.expr (.index s array position type)).get? .array = Node.ofExpr? array :=
  get?_of_mem _ _ _ (by simp [Node.exprSlots, Node.mem_single])

theorem get?_position (array position : Expr) (type : String) :
    (Node.expr (.index s array position type)).get? .position = Node.ofExpr? position :=
  get?_of_mem _ _ _ (by simp [Node.exprSlots, Node.mem_single])

theorem lists_dims (elemType : String) (dims elements : List Expr) (listed : Bool) :
    Lists (.expr (.newArray s elemType dims elements listed)) .dim 0 dims :=
  lists_of_mem _ _ _ (by simp +contextual [Node.exprSlots, Node.mem_listed])

theorem lists_elements (elemType : String) (dims elements : List Expr) (listed : Bool) :
    Lists (.expr (.newArray s elemType dims elements listed)) .element 0 elements :=
  lists_of_mem _ _ _ (by simp +contextual [Node.exprSlots, Node.mem_listed])

theorem lists_newObject (className : String) (args : List Expr) :
    Lists (.expr (.newObject s className args)) .arg 0 args :=
  lists_of_mem _ _ _ (by simp +contextual [Node.exprSlots, Node.mem_listed])

theorem get?_operand (op : Operator) (operand : Expr) (trailing : Bool) :
    (Node.expr (.unary s op operand trailing)).get? .operand = Node.ofExpr? operand :=
  get?_of_mem _ _ _ (by simp [Node.exprSlots, Node.mem_single])

theorem get?_left (left : Expr) (op : Operator) (right : Expr) :
    (Node.expr (.binary s left op right)).get? .left = Node.ofExpr? left :=
  get?_of_mem _ _ _ (by simp [Node.exprSlots, Node.mem_single])

theorem get?_right (left : Expr) (op : Operator) (right : Expr) :
    (Node.expr (.binary s left op right)).get? .right = Node.ofExpr? right :=
  get?_of_mem _ _ _ (by simp [Node.exprSlots, Node.mem_single])

theorem get?_assignTarget (target : Expr) (op : Operator) (value : Expr) :
    (Node.expr (.assign s target op value)).get? .target = Node.ofExpr? target :=
  get?_of_mem _ _ _ (by simp [Node.exprSlots, Node.mem_single])

theorem get?_value (target : Expr) (op : Operator) (value : Expr) :
    (Node.expr (.assign s target op value)).get? .value = Node.ofExpr? value :=
  get?_of_mem _ _ _ (by simp [Node.exprSlots, Node.mem_single])

theorem get?_selector (selector : Expr) (cases : List Case) (type : String) :
    (Node.expr (.switch s selector cases type)).get? .selector = Node.ofExpr? selector :=
  get?_of_mem _ _ _ (by simp [Node.exprSlots, Node.mem_single, Node.mem_listed])

theorem get?_arm {selector : Expr} {cases : List Case} {type : String} {i : Nat} {a : Case}
    (h : cases[i]? = some a) :
    (Node.expr (.switch s selector cases type)).get? (.arm i) = some (.arm a) := by
  rw [Node.get?_eq_some]
  simp [Node.slots, Node.exprSlots, Node.mem_single, Node.mem_listed, h]

end Slots

theorem lists_labels (a : Case) : Lists (.arm a) .label 0 a.labels :=
  fun j e hj => Option.ext fun c => by
    rw [Node.get?_eq_some]
    simp [Node.slots, Node.mem_listed, hj]

/-! ## Marks of all sites -/

/-- The marks are those of all sites of a node. -/
structure Marked (o : Options) (n : Node) (m : Marks) : Prop where
  hot : ∀ p, p ∈ m.hot ↔ ∃ c, n.at? p = some c ∧ isLive o c = true
  sites : ∀ p k, (p, k) ∈ m.sites ↔ ∃ c, n.at? p = some c ∧ siteKind? o c = some k

theorem Marks.mem_under_hot {m : Marks} {slot : Slot} {p : Path} :
    p ∈ (m.under slot).hot ↔ slot :: p ∈ m.hot := by
  simp [Marks.under, Path.below?_eq_some]

theorem Marks.mem_under_sites {m : Marks} {slot : Slot} {p : Path} {k : Kind} :
    (p, k) ∈ (m.under slot).sites ↔ (slot :: p, k) ∈ m.sites := by
  simp [Marks.under, Path.below?_eq_some]

namespace Marked

variable {o : Options} {n : Node} {m : Marks}

theorem isHot (h : Marked o n m) : m.isHot = isLive o n := by
  rw [Bool.eq_iff_iff]
  simp [Marks.isHot, h.hot, Node.at?]

theorem kind? (h : Marked o n m) : m.kind? = siteKind? o n := by
  have hmem : ∀ k, ([], k) ∈ m.sites ↔ siteKind? o n = some k := by
    simp [h.sites, Node.at?]
  unfold Marks.kind?
  cases hlookup : m.sites.lookup [] with
  | some k =>
      obtain ⟨l, r, hsplit, _⟩ := List.lookup_eq_some_iff.1 hlookup
      exact ((hmem k).1 (by simp [hsplit])).symm
  | none =>
      refine (Option.eq_none_iff_forall_ne_some.2 fun k hk => ?_).symm
      simpa using List.lookup_eq_none_iff.1 hlookup _ ((hmem k).2 hk)

theorem isHotAt (h : Marked o n m) {slot : Slot} {e : Expr}
    (hget : n.get? slot = Node.ofExpr? e) : m.isHotAt slot = isLive o (.expr e) := by
  rw [← any_ofExpr?, ← hget, Bool.eq_iff_iff]
  simp [Marks.isHotAt, h.hot, Node.at?, Option.any_eq_true]

/-- The marks below a slot are those of the child there. -/
theorem under (h : Marked o n m) {slot : Slot} {e : Expr} (hget : n.get? slot = Node.ofExpr? e) :
    Marked o (.expr e) (m.under slot) := by
  cases hmissing : e.isMissing with
  | false =>
      rw [Node.ofExpr?_of_filled hmissing] at hget
      constructor
      · intro p
        simp [Marks.mem_under_hot, h.hot, Node.at?, hget]
      · intro p k
        simp [Marks.mem_under_sites, h.sites, Node.at?, hget]
  | true =>
      obtain rfl := Expr.eq_missing hmissing
      have hnone : ∀ p c, (Node.expr .missing).at? p = some c -> c = .expr .missing := by
        intro p c hc
        cases p with
        | nil => exact (Option.some.inj hc).symm
        | cons slot rest => simp [Node.at?, Node.get?, Node.slots, Node.exprSlots] at hc
      constructor
      · intro p
        simp only [Marks.mem_under_hot, h.hot, Node.at?, hget]
        constructor
        · rintro ⟨c, hc, _⟩
          simp [Node.ofExpr?] at hc
        · rintro ⟨c, hc, hlive⟩
          simp [hnone p c hc] at hlive
      · intro p k
        simp only [Marks.mem_under_sites, h.sites, Node.at?, hget]
        constructor
        · rintro ⟨c, hc, _⟩
          simp [Node.ofExpr?] at hc
        · rintro ⟨c, hc, hsite⟩
          simp [hnone p c hc, siteKind?] at hsite

end Marked

/-! ## Both are the same -/

theorem isHotFrom_eq {o : Options} {n : Node} {m : Marks} (hm : Marked o n m)
    {slot : Nat -> Slot} {i : Nat} {l : List Expr} (hl : Lists n slot i l) :
    m.isHotFrom slot i l.length = anyLive o l := by
  induction l generalizing i with
  | nil => rfl
  | cons e l ih =>
      obtain ⟨hget, hrest⟩ := lists_cons hl
      simp only [List.length_cons, Marks.isHotFrom, anyLive_cons, hm.isHotAt hget, ih hrest]

theorem operand_eq {o : Options} {m : Marks} {e : Expr} (hm : Marked o (.expr e) m) (c : Setting)
    (later : Bool) (v : Expr) : c.operand m later v = c.settled o e later v := by
  rw [Setting.operand, Setting.settled, hm.kind?]

mutual

/-- Hoisting by the marks of all sites is hoisting by structure. -/
theorem hoist_eq (o : Options) (c : Setting) :
    (e : Expr) -> (m : Marks) -> Marked o (.expr e) m -> hoist c m e = hoistAll o c e
  | .call s receiver name args type, m, hm => by
      have hr := get?_receiver s receiver name args type
      have ha := lists_args s receiver name args type
      simp only [hoist, hm.isHot, hm.kind?, hoist_eq o c receiver _ (hm.under hr),
        operand_eq (hm.under hr), isHotFrom_eq hm ha, hoistList_eq o c false args _ _ hm ha]
      rfl
  | .field s target name type, m, hm => by
      have ht := get?_target s target name type
      simp only [hoist, hoistAll, hm.isHot, hoist_eq o c target _ (hm.under ht)]
  | .index s array position type, m, hm => by
      have ha := get?_array s array position type
      have hp := get?_position s array position type
      simp only [hoist, hoistAll, hm.isHot, hoist_eq o c array _ (hm.under ha),
        operand_eq (hm.under ha), hm.isHotAt hp, hoist_eq o c position _ (hm.under hp)]
  | .newArray s elemType dims elements isListed, m, hm => by
      have hd := lists_dims s elemType dims elements isListed
      have he := lists_elements s elemType dims elements isListed
      simp only [hoist, hoistAll, hm.isHot, isHotFrom_eq hm he,
        hoistList_eq o c _ dims _ _ hm hd, hoistList_eq o c _ elements _ _ hm he]
  | .newObject s className args, m, hm => by
      have ha := lists_newObject s className args
      simp only [hoist, hoistAll, hm.isHot, hoistList_eq o c _ args _ _ hm ha]
  | .unary s op operand trailing, m, hm => by
      have ho := get?_operand s op operand trailing
      simp only [hoist, hoistAll, hm.isHot, hoist_eq o c operand _ (hm.under ho)]
  | .binary s left op right, m, hm => by
      have hl := get?_left s left op right
      have hr := get?_right s left op right
      simp only [hoist, hoistAll, hm.isHot, hoist_eq o c left _ (hm.under hl),
        operand_eq (hm.under hl), hm.isHotAt hr, hoist_eq o c right _ (hm.under hr)]
  | .assign s target op value, m, hm => by
      have hv := get?_value s target op value
      simp only [hoist, hm.isHot, hm.isHotAt hv, hoist_eq o c value _ (hm.under hv)]
      rfl
  | .switch s selector cases type, m, hm => by
      have hs := get?_selector s selector cases type
      simp only [hoist, hoistAll, hm.isHot, hoist_eq o c selector _ (hm.under hs)]
  | .missing, m, hm | .ident .., m, hm | .literal .., m, hm | .conditional .., m, hm
  | .lambda .., m, hm | .template .., m, hm => by
      simp only [hoist, hoistAll, hm.isHot]

theorem hoistList_eq (o : Options) (c : Setting) (after : Bool) :
    (l : List Expr) -> {n : Node} -> (m : Marks) -> {slot : Nat -> Slot} -> (i : Nat) ->
      Marked o n m -> Lists n slot i l -> hoistList c m slot i after l = hoistAllList o c after l
  | [], n, m, slot, i, hm, hl => by simp only [hoistList, hoistAllList]
  | e :: rest, n, m, slot, i, hm, hl => by
      obtain ⟨hget, hrest⟩ := lists_cons hl
      simp only [hoistList, hoistAllList, hoist_eq o c e _ (hm.under hget),
        operand_eq (hm.under hget), isHotFrom_eq hm hrest, hoistList_eq o c after rest m _ hm hrest]

end

end EarlyExit.Expansion
