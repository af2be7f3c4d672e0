import Mathlib
import EarlyExit.Proofs.Expansion.Depth
import EarlyExit.Proofs.Expansion.Hoisting
import EarlyExit.Settings.Basic

/-!
# Hoisting leaves no site

Hoisting all sites of an expression gives an expression and a prologue without any.
For every site there is one test in the prologue, and the test exits as it was told.
No code that hoisting puts in is a site: its calls are of members of a container
kind, and the sentinel is not the name of such a member.
-/

namespace EarlyExit.Expansion

/-- The sentinel is no member that the expansion calls on a container. -/
def Options.Apart (o : Options) : Prop :=
  ∀ type k, o.registry.lookup type = some k -> o.sentinel ∉ Settings.calledMembers k

theorem Options.Apart.resolve {o : Options} (ho : o.Apart) {e : Expr} {k : Kind}
    (h : o.registry.resolve e = some k) : o.sentinel ∉ Settings.calledMembers k := by
  unfold Registry.resolve at h
  split at h
  · cases h
  · exact ho _ k h

/-! ## Counting sites -/

def siteCount (o : Options) (n : Node) : Nat :=
  (sites o n).length

theorem siteCount_eq (o : Options) (n : Node) :
    siteCount o n = (if (siteKind? o n).isSome then 1 else 0) +
      (n.slots.map fun x => siteCount o x.2).sum := by
  unfold siteCount
  rw [sites_eq, List.length_append, List.length_flatMap]
  simp only [List.length_map]
  cases h : siteKind? o n <;> simp [siteAt?, h]

theorem siteCount_eq_zero {o : Options} {n : Node} : siteCount o n = 0 ↔ isLive o n = false := by
  simp [siteCount, isLive]

theorem length_ways (o : Options) (n : Node) : (ways o n).length = siteCount o n := by
  simp [ways, located, siteCount]

def siteTotal (o : Options) (es : List Expr) : Nat :=
  (es.map fun e => siteCount o (.expr e)).sum

@[simp] theorem siteTotal_cons (o : Options) (e : Expr) (es : List Expr) :
    siteTotal o (e :: es) = siteCount o (.expr e) + siteTotal o es := rfl

theorem sum_single (o : Options) (slot : Slot) (e : Expr) :
    ((Node.single slot (Node.ofExpr? e)).map fun x => siteCount o x.2).sum =
      siteCount o (.expr e) := by
  cases hmissing : e.isMissing with
  | false => simp [Node.ofExpr?_of_filled hmissing, Node.single]
  | true =>
      obtain rfl := Expr.eq_missing hmissing
      simp [Node.ofExpr?, Node.single, siteCount_eq_zero.2]

theorem sum_listed (o : Options) (slot : Nat -> Slot) (k : Nat) (es : List Expr) :
    ((Node.listed slot Node.ofExpr? k es).map fun x => siteCount o x.2).sum = siteTotal o es := by
  induction es generalizing k with
  | nil => rfl
  | cons e es ih =>
      simp only [Node.listed, siteTotal_cons, ← ih (k + 1)]
      cases hmissing : e.isMissing with
      | false => simp [Node.ofExpr?_of_filled hmissing]
      | true =>
          obtain rfl := Expr.eq_missing hmissing
          simp [Node.ofExpr?, siteCount_eq_zero.2]

theorem sum_arms {o : Options} {cases : List Case} {k : Nat}
    (h : ∀ c ∈ cases, isLive o (.arm c) = false) :
    ((Node.listed .arm (some ∘ .arm) k cases).map fun x => siteCount o x.2).sum = 0 := by
  induction cases generalizing k with
  | nil => rfl
  | cons c cases ih =>
      have hrest := ih (k := k + 1) fun d hd => h d (by simp [hd])
      simp [Node.listed, siteCount_eq_zero.2 (h c (by simp)), hrest]

/-! ## What a hoisting emits -/

/-- From some names on, a hoisting ends with a value, emits statements and leaves names. -/
def Emits (ns : Names) (x : Hoisting α) (P : α -> List Stmt -> Names -> Prop) : Prop :=
  ∃ a new ns', (∀ pre, x ⟨ns, pre⟩ = .ok a ⟨ns', pre ++ new⟩) ∧ P a new ns'

namespace Emits

variable {ns : Names}

theorem pure {a : α} {P : α -> List Stmt -> Names -> Prop} (h : P a [] ns) :
    Emits ns (Pure.pure a) P :=
  ⟨a, [], ns, fun pre => by simp [Pure.pure, EStateM.pure], h⟩

theorem bind {x : Hoisting α} {f : α -> Hoisting β} {P : α -> List Stmt -> Names -> Prop}
    {Q : β -> List Stmt -> Names -> Prop} (hx : Emits ns x P)
    (hf : ∀ a new ns', P a new ns' -> Emits ns' (f a) fun b more => Q b (new ++ more)) :
    Emits ns (x >>= f) Q := by
  obtain ⟨a, new, ns', hrun, ha⟩ := hx
  obtain ⟨b, more, ns'', hrun', hb⟩ := hf a new ns' ha
  refine ⟨b, new ++ more, ns'', fun pre => ?_, hb⟩
  simp [Bind.bind, EStateM.bind, hrun, hrun']

theorem mono {x : Hoisting α} {P Q : α -> List Stmt -> Names -> Prop} (hx : Emits ns x P)
    (h : ∀ a new ns', P a new ns' -> Q a new ns') : Emits ns x Q := by
  obtain ⟨a, new, ns', hrun, ha⟩ := hx
  exact ⟨a, new, ns', hrun, h a new ns' ha⟩

theorem and {x : Hoisting α} {P Q : α -> List Stmt -> Names -> Prop} (hP : Emits ns x P)
    (hQ : Emits ns x Q) : Emits ns x fun a new ns' => P a new ns' ∧ Q a new ns' := by
  obtain ⟨a, new, ns', hrun, ha⟩ := hP
  obtain ⟨a', new', ns'', hrun', ha'⟩ := hQ
  have heq := (hrun []).symm.trans (hrun' [])
  simp only [List.nil_append, EStateM.Result.ok.injEq, Draft.mk.injEq] at heq
  obtain ⟨rfl, rfl, rfl⟩ := heq
  exact ⟨a, new, ns', hrun, ha, ha'⟩

theorem spill {e : Expr} {P : Expr -> List Stmt -> Names -> Prop}
    (h : P (.ident e.span ns.fresh.1 e.staticType)
      [.var e.span ns.fresh.1 e.staticType e] ns.fresh.2) : Emits ns (Expansion.spill e) P :=
  ⟨_, _, _, fun _ => rfl, h⟩

theorem hoistSite {exit : Exit} {kind : Kind} {span : Span} {receiverType type : String}
    {receiver : Expr} {P : Expr -> List Stmt -> Names -> Prop}
    (h : P (kind.extract (.ident span ns.fresh.1 receiverType) span type)
      (guardStatements exit kind span ns.fresh.1 receiverType receiver) ns.fresh.2) :
    Emits ns (Expansion.hoistSite exit kind span receiverType type receiver) P :=
  ⟨_, _, _, fun _ => rfl, h⟩

end Emits

/-! ## Operands of a direct expression -/

theorem ways_under {o : Options} {n c : Node} {slot : Slot} (hc : n.get? slot = some c)
    {w : List Shape} (hw : w ∈ ways o c) : w ++ [shape n slot] ∈ ways o n := by
  rw [ways_eq, List.mem_append, List.mem_flatMap]
  exact .inr ⟨(slot, c), Node.get?_eq_some.1 hc, List.mem_map.2 ⟨w, hw, rfl⟩⟩

theorem direct_missing (o : Options) : Direct o .missing := by
  intro w hw
  rw [isLive_eq_false.1 (isLive_missing o)] at hw
  simp at hw

theorem isLive_iff_way {o : Options} {n : Node} : isLive o n = true ↔ ∃ w, w ∈ ways o n := by
  rw [← Bool.not_eq_false, isLive_eq_false, ← ne_eq, ← List.length_pos_iff,
    List.length_pos_iff_exists_mem]

/-- The operands of a direct expression are direct, and those that are live run in their turn. -/
theorem direct_operand {o : Options} {e child : Expr} {slot : Slot} (h : Direct o e)
    (hget : (Node.expr e).get? slot = Node.ofExpr? child) :
    Direct o child ∧
      (isLive o (.expr child) = true -> (shape (.expr e) slot).passes = true) := by
  cases hmissing : child.isMissing with
  | true =>
      obtain rfl := Expr.eq_missing hmissing
      exact ⟨direct_missing o, by simp⟩
  | false =>
      rw [Node.ofExpr?_of_filled hmissing] at hget
      refine ⟨fun w hw x hx => ?_, fun hlive => ?_⟩
      · exact h _ (ways_under hget hw) x (by simp [hx])
      · obtain ⟨w, hw⟩ := isLive_iff_way.1 hlive
        exact h _ (ways_under hget hw) _ (by simp)

theorem direct_list {o : Options} {e : Expr} {slot : Nat -> Slot} {i : Nat} {l : List Expr}
    (h : Direct o e) (hl : Lists (.expr e) slot i l) : ∀ a ∈ l, Direct o a := by
  intro a ha
  obtain ⟨j, hj⟩ := List.mem_iff_getElem?.1 ha
  exact (direct_operand h (hl j a hj)).1

/-- No arm of a direct switch is live. -/
theorem direct_arms {o : Options} {s : Span} {selector : Expr} {cases : List Case}
    {type : String} (h : Direct o (.switch s selector cases type)) :
    ∀ c ∈ cases, isLive o (.arm c) = false := by
  intro c hc
  rw [isLive_eq_false, List.eq_nil_iff_forall_not_mem]
  intro w hw
  obtain ⟨i, hi⟩ := List.mem_iff_getElem?.1 hc
  have hget : (Node.expr (.switch s selector cases type)).get? (.arm i) = some (.arm c) := by
    rw [Node.get?_eq_some]
    simp [Node.slots, Node.exprSlots, Node.mem_single, Node.mem_listed, hi]
  rcases mem_ways hw with ⟨_, hsite⟩ | ⟨slot, d, w', _, _, rfl⟩
  · simp [siteKind?] at hsite
  · simpa [Shape.passes] using h _ (ways_under hget hw) .arm (by simp [shape])

/-- An expression of which no operand runs in its turn. -/
theorem direct_dead {o : Options} {e : Expr} (h : Direct o e)
    (hsite : siteKind? o (.expr e) = none)
    (hshape : ∀ slot c, (slot, c) ∈ Node.exprSlots e ->
      (shape (.expr e) slot).passes = false) : isLive o (.expr e) = false := by
  rw [isLive_eq_false, List.eq_nil_iff_forall_not_mem]
  intro w hw
  rcases mem_ways hw with ⟨_, hsome⟩ | ⟨slot, c, w', hc, _, rfl⟩
  · simp [hsite] at hsome
  · have hpass := h _ hw (shape (.expr e) slot) (by simp)
    simp [hshape slot c hc] at hpass

/-! ## Sites by kind of expression -/

section Counts

variable (o : Options) (s : Span)

theorem siteCount_call (receiver : Expr) (name : String) (args : List Expr) (type : String) :
    siteCount o (.expr (.call s receiver name args type)) =
      (if (siteKind? o (.expr (.call s receiver name args type))).isSome then 1 else 0) +
        (siteCount o (.expr receiver) + siteTotal o args) := by
  rw [siteCount_eq]
  simp [Node.slots, Node.exprSlots, sum_single, sum_listed]

theorem siteCount_field (target : Expr) (name type : String) :
    siteCount o (.expr (.field s target name type)) = siteCount o (.expr target) := by
  rw [siteCount_eq]
  simp [siteKind?, Node.slots, Node.exprSlots, sum_single]

theorem siteCount_assign (target : Expr) (op : Operator) (value : Expr) :
    siteCount o (.expr (.assign s target op value)) =
      siteCount o (.expr target) + siteCount o (.expr value) := by
  rw [siteCount_eq]
  simp [siteKind?, Node.slots, Node.exprSlots, sum_single]

theorem siteCount_binary (left : Expr) (op : Operator) (right : Expr) :
    siteCount o (.expr (.binary s left op right)) =
      siteCount o (.expr left) + siteCount o (.expr right) := by
  rw [siteCount_eq]
  simp [siteKind?, Node.slots, Node.exprSlots, sum_single]

theorem siteCount_unary (op : Operator) (operand : Expr) (trailing : Bool) :
    siteCount o (.expr (.unary s op operand trailing)) = siteCount o (.expr operand) := by
  rw [siteCount_eq]
  simp [siteKind?, Node.slots, Node.exprSlots, sum_single]

theorem siteCount_index (array position : Expr) (type : String) :
    siteCount o (.expr (.index s array position type)) =
      siteCount o (.expr array) + siteCount o (.expr position) := by
  rw [siteCount_eq]
  simp [siteKind?, Node.slots, Node.exprSlots, sum_single]

theorem siteCount_newArray (elemType : String) (dims elements : List Expr) (listed : Bool) :
    siteCount o (.expr (.newArray s elemType dims elements listed)) =
      siteTotal o dims + siteTotal o elements := by
  rw [siteCount_eq]
  simp [siteKind?, Node.slots, Node.exprSlots, sum_listed]

theorem siteCount_newObject (className : String) (args : List Expr) :
    siteCount o (.expr (.newObject s className args)) = siteTotal o args := by
  rw [siteCount_eq]
  simp [siteKind?, Node.slots, Node.exprSlots, sum_listed]

theorem siteCount_switch {selector : Expr} {cases : List Case} {type : String}
    (hcases : ∀ c ∈ cases, isLive o (.arm c) = false) :
    siteCount o (.expr (.switch s selector cases type)) = siteCount o (.expr selector) := by
  rw [siteCount_eq]
  simp [siteKind?, Node.slots, Node.exprSlots, sum_single, sum_arms hcases]

end Counts

/-! ## No site is left -/

/-- The exit in a test that hoisting has put in. -/
def guardExit? : Stmt -> Option Exit
  | .branch _ _ (.block (.mk _ [.ret ..])) .missing => some .ret
  | .branch _ _ (.block (.mk _ [.throw ..])) .missing => some .throw
  | .branch _ _ (.block (.mk _ [.yield ..])) .missing => some .yield
  | _ => none

/-- Statements without a site that hold a test for each of so many sites. -/
structure Tidy (o : Options) (exit : Exit) (count : Nat) (new : List Stmt) : Prop where
  dead : anyLiveStmt o new = false
  filled : ∀ t ∈ new, t.isMissing = false
  guards : new.filterMap guardExit? = List.replicate count exit

/-- An expression without a site that can stand where another one stood. -/
structure Clear (o : Options) (e v : Expr) : Prop where
  dead : isLive o (.expr v) = false
  type : v.staticType = e.staticType
  filled : v.isMissing = e.isMissing

theorem Clear.refl {o : Options} {e : Expr} (h : isLive o (.expr e) = false) : Clear o e e :=
  ⟨h, rfl, rfl⟩

theorem tidy_nil (o : Options) (exit : Exit) : Tidy o exit 0 [] :=
  ⟨rfl, by simp, rfl⟩

theorem Tidy.append {o : Options} {exit : Exit} {k l : Nat} {a b : List Stmt}
    (ha : Tidy o exit k a) (hb : Tidy o exit l b) : Tidy o exit (k + l) (a ++ b) where
  dead := by simp [ha.dead, hb.dead]
  filled t ht := (List.mem_append.1 ht).elim (ha.filled t) (hb.filled t)
  guards := by rw [List.filterMap_append, ha.guards, hb.guards, List.replicate_append_replicate]

theorem tidy_var {o : Options} {exit : Exit} {s : Span} {name type : String} {e : Expr}
    (h : isLive o (.expr e) = false) : Tidy o exit 0 [.var s name type e] where
  dead := by simp [h]
  filled := by simp [Stmt.isMissing]
  guards := rfl

theorem siteKind?_call {o : Options} {s : Span} {receiver : Expr} {name : String}
    {args : List Expr} {type : String} {k : Kind}
    (h : siteKind? o (.expr (.call s receiver name args type)) = some k) :
    name = o.sentinel ∧ args = [] ∧ o.registry.resolve receiver = some k := by
  simp only [siteKind?] at h
  split at h
  next heq =>
    cases heq
    split at h
    next hname => exact ⟨hname, rfl, h⟩
    next => cases h
  next => cases h

/-- A call of another name is no site. -/
theorem isLive_member {o : Options} {s : Span} {name type member result : String} {s' : Span}
    (h : member ≠ o.sentinel) :
    isLive o (.expr (.call s (.ident s' name type) member [] result)) = false := by
  rw [isLive_call]
  simp [siteKind?, h]

/-- The test for a site and its exit are no sites. -/
theorem dead_test {o : Options} (ho : o.Apart) {kind : Kind} {original : Expr}
    (hkind : o.registry.resolve original = some kind) (exit : Exit) (s : Span)
    (name type : String) (receiver : Expr) :
    ∃ test, guardStatements exit kind s name type receiver = [.var s name type receiver, test] ∧
      isLive o (.stmt test) = false := by
  have hmembers := ho.resolve hkind
  simp only [Settings.calledMembers, List.mem_cons, List.not_mem_nil, or_false, not_or] at hmembers
  obtain ⟨hpredicate, _, halternate⟩ := hmembers
  have hreconstruct : isLive o (.expr (kind.reconstruct (.ident s name type) s)) = false := by
    unfold Kind.reconstruct
    rw [isLive_call]
    split
    · simp [siteKind?, Registry.resolve, Expr.staticType]
    · simp [siteKind?, isLive_member (Ne.symm halternate)]
  refine ⟨_, rfl, ?_⟩
  simp [Kind.guard, isLive_member (Ne.symm hpredicate), isLive_exitStatement, hreconstruct]

theorem tidy_guard {o : Options} (ho : o.Apart) {exit : Exit} {kind : Kind} {s : Span}
    {name type : String} {receiver original : Expr} (hkind : o.registry.resolve original = some kind)
    (hreceiver : isLive o (.expr receiver) = false) :
    Tidy o exit 1 (guardStatements exit kind s name type receiver) := by
  constructor
  · obtain ⟨test, hguard, htest⟩ := dead_test ho hkind exit s name type receiver
    simp [hguard, hreceiver, htest]
  · simp [guardStatements, Stmt.isMissing]
  · cases exit <;> rfl

theorem dead_extract {o : Options} (ho : o.Apart) {kind : Kind} {s : Span} {name type : String}
    {original : Expr} {result : String} (hkind : o.registry.resolve original = some kind) :
    isLive o (.expr (kind.extract (.ident s name type) s result)) = false := by
  refine isLive_member fun h => ho.resolve hkind ?_
  simp [Settings.calledMembers, h]

/-! ## The recursion -/

section Recursion

variable {o : Options} {c : Setting} {ns : Names}

theorem emits_settle {e : Expr} (h : isLive o (.expr e) = false) (written : List String)
    (exit : Exit) :
    Emits ns (settle written e) fun v new _ => Clear o e v ∧ Tidy o exit 0 new := by
  unfold settle
  split
  next => exact .pure ⟨.refl h, tidy_nil o exit⟩
  next hstable =>
    refine .spill ⟨⟨isLive_ident .., rfl, ?_⟩, tidy_var h⟩
    cases e <;> simp_all [isStable, Expr.isMissing]

theorem emits_settled {e v : Expr} (h : Clear o e v) (later : Bool) :
    Emits ns (c.settled o e later v) fun v' new _ => Clear o e v' ∧ Tidy o c.exit 0 new := by
  unfold Setting.settled
  split
  next =>
    refine (emits_settle h.dead c.written c.exit).mono fun v' new _ hv' => ⟨?_, hv'.2⟩
    exact ⟨hv'.1.dead, hv'.1.type.trans h.type, hv'.1.filled.trans h.filled⟩
  next => exact .pure ⟨h, tidy_nil o c.exit⟩

theorem emits_target {e : Expr} (h : isLive o (.expr e) = false) :
    Emits ns (c.target e) fun v new _ => Clear o e v ∧ Tidy o c.exit 0 new := by
  cases e with
  | index s array position type =>
      simp only [isLive_index, Bool.or_eq_false_iff] at h
      refine .bind (emits_settle h.1 c.written c.exit) fun a new _ ha => ?_
      refine .bind (emits_settle h.2 c.written c.exit) fun p more _ hp => ?_
      refine .pure ⟨⟨?_, rfl, rfl⟩, ?_⟩
      · simp [ha.1.dead, hp.1.dead]
      · simpa using ha.2.append hp.2
  | field s target name type =>
      simp only [isLive_field] at h
      refine .bind (emits_settle h c.written c.exit) fun t new _ ht => ?_
      exact .pure ⟨⟨by simp [ht.1.dead], rfl, rfl⟩, by simpa using ht.2⟩
  | _ => exact .pure ⟨.refl h, tidy_nil o c.exit⟩

theorem emits_dead {e : Expr} (h : (!isLive o (.expr e)) = true) :
    Emits ns (pure e) fun v new _ =>
      Clear o e v ∧ Tidy o c.exit (siteCount o (.expr e)) new := by
  have hdead : isLive o (.expr e) = false := by simpa using h
  rw [siteCount_eq_zero.2 hdead]
  exact .pure ⟨.refl hdead, tidy_nil o c.exit⟩

/-- A call stays what it is with a receiver of the same type and as many arguments. -/
theorem siteKind?_operands {s : Span} {receiver receiver' : Expr} {name type : String}
    {args args' : List Expr} (htype : receiver'.staticType = receiver.staticType)
    (hlength : args'.length = args.length) :
    siteKind? o (.expr (.call s receiver' name args' type)) =
      siteKind? o (.expr (.call s receiver name args type)) := by
  cases args <;> cases args' <;> simp_all [siteKind?, Registry.resolve]

end Recursion

mutual

/-- Hoisting a direct expression ends, and leaves no site. -/
theorem hoistAll_cleared {o : Options} (ho : o.Apart) (c : Setting) :
    (e : Expr) -> Direct o e -> (ns : Names) -> Emits ns (hoistAll o c e) fun v new _ =>
      Clear o e v ∧ Tidy o c.exit (siteCount o (.expr e)) new
  | .call s receiver name args type, hd, ns => by
      rw [hoistAll]
      split
      next hdead => exact emits_dead hdead
      next =>
        have hdr := direct_operand hd (get?_receiver s receiver name args type)
        have hda := direct_list hd (lists_args s receiver name args type)
        refine .bind (hoistAll_cleared ho c receiver hdr.1 ns) fun r new ns' hr => ?_
        split
        next kind hsite =>
          obtain ⟨_, rfl, hkind⟩ := siteKind?_call hsite
          refine .hoistSite ⟨⟨dead_extract ho hkind, rfl, rfl⟩, ?_⟩
          rw [siteCount_call, hsite]
          simpa [siteTotal, Nat.add_comm] using hr.2.append (tidy_guard ho hkind hr.1.dead)
        next hsite =>
          refine .bind (emits_settled hr.1 (anyLive o args)) fun r' more ns'' hr' => ?_
          refine .bind (hoistAllList_cleared ho c false args hda ns'') fun vs rest _ hvs => ?_
          refine .pure ⟨⟨?_, rfl, rfl⟩, ?_⟩
          · rw [isLive_call, siteKind?_operands hr'.1.type hvs.1, hsite]
            simp [hr'.1.dead, hvs.2.1]
          · rw [siteCount_call, hsite]
            simpa using hr.2.append (hr'.2.append hvs.2.2)
  | .field s target name type, hd, ns => by
      rw [hoistAll]
      split
      next hdead => exact emits_dead hdead
      next =>
        have hdt := direct_operand hd (get?_target s target name type)
        refine .bind (hoistAll_cleared ho c target hdt.1 ns) fun t new _ ht => ?_
        refine .pure ⟨⟨by simp [ht.1.dead], rfl, rfl⟩, ?_⟩
        rw [siteCount_field]
        simpa using ht.2
  | .index s array position type, hd, ns => by
      rw [hoistAll]
      split
      next hdead => exact emits_dead hdead
      next =>
        have hda := direct_operand hd (get?_array s array position type)
        have hdp := direct_operand hd (get?_position s array position type)
        refine .bind (hoistAll_cleared ho c array hda.1 ns) fun a new _ ha => ?_
        refine .bind (emits_settled ha.1 _) fun a' more ns' ha' => ?_
        refine .bind (hoistAll_cleared ho c position hdp.1 ns') fun p rest _ hp => ?_
        refine .pure ⟨⟨by simp [ha'.1.dead, hp.1.dead], rfl, rfl⟩, ?_⟩
        rw [siteCount_index]
        simpa using ha.2.append (ha'.2.append hp.2)
  | .newArray s elemType dims elements isListed, hd, ns => by
      rw [hoistAll]
      split
      next hdead => exact emits_dead hdead
      next =>
        have hdd := direct_list hd (lists_dims s elemType dims elements isListed)
        have hde := direct_list hd (lists_elements s elemType dims elements isListed)
        refine .bind (hoistAllList_cleared ho c _ dims hdd ns) fun ds new ns' hds => ?_
        refine .bind (hoistAllList_cleared ho c _ elements hde ns') fun es more _ hes => ?_
        refine .pure ⟨⟨by simp [hds.2.1, hes.2.1], rfl, rfl⟩, ?_⟩
        rw [siteCount_newArray]
        simpa using hds.2.2.append hes.2.2
  | .newObject s className args, hd, ns => by
      rw [hoistAll]
      split
      next hdead => exact emits_dead hdead
      next =>
        have hda := direct_list hd (lists_newObject s className args)
        refine .bind (hoistAllList_cleared ho c _ args hda ns) fun vs new _ hvs => ?_
        refine .pure ⟨⟨by simp [hvs.2.1], rfl, rfl⟩, ?_⟩
        rw [siteCount_newObject]
        simpa using hvs.2.2
  | .unary s op operand trailing, hd, ns => by
      rw [hoistAll]
      split
      next hdead => exact emits_dead hdead
      next =>
        have hdo := direct_operand hd (get?_operand s op operand trailing)
        refine .bind (hoistAll_cleared ho c operand hdo.1 ns) fun v new _ hv => ?_
        refine .pure ⟨⟨by simp [hv.1.dead], rfl, rfl⟩, ?_⟩
        rw [siteCount_unary]
        simpa using hv.2
  | .binary s left op right, hd, ns => by
      rw [hoistAll]
      split
      next hdead => exact emits_dead hdead
      next =>
        have hdl := direct_operand hd (get?_left s left op right)
        have hdr := direct_operand hd (get?_right s left op right)
        refine .bind (hoistAll_cleared ho c left hdl.1 ns) fun l new ns' hl => ?_
        split
        next hshort =>
          have hright : isLive o (.expr right) = false := by
            simpa [shape, hshort, Shape.passes] using hdr.2
          refine .pure ⟨⟨by simp [hl.1.dead, hright], rfl, rfl⟩, ?_⟩
          rw [siteCount_binary, siteCount_eq_zero.2 hright]
          simpa using hl.2
        next =>
          refine .bind (emits_settled hl.1 _) fun l' more ns'' hl' => ?_
          refine .bind (hoistAll_cleared ho c right hdr.1 ns'') fun r rest _ hr => ?_
          refine .pure ⟨⟨by simp [hl'.1.dead, hr.1.dead], rfl, rfl⟩, ?_⟩
          rw [siteCount_binary]
          simpa using hl.2.append (hl'.2.append hr.2)
  | .assign s target op value, hd, ns => by
      rw [hoistAll]
      split
      next hdead => exact emits_dead hdead
      next =>
        have hdt := direct_operand hd (get?_assignTarget s target op value)
        have hdv := direct_operand hd (get?_value s target op value)
        have htarget : isLive o (.expr target) = false := by
          simpa [shape, Shape.passes] using hdt.2
        refine .bind (emits_target htarget) fun t new ns' ht => ?_
        rw [siteCount_assign, siteCount_eq_zero.2 htarget]
        split
        next applied _ _ =>
          refine .bind (P := fun v more _ => isLive o (.expr v) = false ∧ Tidy o c.exit 0 more)
            (.spill ⟨isLive_ident .., tidy_var ht.1.dead⟩) fun old more ns'' hold => ?_
          refine .bind (hoistAll_cleared ho c value hdv.1 ns'') fun v rest _ hv => ?_
          refine .pure ⟨⟨by simp [ht.1.dead, hold.1, hv.1.dead], rfl, rfl⟩, ?_⟩
          simpa using ht.2.append (hold.2.append hv.2)
        next =>
          refine .bind (hoistAll_cleared ho c value hdv.1 ns') fun v rest _ hv => ?_
          refine .pure ⟨⟨by simp [ht.1.dead, hv.1.dead], rfl, rfl⟩, ?_⟩
          simpa using ht.2.append hv.2
  | .switch s selector cases type, hd, ns => by
      rw [hoistAll]
      split
      next hdead => exact emits_dead hdead
      next =>
        have hds := direct_operand hd (get?_selector s selector cases type)
        have harms := direct_arms hd
        refine .bind (hoistAll_cleared ho c selector hds.1 ns) fun v new _ hv => ?_
        refine .pure ⟨⟨?_, rfl, rfl⟩, ?_⟩
        · simpa [hv.1.dead] using harms
        · rw [siteCount_switch o s harms]
          simpa using hv.2
  | .missing, hd, ns | .ident .., hd, ns | .literal .., hd, ns | .conditional .., hd, ns
  | .lambda .., hd, ns | .template .., hd, ns => by
      have hdead := direct_dead hd rfl (by simp [Node.exprSlots, shape, Shape.passes])
      unfold hoistAll
      rw [if_pos (by rw [hdead]; rfl)]
      exact emits_dead (by rw [hdead]; rfl)

theorem hoistAllList_cleared {o : Options} (ho : o.Apart) (c : Setting) (after : Bool) :
    (es : List Expr) -> (∀ e ∈ es, Direct o e) -> (ns : Names) ->
      Emits ns (hoistAllList o c after es) fun vs new _ =>
        vs.length = es.length ∧ anyLive o vs = false ∧ Tidy o c.exit (siteTotal o es) new
  | [], _, ns => by
      rw [hoistAllList]
      exact .pure ⟨rfl, rfl, tidy_nil o c.exit⟩
  | e :: rest, hd, ns => by
      rw [hoistAllList]
      refine .bind (hoistAll_cleared ho c e (hd e (by simp)) ns) fun v new ns' hv => ?_
      refine .bind (emits_settled hv.1 _) fun v' more ns'' hv' => ?_
      refine .bind (hoistAllList_cleared ho c after rest (fun a ha => hd a (by simp [ha])) ns'')
        fun vs last _ hvs => ?_
      refine .pure ⟨by simp [hvs.1], by simp [hv'.1.dead, hvs.2.1], ?_⟩
      simpa using hv.2.append (hv'.2.append hvs.2.2)

end

/-- What a finished hoisting has given. -/
theorem hoistAll_run {o : Options} (ho : o.Apart) {c : Setting} {e : Expr} (hd : Direct o e)
    {ns ns' : Names} {v : Expr} {new : List Stmt}
    (h : (hoistAll o c e).run ⟨ns, []⟩ = .ok v ⟨ns', new⟩) :
    Clear o e v ∧ Tidy o c.exit (siteCount o (.expr e)) new := by
  obtain ⟨v', new', _, hrun, hclear, htidy⟩ := hoistAll_cleared ho c e hd ns
  have heq := (hrun []).symm.trans h
  simp only [List.nil_append, EStateM.Result.ok.injEq, Draft.mk.injEq] at heq
  obtain ⟨rfl, _, rfl⟩ := heq
  exact ⟨hclear, htidy⟩

end EarlyExit.Expansion
