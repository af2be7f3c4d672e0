import EarlyExit.Proofs.Expansion.Accounts
import EarlyExit.Proofs.Tree.Postorder

/-!
# Hoisting some of the sites

Hoisting takes any sites of an expression of which every operand on the way up runs in its
turn: those that were accepted for one anchor, while others beside them were not.  It then
always ends.  The tests in the prologue are one for each of these sites, in the order in
which evaluation reaches them, and the sites that are left are among the others.
-/

namespace EarlyExit.Expansion

open Node

/-! ## Marks of some sites -/

/-- If the node is a site, it is of a sort that may be left. -/
def MayStay (o : Options) (stays : Span -> Kind -> Prop) (n : Node) : Prop :=
  ∀ k, siteKind? o n = some k -> stays n.span k

/--
The marks are those of sites of a node whose operands on the way up run in their turn; the
sites that are not marked may stay.
-/
structure Selected (o : Options) (stays : Span -> Kind -> Prop) (n : Node) (m : Marks) : Prop where
  hot : ∀ p, p ∈ m.hot ↔ ∃ q k, (p ++ q, k) ∈ m.sites
  sites : ∀ {p k}, (p, k) ∈ m.sites -> ∃ c, n.at? p = some c ∧ siteKind? o c = some k
  passes : ∀ {p k}, (p, k) ∈ m.sites -> ∀ x ∈ shapes (n.spine p), x.passes = true
  others : ∀ {p c k}, n.at? p = some c -> siteKind? o c = some k -> (p, k) ∉ m.sites ->
    stays c.span k

/-- The marked sites in the order in which evaluation is done with them. -/
def Marks.inTurn (m : Marks) (n : Node) : List (Span × Kind) :=
  n.postorder.filterMap fun x => (m.sites.lookup x.1).map (x.2.span, ·)

/-- The marked sites in the expressions of a list slot, from some number on. -/
def Marks.inTurnFrom (m : Marks) (slot : Nat -> Slot) : Nat -> List Expr -> List (Span × Kind)
  | _, [] => []
  | i, e :: rest => (m.under (slot i)).inTurn (.expr e) ++ m.inTurnFrom slot (i + 1) rest

namespace Marks

theorem lookup_under (m : Marks) (slot : Slot) (p : Path) :
    (m.under slot).sites.lookup p = m.sites.lookup (slot :: p) := by
  simp only [under]
  induction m.sites with
  | nil => rfl
  | cons x rest ih =>
      obtain ⟨q, k⟩ := x
      cases hbelow : Path.below? [slot] q with
      | some r =>
          obtain rfl := Path.below?_eq_some.1 hbelow
          simp only [List.filterMap_cons, hbelow, Option.map_some, List.lookup_cons, ih]
          by_cases hp : p = r <;> simp [hp]
      | none =>
          have hne : (slot :: p == q) = false := by
            rw [beq_eq_false_iff_ne]
            rintro rfl
            rw [show slot :: p = [slot] ++ p from rfl, Path.below?_self_append] at hbelow
            cases hbelow
          simp only [List.filterMap_cons, hbelow, Option.map_none, List.lookup_cons, hne, ih]

theorem inTurn_eq (m : Marks) (n : Node) : m.inTurn n =
    (n.slots.flatMap fun x => (m.under x.1).inTurn x.2) ++ (m.kind?.map (n.span, ·)).toList := by
  unfold inTurn
  rw [postorder_eq, List.filterMap_append, List.filterMap_flatMap]
  simp only [List.filterMap_map, lookup_under]
  rfl

theorem inTurn_nil {m : Marks} (h : m.sites = []) (n : Node) : m.inTurn n = [] := by
  simp [inTurn, h]

end Marks

namespace Selected

variable {o : Options} {stays : Span -> Kind -> Prop} {n : Node} {m : Marks}

theorem isHot_eq_false (h : Selected o stays n m) : m.isHot = false ↔ m.sites = [] := by
  have hhot : m.isHot = true ↔ ∃ q k, (q, k) ∈ m.sites := by
    simpa [Marks.isHot] using h.hot []
  rw [← Bool.not_eq_true, hhot, List.eq_nil_iff_forall_not_mem]
  simp

/-- Where nothing is marked, all sites may stay. -/
theorem stay (h : Selected o stays n m) (hnone : m.sites = []) : Everywhere (MayStay o stays) n := by
  intro c hc k hk
  obtain ⟨p, hp⟩ := mem_nodes.1 hc
  exact h.others hp hk (by simp [hnone])

theorem kind?_some (h : Selected o stays n m) {k : Kind} (hk : m.kind? = some k) :
    siteKind? o n = some k := by
  obtain ⟨l, r, hsplit, _⟩ := List.lookup_eq_some_iff.1 hk
  obtain ⟨c, hc, hkind⟩ := h.sites (p := []) (k := k) (by simp [hsplit])
  cases hc
  exact hkind

/-- A node that is no site is not marked. -/
theorem kind?_eq_none (h : Selected o stays n m) (hsite : siteKind? o n = none) :
    m.kind? = none := by
  refine Option.eq_none_iff_forall_ne_some.2 fun k hk => ?_
  have hkind := h.kind?_some hk
  rw [hsite] at hkind
  cases hkind

/-- A node that is not marked itself may stay. -/
theorem kind?_none (h : Selected o stays n m) (hk : m.kind? = none) : MayStay o stays n := by
  intro k hkind
  refine h.others (p := []) rfl hkind fun hmem => ?_
  simpa using List.lookup_eq_none_iff.1 hk _ hmem

/-- The marks below a slot are of the child there. -/
theorem child (h : Selected o stays n m) {slot : Slot} {d : Node} (hget : n.get? slot = some d) :
    Selected o stays d (m.under slot) := by
  constructor
  · intro p
    simp only [Marks.mem_under_hot, Marks.mem_under_sites, h.hot, List.cons_append]
  · intro p k hp
    obtain ⟨c, hc, hkind⟩ := h.sites (Marks.mem_under_sites.1 hp)
    obtain ⟨d', hd, hc⟩ := at?_cons_eq_some.1 hc
    rw [hget] at hd
    cases hd
    exact ⟨c, hc, hkind⟩
  · intro p k hp x hx
    refine h.passes (Marks.mem_under_sites.1 hp) x ?_
    rw [spine, hget, shapes_append]
    exact List.mem_append_left _ (by rwa [← shapes_under [slot]] at hx)
  · intro p c k hc hkind hp
    exact h.others (at?_cons_eq_some.2 ⟨d, hget, hc⟩) hkind fun hmem =>
      hp (Marks.mem_under_sites.2 hmem)

theorem under (h : Selected o stays n m) {slot : Slot} {e : Expr}
    (hget : n.get? slot = Node.ofExpr? e) : Selected o stays (.expr e) (m.under slot) := by
  cases hmissing : e.isMissing with
  | false =>
      rw [Node.ofExpr?_of_filled hmissing] at hget
      exact h.child hget
  | true =>
      obtain rfl := Expr.eq_missing hmissing
      -- nothing is marked below an empty slot
      have hnone {p : Path} {k : Kind} : (slot :: p, k) ∉ m.sites := by
        intro hmem
        obtain ⟨c, hc, _⟩ := h.sites hmem
        obtain ⟨d, hd, _⟩ := at?_cons_eq_some.1 hc
        rw [hget] at hd
        cases hd
      constructor
      · intro p
        simp [Marks.mem_under_hot, Marks.mem_under_sites, h.hot, hnone]
      · intro p k hp
        exact absurd (Marks.mem_under_sites.1 hp) hnone
      · intro p k hp
        exact absurd (Marks.mem_under_sites.1 hp) hnone
      · intro p c k hc hkind _
        refine absurd (isLive_of_at hc (isLive_of_site hkind)) ?_
        simp

theorem live (h : Selected o stays n m) {slot : Slot} {e : Expr}
    (hget : n.get? slot = Node.ofExpr? e) (hhot : m.isHotAt slot = true) :
    isLive o (.expr e) = true := by
  obtain ⟨q, k, hmem⟩ := (h.hot [slot]).1 (by simpa [Marks.isHotAt] using hhot)
  obtain ⟨c, hc, hkind⟩ := (h.under hget).sites (Marks.mem_under_sites.2 hmem)
  exact isLive_of_at hc (isLive_of_site hkind)

/-- Nothing is marked below a slot that does not run in its turn. -/
theorem under_barrier (h : Selected o stays n m) (slot : Slot)
    (hshape : (shape n slot).passes = false) : (m.under slot).sites = [] := by
  rw [List.eq_nil_iff_forall_not_mem]
  rintro ⟨p, k⟩ hp
  have hp := Marks.mem_under_sites.1 hp
  obtain ⟨c, hc, _⟩ := h.sites hp
  obtain ⟨d, hd, _⟩ := at?_cons_eq_some.1 hc
  have hpass := h.passes hp (shape n slot) (by simp [spine, hd])
  simp [hshape] at hpass

/-- Nothing is marked in a node that is no site and of which no operand runs in its turn. -/
theorem barriers (h : Selected o stays n m) (hsite : siteKind? o n = none)
    (hshape : ∀ slot c, (slot, c) ∈ n.slots -> (shape n slot).passes = false) : m.sites = [] := by
  rw [List.eq_nil_iff_forall_not_mem]
  rintro ⟨p, k⟩ hp
  obtain ⟨c, hc, hkind⟩ := h.sites hp
  cases p with
  | nil =>
      cases hc
      simp [hsite] at hkind
  | cons slot rest =>
      obtain ⟨d, hd, _⟩ := at?_cons_eq_some.1 hc
      have hmem : (rest, k) ∈ (m.under slot).sites := Marks.mem_under_sites.2 hp
      simp [h.under_barrier slot (hshape slot d (get?_eq_some.1 hd))] at hmem

theorem missing (h : Selected o stays (.expr .missing) m) : m.sites = [] :=
  h.barriers rfl (by simp [slots, exprSlots])

/-- The marked sites in an operand. -/
theorem single (h : Selected o stays n m) {slot : Slot} {e : Expr}
    (hget : n.get? slot = Node.ofExpr? e) :
    ((Node.single slot (Node.ofExpr? e)).flatMap fun x => (m.under x.1).inTurn x.2) =
      (m.under slot).inTurn (.expr e) := by
  cases hmissing : e.isMissing with
  | false => simp [Node.ofExpr?_of_filled hmissing, Node.single]
  | true =>
      obtain rfl := Expr.eq_missing hmissing
      rw [Marks.inTurn_nil (h.under hget).missing]
      rfl

/-- The marked sites in the operands of a list. -/
theorem listed (h : Selected o stays n m) {slot : Nat -> Slot} {i : Nat} {es : List Expr}
    (hl : Lists n slot i es) :
    ((Node.listed slot Node.ofExpr? i es).flatMap fun x => (m.under x.1).inTurn x.2) =
      m.inTurnFrom slot i es := by
  induction es generalizing i with
  | nil => rfl
  | cons e rest ih =>
      obtain ⟨hget, hrest⟩ := lists_cons hl
      rw [Marks.inTurnFrom, ← ih hrest, ← h.single hget, Node.listed]
      cases Node.ofExpr? e <;> simp [Node.single]

section Arms

variable {s : Span} {selector : Expr} {cases : List Case} {type : String}

/-- Nothing is marked in an arm. -/
theorem arm (h : Selected o stays (.expr (.switch s selector cases type)) m) {i : Nat} {a : Case}
    (ha : cases[i]? = some a) :
    Selected o stays (.arm a) (m.under (.arm i)) ∧ (m.under (.arm i)).sites = [] := by
  have harm := h.child (get?_arm s ha)
  exact ⟨harm, harm.barriers rfl fun _ _ _ => rfl⟩

theorem arms (h : Selected o stays (.expr (.switch s selector cases type)) m) :
    ((Node.listed .arm (some ∘ Node.arm) 0 cases).flatMap fun x => (m.under x.1).inTurn x.2) =
      [] := by
  rw [List.flatMap_eq_nil_iff]
  rintro ⟨slot, d⟩ hx
  obtain ⟨i, a, ha, rfl, -⟩ := mem_listed.1 hx
  rw [Nat.zero_add, Marks.inTurn_nil (h.arm ha).2]

theorem stay_arms (h : Selected o stays (.expr (.switch s selector cases type)) m) :
    ∀ a ∈ cases, Everywhere (MayStay o stays) (.arm a) := by
  intro a ha
  obtain ⟨i, hi⟩ := List.mem_iff_getElem?.1 ha
  exact (h.arm hi).1.stay (h.arm hi).2

end Arms

end Selected

/-! ## What is put in front -/

def Guard.key (g : Guard) : Exit × Span × Kind :=
  (g.exit, g.span, g.kind)

/--
Statements of temporaries, among them one test with the exit for each of the sites in that
order.  The sites left in the statements may stay.
-/
structure Records (o : Options) (stays : Span -> Kind -> Prop) (exit : Exit)
    (found : List (Span × Kind)) (new : List Stmt) : Prop where
  temps : ∃ ts : List Temp, new = ts.flatMap Temp.statements ∧
    (ts.filterMap Temp.guard?).map Guard.key = found.map (exit, ·)
  stay : ∀ t ∈ new, Everywhere (MayStay o stays) (.stmt t)

/-- An expression that can stand where another one stood; the sites left in it may stay. -/
structure Freed (o : Options) (stays : Span -> Kind -> Prop) (e v : Expr) : Prop where
  stay : InExpr (MayStay o stays) v
  type : v.staticType = e.staticType
  filled : v.isMissing = e.isMissing

/-- No site in the expression is repeated to keep the old value of a target. -/
def Once (o : Options) (e : Expr) : Prop :=
  InExpr (fun n => repeatsSite o n = false) e

/-- What hoisting the sites makes of an expression, with the statements in front of it. -/
structure Yields (o : Options) (stays : Span -> Kind -> Prop) (exit : Exit)
    (found : List (Span × Kind)) (new : List Stmt) (e v : Expr) : Prop where
  freed : Freed o stays e v
  records : Records o stays exit found new
  account : Once o e -> Accounts o found new (keys o (.expr e)) (keys o (.expr v))

structure YieldsList (o : Options) (stays : Span -> Kind -> Prop) (exit : Exit)
    (found : List (Span × Kind)) (new : List Stmt) (es vs : List Expr) : Prop where
  length : vs.length = es.length
  stay : ∀ v ∈ vs, InExpr (MayStay o stays) v
  records : Records o stays exit found new
  account : (∀ e ∈ es, Once o e) -> Accounts o found new
    (es.flatMap fun e => keys o (.expr e)) (vs.flatMap fun v => keys o (.expr v))

section Records

variable {o : Options} {stays : Span -> Kind -> Prop} {exit : Exit}

theorem Freed.refl {e : Expr} (h : InExpr (MayStay o stays) e) : Freed o stays e e :=
  ⟨h, rfl, rfl⟩

theorem records_nil (o : Options) (stays : Span -> Kind -> Prop) (exit : Exit) :
    Records o stays exit [] [] :=
  ⟨⟨[], rfl, rfl⟩, by simp⟩

theorem Records.append {found found' : List (Span × Kind)} {a b : List Stmt}
    (ha : Records o stays exit found a) (hb : Records o stays exit found' b) :
    Records o stays exit (found ++ found') (a ++ b) := by
  obtain ⟨ts, rfl, hts⟩ := ha.temps
  obtain ⟨us, rfl, hus⟩ := hb.temps
  refine ⟨⟨ts ++ us, by simp, by simp [hts, hus]⟩, fun t ht => ?_⟩
  exact (List.mem_append.1 ht).elim (ha.stay t) (hb.stay t)

/-- A node other than a call without arguments is no site. -/
theorem mayStay_of_none {n : Node} (h : siteKind? o n = none) : MayStay o stays n := by
  intro k hk
  rw [h] at hk
  cases hk

theorem stay_of_dead {n : Node} (h : isLive o n = false) : Everywhere (MayStay o stays) n := by
  intro c hc k hk
  obtain ⟨p, hp⟩ := mem_nodes.1 hc
  have hlive := isLive_of_at hp (isLive_of_site hk)
  rw [h] at hlive
  cases hlive

theorem records_var {s : Span} {name type : String} {e : Expr}
    (h : InExpr (MayStay o stays) e) : Records o stays exit [] [.var s name type e] := by
  refine ⟨⟨[.plain s name type e], rfl, rfl⟩, ?_⟩
  rw [List.forall_mem_singleton]
  exact everywhere_var.2 ⟨mayStay_of_none rfl, h⟩

theorem records_guard (ho : o.Apart) {kind : Kind} {s : Span} {name type : String}
    {receiver original : Expr} (hkind : o.registry.resolve original = some kind)
    (hreceiver : InExpr (MayStay o stays) receiver) :
    Records o stays exit [(s, kind)] (guardStatements exit kind s name type receiver) := by
  obtain ⟨test, hguard, htest⟩ := dead_test ho hkind exit s name type receiver
  refine ⟨⟨[.guard ⟨exit, kind, s, name, type, receiver⟩], by simp [Temp.statements,
    Guard.statements], rfl⟩, ?_⟩
  rw [hguard, List.forall_mem_cons, List.forall_mem_singleton]
  exact ⟨everywhere_var.2 ⟨mayStay_of_none rfl, hreceiver⟩, stay_of_dead htest⟩

end Records

/-! ## The recursion -/

section Recursion

variable {o : Options} {stays : Span -> Kind -> Prop} {c : Setting} {ns : Names}

theorem yields_refl {e : Expr} (h : InExpr (MayStay o stays) e) (exit : Exit) :
    Yields o stays exit [] [] e e :=
  ⟨.refl h, records_nil o stays exit, fun _ => accounts_refl o _⟩

/-- An operand that was hoisted from is settled. -/
theorem Yields.settle {found : List (Span × Kind)} {new : List Stmt} {e v : Expr} {exit : Exit}
    (h : Yields o stays exit found new e v) (written : List String) :
    Emits ns (settle written v) fun v' more _ =>
      Yields o stays exit found (new ++ more) e v' := by
  refine .mono (.and (P := fun v' more _ => Freed o stays e v' ∧ Records o stays exit [] more) ?_
    (accounts_settle o written v)) fun v' more _ ⟨⟨hfreed, hrecords⟩, haccount⟩ => ?_
  · unfold Expansion.settle
    split
    next => exact .pure ⟨h.freed, records_nil o stays exit⟩
    next hstable =>
      refine .spill ⟨⟨?_, h.freed.type, ?_⟩, records_var h.freed.stay⟩
      · exact (everywhere_ident.2 (mayStay_of_none rfl)).inExpr
      · rw [← h.freed.filled]
        cases v <;> simp_all [isStable, Expr.isMissing]
  · refine ⟨hfreed, by simpa using h.records.append hrecords, fun honce => ?_⟩
    exact (h.account honce).trans haccount

theorem Yields.operand {found : List (Span × Kind)} {new : List Stmt} {e v : Expr}
    (h : Yields o stays c.exit found new e v) (m : Marks) (later : Bool) :
    Emits ns (c.operand m later v) fun v' more _ =>
      Yields o stays c.exit found (new ++ more) e v' := by
  unfold Setting.operand
  split
  next => exact h.settle c.written
  next => exact .pure (by rwa [List.append_nil])

theorem yields_target {e : Expr} (h : InExpr (MayStay o stays) e) :
    Emits ns (c.target e) fun v new _ => Yields o stays c.exit [] new e v := by
  cases e with
  | index s array position type =>
      obtain ⟨_, harray, hposition⟩ := everywhere_index.1 ((inExpr_iff rfl).1 h)
      refine .bind ((yields_refl harray c.exit).settle c.written) fun a new _ ha => ?_
      refine .bind ((yields_refl hposition c.exit).settle c.written) fun p more _ hp => ?_
      refine .pure ⟨⟨?_, rfl, rfl⟩, ?_, fun honce => ?_⟩
      · exact (everywhere_index.2 ⟨mayStay_of_none rfl, ha.freed.stay, hp.freed.stay⟩).inExpr
      · simpa using ha.records.append hp.records
      · obtain ⟨_, honcea, honcep⟩ := everywhere_index.1 ((inExpr_iff rfl).1 honce)
        simpa [keys_index] using (ha.account honcea).append (hp.account honcep)
  | field s target name type =>
      obtain ⟨_, htarget⟩ := everywhere_field.1 ((inExpr_iff rfl).1 h)
      refine .bind ((yields_refl htarget c.exit).settle c.written) fun t new _ ht => ?_
      refine .pure ⟨⟨?_, rfl, rfl⟩, by simpa using ht.records, fun honce => ?_⟩
      · exact (everywhere_field.2 ⟨mayStay_of_none rfl, ht.freed.stay⟩).inExpr
      · simpa [keys_field] using ht.account (everywhere_field.1 ((inExpr_iff rfl).1 honce)).2
  | _ => exact .pure (yields_refl h c.exit)

theorem yields_cold {e : Expr} {m : Marks} (h : Selected o stays (.expr e) m)
    (hcold : (!m.isHot) = true) : Emits ns (pure e) fun v new _ =>
      Yields o stays c.exit (m.inTurn (.expr e)) new e v := by
  have hnone := h.isHot_eq_false.1 (by simpa using hcold)
  rw [Marks.inTurn_nil hnone]
  exact .pure (yields_refl (h.stay hnone).inExpr c.exit)

end Recursion

mutual

/--
Hoisting the marked sites ends, records them in their turn, leaves what may stay and accounts
for every site.
-/
theorem hoist_yields {o : Options} {stays : Span -> Kind -> Prop} (ho : o.Apart) (c : Setting) :
    (e : Expr) -> (m : Marks) -> Selected o stays (.expr e) m -> (ns : Names) ->
      Emits ns (hoist c m e) fun v new _ =>
        Yields o stays c.exit (m.inTurn (.expr e)) new e v
  | .call s receiver name args type, m, hm, ns => by
      rw [hoist]
      split
      next hcold => exact yields_cold hm hcold
      next =>
        have hget := get?_receiver s receiver name args type
        have hargs := lists_args s receiver name args type
        rw [Marks.inTurn_eq]
        simp only [slots, exprSlots, List.flatMap_append, hm.single hget, hm.listed hargs]
        refine .bind (hoist_yields ho c receiver _ (hm.under hget) ns) fun r new ns' hr => ?_
        split
        next kind hkind =>
          have hsite := hm.kind?_some hkind
          obtain ⟨_, rfl, hresolve⟩ := siteKind?_call hsite
          have hdead : isLive o (.expr (kind.extract
              (.ident s ns'.fresh.1 receiver.staticType) s type)) = false :=
            dead_extract ho hresolve
          refine .hoistSite ⟨⟨(stay_of_dead hdead).inExpr, rfl, rfl⟩, ?_, fun honce => ?_⟩
          · have hguard : Records o stays c.exit [(s, kind)]
                (guardStatements c.exit kind s ns'.fresh.1 receiver.staticType r) :=
              records_guard ho hresolve hr.freed.stay
            simpa [hkind, Marks.inTurnFrom, Node.span, Expr.span] using hr.records.append hguard
          · have honcer := (everywhere_call.1 ((inExpr_iff rfl).1 honce)).2.1
            have hguard : Accounts o []
                (guardStatements c.exit kind s ns'.fresh.1 receiver.staticType r)
                (keys o (.expr r)) [] :=
              accounts_guard ho hresolve
            simpa [keys_call, ownKey, hsite, hkind, Marks.inTurnFrom, Node.span, Expr.span,
              keys_eq_nil hdead] using ((hr.account honcer).trans hguard).add (s, kind)
        next hkind =>
          refine .bind (hr.operand _ _) fun r' more ns'' hr' => ?_
          refine .bind (hoistList_yields ho c false args m 0 hm hargs ns'') fun vs rest _ hvs => ?_
          have hsame : siteKind? o (.expr (.call s r' name vs type)) =
              siteKind? o (.expr (.call s receiver name args type)) :=
            siteKind?_operands hr'.freed.type hvs.length
          refine .pure ⟨⟨?_, rfl, rfl⟩, ?_, fun honce => ?_⟩
          · refine (everywhere_call.2 ⟨fun k hk => ?_, hr'.freed.stay, hvs.stay⟩).inExpr
            rw [hsame] at hk
            exact hm.kind?_none hkind k hk
          · simpa [hkind] using hr'.records.append hvs.records
          · obtain ⟨_, honcer, honceargs⟩ := everywhere_call.1 ((inExpr_iff rfl).1 honce)
            simpa [keys_call, ownKey, hsame, hkind, Node.span, Expr.span] using
              ((hr'.account honcer).append (hvs.account honceargs)).beside
                (ownKey o (.expr (.call s receiver name args type)))
  | .field s target name type, m, hm, ns => by
      rw [hoist]
      split
      next hcold => exact yields_cold hm hcold
      next =>
        have hget := get?_target s target name type
        rw [Marks.inTurn_eq]
        simp only [slots, exprSlots, hm.single hget]
        refine .bind (hoist_yields ho c target _ (hm.under hget) ns) fun t new _ ht => ?_
        refine .pure ⟨⟨?_, rfl, rfl⟩, ?_, fun honce => ?_⟩
        · exact (everywhere_field.2 ⟨mayStay_of_none rfl, ht.freed.stay⟩).inExpr
        · simpa [hm.kind?_eq_none rfl] using ht.records
        · have honcet := (everywhere_field.1 ((inExpr_iff rfl).1 honce)).2
          simpa [hm.kind?_eq_none rfl, keys_field] using ht.account honcet
  | .index s array position type, m, hm, ns => by
      rw [hoist]
      split
      next hcold => exact yields_cold hm hcold
      next =>
        have hgeta := get?_array s array position type
        have hgetp := get?_position s array position type
        rw [Marks.inTurn_eq]
        simp only [slots, exprSlots, List.flatMap_append, hm.single hgeta, hm.single hgetp]
        refine .bind (hoist_yields ho c array _ (hm.under hgeta) ns) fun a new ns' ha => ?_
        refine .bind (ha.operand _ _) fun a' more ns'' ha' => ?_
        refine .bind (hoist_yields ho c position _ (hm.under hgetp) ns'') fun p rest _ hp => ?_
        refine .pure ⟨⟨?_, rfl, rfl⟩, ?_, fun honce => ?_⟩
        · exact (everywhere_index.2 ⟨mayStay_of_none rfl, ha'.freed.stay, hp.freed.stay⟩).inExpr
        · simpa [hm.kind?_eq_none rfl] using ha'.records.append hp.records
        · obtain ⟨_, honcea, honcep⟩ := everywhere_index.1 ((inExpr_iff rfl).1 honce)
          simpa [hm.kind?_eq_none rfl, keys_index] using
            (ha'.account honcea).append (hp.account honcep)
  | .newArray s elemType dims elements isListed, m, hm, ns => by
      rw [hoist]
      split
      next hcold => exact yields_cold hm hcold
      next =>
        have hdims := lists_dims s elemType dims elements isListed
        have helements := lists_elements s elemType dims elements isListed
        rw [Marks.inTurn_eq]
        simp only [slots, exprSlots, List.flatMap_append, hm.listed hdims, hm.listed helements]
        refine .bind (hoistList_yields ho c _ dims m 0 hm hdims ns) fun ds new ns' hds => ?_
        refine .bind (hoistList_yields ho c _ elements m 0 hm helements ns') fun es more _ hes => ?_
        refine .pure ⟨⟨?_, rfl, rfl⟩, ?_, fun honce => ?_⟩
        · exact (everywhere_newArray.2 ⟨mayStay_of_none rfl, hds.stay, hes.stay⟩).inExpr
        · simpa [hm.kind?_eq_none rfl] using hds.records.append hes.records
        · obtain ⟨_, honceds, honcees⟩ := everywhere_newArray.1 ((inExpr_iff rfl).1 honce)
          simpa [hm.kind?_eq_none rfl, keys_newArray] using
            (hds.account honceds).append (hes.account honcees)
  | .newObject s className args, m, hm, ns => by
      rw [hoist]
      split
      next hcold => exact yields_cold hm hcold
      next =>
        have hargs := lists_newObject s className args
        rw [Marks.inTurn_eq]
        simp only [slots, exprSlots, hm.listed hargs]
        refine .bind (hoistList_yields ho c _ args m 0 hm hargs ns) fun vs new _ hvs => ?_
        refine .pure ⟨⟨?_, rfl, rfl⟩, ?_, fun honce => ?_⟩
        · exact (everywhere_newObject.2 ⟨mayStay_of_none rfl, hvs.stay⟩).inExpr
        · simpa [hm.kind?_eq_none rfl] using hvs.records
        · have honceargs := (everywhere_newObject.1 ((inExpr_iff rfl).1 honce)).2
          simpa [hm.kind?_eq_none rfl, keys_newObject] using hvs.account honceargs
  | .unary s op operand trailing, m, hm, ns => by
      rw [hoist]
      split
      next hcold => exact yields_cold hm hcold
      next =>
        have hget := get?_operand s op operand trailing
        rw [Marks.inTurn_eq]
        simp only [slots, exprSlots, hm.single hget]
        refine .bind (hoist_yields ho c operand _ (hm.under hget) ns) fun v new _ hv => ?_
        refine .pure ⟨⟨?_, rfl, rfl⟩, ?_, fun honce => ?_⟩
        · exact (everywhere_unary.2 ⟨mayStay_of_none rfl, hv.freed.stay⟩).inExpr
        · simpa [hm.kind?_eq_none rfl] using hv.records
        · have honcev := (everywhere_unary.1 ((inExpr_iff rfl).1 honce)).2
          simpa [hm.kind?_eq_none rfl, keys_unary] using hv.account honcev
  | .binary s left op right, m, hm, ns => by
      rw [hoist]
      split
      next hcold => exact yields_cold hm hcold
      next =>
        have hgetl := get?_left s left op right
        have hgetr := get?_right s left op right
        have hright := hm.under hgetr
        rw [Marks.inTurn_eq]
        simp only [slots, exprSlots, List.flatMap_append, hm.single hgetl, hm.single hgetr]
        refine .bind (hoist_yields ho c left _ (hm.under hgetl) ns) fun l new ns' hl => ?_
        split
        next hshort =>
          have hnone := hm.under_barrier .right (by simp [shape, hshort, Shape.passes])
          refine .pure ⟨⟨?_, rfl, rfl⟩, ?_, fun honce => ?_⟩
          · exact (everywhere_binary.2 ⟨mayStay_of_none rfl, hl.freed.stay,
              (hright.stay hnone).inExpr⟩).inExpr
          · simpa [hm.kind?_eq_none rfl, Marks.inTurn_nil hnone] using hl.records
          · have honcel := (everywhere_binary.1 ((inExpr_iff rfl).1 honce)).2.1
            simpa [hm.kind?_eq_none rfl, Marks.inTurn_nil hnone, keys_binary] using
              (hl.account honcel).nil_append (keys o (.expr right))
        next =>
          refine .bind (hl.operand _ _) fun l' more ns'' hl' => ?_
          refine .bind (hoist_yields ho c right _ hright ns'') fun r rest _ hr => ?_
          refine .pure ⟨⟨?_, rfl, rfl⟩, ?_, fun honce => ?_⟩
          · exact (everywhere_binary.2 ⟨mayStay_of_none rfl, hl'.freed.stay, hr.freed.stay⟩).inExpr
          · simpa [hm.kind?_eq_none rfl] using hl'.records.append hr.records
          · obtain ⟨_, honcel, honcer⟩ := everywhere_binary.1 ((inExpr_iff rfl).1 honce)
            simpa [hm.kind?_eq_none rfl, keys_binary] using
              (hl'.account honcel).append (hr.account honcer)
  | .assign s target op value, m, hm, ns => by
      rw [hoist]
      split
      next hcold => exact yields_cold hm hcold
      next =>
        have hgett := get?_assignTarget s target op value
        have hgetv := get?_value s target op value
        have hvalue := hm.under hgetv
        have hnone := hm.under_barrier .target (by simp [shape, Shape.passes])
        rw [Marks.inTurn_eq]
        simp only [slots, exprSlots, List.flatMap_append, hm.single hgett, hm.single hgetv,
          Marks.inTurn_nil hnone]
        refine .bind (.and (yields_target ((hm.under hgett).stay hnone).inExpr)
          (emits_bareTarget o target)) fun t new ns' ⟨ht, hbare⟩ => ?_
        split
        next applied happlied hkeeps =>
          obtain ⟨hhot, hmoves⟩ := Bool.and_eq_true_iff.1 hkeeps
          refine .bind (P := fun old more _ => InExpr (MayStay o stays) old ∧
              keys o (.expr old) = [] ∧ Records o stays c.exit [] more ∧
              Accounts o [] more (keys o (.expr t)) [])
            (.spill ⟨(everywhere_ident.2 (mayStay_of_none rfl)).inExpr, keys_ident ..,
              records_var ht.freed.stay, accounts_var t⟩)
            fun old more ns'' ⟨hold, hkeys, hrecords, haccount⟩ => ?_
          refine .bind (hoist_yields ho c value _ hvalue ns'') fun v rest _ hv => ?_
          refine .pure ⟨⟨?_, rfl, rfl⟩, ?_, fun honce => ?_⟩
          · refine (everywhere_assign.2 ⟨mayStay_of_none rfl, ht.freed.stay, ?_⟩).inExpr
            exact (everywhere_binary.2 ⟨mayStay_of_none rfl, hold, hv.freed.stay⟩).inExpr
          · simpa [hm.kind?_eq_none rfl] using
              ht.records.append (hrecords.append hv.records)
          · obtain ⟨hrepeats, honcet, honcev⟩ := everywhere_assign.1 ((inExpr_iff rfl).1 honce)
            have hlive := hm.live hgetv hhot
            simp only [repeatsSite, Operator.isCompound, happlied, Option.isSome_some, hlive,
              Bool.true_and, List.any_eq_false, Bool.not_eq_true] at hrepeats
            have hnil := hbare value hmoves hrepeats
            simpa [hm.kind?_eq_none rfl, keys_assign, keys_binary, hkeys, hnil] using
              ((ht.account honcet).trans haccount).append (hv.account honcev)
        next =>
          refine .bind (hoist_yields ho c value _ hvalue ns') fun v rest _ hv => ?_
          refine .pure ⟨⟨?_, rfl, rfl⟩, ?_, fun honce => ?_⟩
          · exact (everywhere_assign.2 ⟨mayStay_of_none rfl, ht.freed.stay, hv.freed.stay⟩).inExpr
          · simpa [hm.kind?_eq_none rfl] using ht.records.append hv.records
          · obtain ⟨_, honcet, honcev⟩ := everywhere_assign.1 ((inExpr_iff rfl).1 honce)
            simpa [hm.kind?_eq_none rfl, keys_assign] using
              (ht.account honcet).append (hv.account honcev)
  | .switch s selector cases type, m, hm, ns => by
      rw [hoist]
      split
      next hcold => exact yields_cold hm hcold
      next =>
        have hget := get?_selector s selector cases type
        rw [Marks.inTurn_eq]
        simp only [slots, exprSlots, List.flatMap_append, hm.single hget, hm.arms]
        refine .bind (hoist_yields ho c selector _ (hm.under hget) ns) fun v new _ hv => ?_
        refine .pure ⟨⟨?_, rfl, rfl⟩, ?_, fun honce => ?_⟩
        · exact (everywhere_switch.2 ⟨mayStay_of_none rfl, hv.freed.stay, hm.stay_arms⟩).inExpr
        · simpa [hm.kind?_eq_none rfl] using hv.records
        · have honcev := (everywhere_switch.1 ((inExpr_iff rfl).1 honce)).2.1
          simpa [hm.kind?_eq_none rfl, keys_switch] using
            (hv.account honcev).nil_append (cases.flatMap fun a => keys o (.arm a))
  | .missing, m, hm, ns | .ident .., m, hm, ns | .literal .., m, hm, ns
  | .conditional .., m, hm, ns | .lambda .., m, hm, ns | .template .., m, hm, ns => by
      have hnone := hm.barriers rfl (by simp [slots, exprSlots, shape, Shape.passes])
      have hcold := hm.isHot_eq_false.2 hnone
      unfold hoist
      rw [if_pos (by rw [hcold]; rfl)]
      exact yields_cold hm (by rw [hcold]; rfl)

theorem hoistList_yields {o : Options} {stays : Span -> Kind -> Prop} (ho : o.Apart) (c : Setting)
    (after : Bool) : (es : List Expr) -> {n : Node} -> (m : Marks) -> {slot : Nat -> Slot} ->
      (i : Nat) -> Selected o stays n m -> Lists n slot i es -> (ns : Names) ->
      Emits ns (hoistList c m slot i after es) fun vs new _ =>
        YieldsList o stays c.exit (m.inTurnFrom slot i es) new es vs
  | [], n, m, slot, i, hm, hl, ns => by
      rw [hoistList]
      exact .pure ⟨rfl, by simp, records_nil o stays c.exit, fun _ => accounts_refl o _⟩
  | e :: rest, n, m, slot, i, hm, hl, ns => by
      obtain ⟨hget, hrest⟩ := lists_cons hl
      rw [hoistList]
      refine .bind (hoist_yields ho c e _ (hm.under hget) ns) fun v new ns' hv => ?_
      refine .bind (hv.operand _ _) fun v' more ns'' hv' => ?_
      refine .bind (hoistList_yields ho c after rest m (i + 1) hm hrest ns'') fun vs last _ hvs => ?_
      refine .pure ⟨by simp [hvs.length], ?_, ?_, fun honce => ?_⟩
      · rw [List.forall_mem_cons]
        exact ⟨hv'.freed.stay, hvs.stay⟩
      · simpa [Marks.inTurnFrom] using hv'.records.append hvs.records
      · rw [List.forall_mem_cons] at honce
        simpa [Marks.inTurnFrom] using (hv'.account honce.1).append (hvs.account honce.2)

end

/-! ## The sites of an anchor -/

/-- The task is of a site of the tree that was accepted for the anchor. -/
def Task.At (o : Options) (root : Node) (anchor : Path) (t : Task) : Prop :=
  (∃ x ∈ sites o root, t.Of root x) ∧ t.context.place = .anchored anchor

/-- The tasks of the sites that are accepted for an anchor. -/
def acceptedAt (o : Options) (root : Node) (anchor : Path) : List Task :=
  (sites o root).filterMap fun x =>
    match (place root x.path x.span).verdict with
    | .accepted context =>
        if context.place = .anchored anchor then
          some ⟨x, (place root x.path x.span).chain, context⟩
        else none
    | _ => none

def taskMarks (anchor : Path) (ts : List Task) : Marks :=
  .ofSites anchor (ts.map fun t => (t.site.path, t.site.kind, t.chain))

/-- The sites of tasks in the order in which evaluation is done with them. -/
def sitesInTurn (o : Options) (root : Node) (ts : List Task) : List Site :=
  (root.postorder.filterMap (siteAt? o)).filter fun x => ts.any fun t => t.site.path = x.path

/-- The sites in the anchor slot that no task is of. -/
def leftOut (o : Options) (anchor : Path) (s : Stmt) (ts : List Task) : List Site :=
  match s.anchorSlot? with
  | some slot => (sites o (.expr s.anchorExpr)).filter fun x =>
      !ts.any fun t => t.site.path = anchor ++ slot :: x.path
  | none => []

/-- A site in the anchor slot that no task is of has the span and kind. -/
def LeftOut (o : Options) (anchor : Path) (s : Stmt) (ts : List Task) (span : Span) (kind : Kind) :
    Prop :=
  (span, kind) ∈ (leftOut o anchor s ts).map Site.key

/-- What hoisting the sites of tasks out of their anchor has to give. -/
structure TakenOut (o : Options) (root : Node) (anchor : Path) (s : Stmt) (exit : Exit)
    (ts : List Task) (h : Hoisted) : Prop where
  /-- One test for each site, in the order in which evaluation is done with them. -/
  guards : ∃ temps : List Temp, h.prologue = temps.flatMap Temp.statements ∧
    (temps.filterMap Temp.guard?).map Guard.key =
      (sitesInTurn o root ts).map fun x => (exit, x.span, x.kind)
  sites : (sitesInTurn o root ts).Nodup ∧
    ∀ x, x ∈ sitesInTurn o root ts ↔ ∃ t ∈ ts, t.site = x
  prologue : ∀ t ∈ h.prologue, ∀ y ∈ Expansion.sites o (.stmt t),
    LeftOut o anchor s ts y.span y.kind
  /-- Of the others each one stays once, unless a target is repeated with one. -/
  continuation : ∃ v, h.continuation = s.withAnchorExpr v ∧
    (∀ y ∈ Expansion.sites o (.expr v), LeftOut o anchor s ts y.span y.kind) ∧
    ((∀ n ∈ (Node.expr s.anchorExpr).nodes, repeatsSite o n = false) ->
      (keysIn o h.prologue ++ keys o (.expr v)).Perm ((leftOut o anchor s ts).map Site.key))

section Tasks

variable {o : Options} {root : Node} {anchor : Path} {s : Stmt} {slot : Slot} {ts : List Task}

theorem Task.at_of_mem {t : Task} (ht : t ∈ acceptedAt o root anchor) : t.At o root anchor := by
  obtain ⟨x, hx, htask⟩ := List.mem_filterMap.1 ht
  split at htask
  next context hverdict =>
    split at htask
    next hplace =>
      cases htask
      exact ⟨⟨x, hx, rfl, rfl, hverdict⟩, hplace⟩
    next => cases htask
  next => cases htask

theorem mem_sitesInTurn {x : Site} : x ∈ sitesInTurn o root ts ↔
    x ∈ sites o root ∧ ∃ t ∈ ts, t.site.path = x.path := by
  have hsame : x ∈ root.postorder.filterMap (siteAt? o) ↔ x ∈ sites o root :=
    (root.postorder_perm.filterMap _).mem_iff
  simp [sitesInTurn, hsame]

theorem sitesInTurn_nodup (o : Options) (root : Node) (ts : List Task) :
    (sitesInTurn o root ts).Nodup := by
  refine List.Nodup.filter _ (List.Nodup.of_map (·.path) ?_)
  -- the sites have the paths of their nodes
  refine List.Sublist.nodup ?_ root.postorder_nodup
  generalize root.postorder = l
  induction l with
  | nil => exact .slnil
  | cons y rest ih =>
      rw [List.filterMap_cons]
      cases hkind : siteKind? o y.2 with
      | none =>
          simp only [siteAt?, hkind, Option.map_none]
          exact .cons _ ih
      | some k =>
          simp only [siteAt?, hkind, Option.map_some]
          exact .cons_cons _ ih

/-- The sites of tasks are sites. -/
theorem site_of_task (hts : ∀ t ∈ ts, t.At o root anchor) {t : Task} (ht : t ∈ ts) :
    t.site ∈ sites o root := by
  obtain ⟨⟨x, hx, hof⟩, _⟩ := hts t ht
  rwa [hof.site]

theorem site_eq_of_path {x y : Site} (hx : x ∈ sites o root) (hy : y ∈ sites o root)
    (h : x.path = y.path) : x = y := by
  obtain ⟨c, hc, hkind, hspan⟩ := mem_sites.1 hx
  obtain ⟨d, hd, hkind', hspan'⟩ := mem_sites.1 hy
  rw [h, hd, Option.some.injEq] at hc
  subst hc
  obtain ⟨path, span, kind⟩ := x
  obtain ⟨path', span', kind'⟩ := y
  simp_all

theorem mem_sitesInTurn_iff (hts : ∀ t ∈ ts, t.At o root anchor) {x : Site} :
    x ∈ sitesInTurn o root ts ↔ ∃ t ∈ ts, t.site = x := by
  rw [mem_sitesInTurn]
  constructor
  · rintro ⟨hx, t, ht, hpath⟩
    exact ⟨t, ht, site_eq_of_path (site_of_task hts ht) hx hpath⟩
  · rintro ⟨t, ht, rfl⟩
    exact ⟨site_of_task hts ht, t, ht, rfl⟩

theorem mem_taskMarks_sites {q : Path} {k : Kind} :
    (q, k) ∈ ((taskMarks anchor ts).under slot).sites ↔
      ∃ t ∈ ts, t.site.path = anchor ++ slot :: q ∧ t.site.kind = k := by
  rw [Marks.mem_under_sites]
  simp only [taskMarks, Marks.ofSites, List.filterMap_map, List.mem_filterMap, Function.comp_apply,
    Option.map_eq_some_iff, Path.below?_eq_some, Prod.mk.injEq]
  constructor
  · rintro ⟨t, ht, _, hpath, rfl, hkind⟩
    exact ⟨t, ht, hpath, hkind⟩
  · rintro ⟨t, ht, hpath, hkind⟩
    exact ⟨t, ht, _, hpath, rfl, hkind⟩

namespace Anchor

/-- Where a site of the anchor is, and what is passed on the way to it. -/
theorem chain_eq (h : Anchor root anchor s slot) (hts : ∀ t ∈ ts, t.At o root anchor) {t : Task}
    (ht : t ∈ ts) : ∃ q : Path, ∃ c, t.site.path = anchor ++ slot :: q ∧
      (Node.expr s.anchorExpr).at? q = some c ∧ siteKind? o c = some t.site.kind ∧
      t.chain = (q.above.map fun r => anchor ++ slot :: r) ∧
      ∀ x ∈ shapes ((Node.expr s.anchorExpr).spine q), x.passes = true := by
  obtain ⟨⟨x, hx, hof⟩, hplace⟩ := hts t ht
  obtain ⟨q, hq, hpass⟩ := h.path_eq hx hof hplace
  obtain ⟨c, hc, hkind, _⟩ := mem_sites.1 hx
  rw [hq, h.at?_eq] at hc
  rw [hof.site]
  exact ⟨q, c, hq, hc, hkind, (h.place_through hx hof hq hpass).2, hpass⟩

theorem mem_hot (h : Anchor root anchor s slot) (hts : ∀ t ∈ ts, t.At o root anchor) {q : Path} :
    q ∈ ((taskMarks anchor ts).under slot).hot ↔
      ∃ t ∈ ts, ∃ r, t.site.path = anchor ++ slot :: (q ++ r) := by
  rw [Marks.mem_under_hot]
  simp only [taskMarks, Marks.ofSites, List.flatMap_map, List.mem_filterMap, List.mem_flatMap,
    Path.below?_eq_some]
  constructor
  · rintro ⟨_, ⟨t, ht, hmem⟩, rfl⟩
    obtain ⟨p, _, hpath, _, _, hchain, _⟩ := h.chain_eq hts ht
    rw [hchain] at hmem
    refine ⟨t, ht, ?_⟩
    rcases List.mem_cons.1 hmem with heq | hmem
    · exact ⟨[], by rw [List.append_nil, heq]⟩
    · obtain ⟨p', hp', heq⟩ := List.mem_map.1 hmem
      obtain rfl : p' = q := by simpa using heq
      obtain ⟨slot', r, rfl⟩ := Path.mem_above.1 hp'
      exact ⟨slot' :: r, hpath⟩
  · rintro ⟨t, ht, r, hpath⟩
    obtain ⟨p, _, hpath', _, _, hchain, _⟩ := h.chain_eq hts ht
    obtain rfl : q ++ r = p := by simpa [hpath] using hpath'
    refine ⟨_, ⟨t, ht, ?_⟩, rfl⟩
    rw [hpath, hchain]
    cases r with
    | nil => simp
    | cons slot' r =>
        exact List.mem_cons_of_mem _ (List.mem_map.2 ⟨q, Path.mem_above.2 ⟨slot', r, rfl⟩, rfl⟩)

/-- The marks of accepted sites are of sites whose operands on the way up run in their turn. -/
theorem selected (h : Anchor root anchor s slot) (hts : ∀ t ∈ ts, t.At o root anchor) :
    Selected o (LeftOut o anchor s ts) (.expr s.anchorExpr) ((taskMarks anchor ts).under slot) := by
  have hsite {p : Path} {k : Kind} (hp : (p, k) ∈ ((taskMarks anchor ts).under slot).sites) :
      ∃ c, (Node.expr s.anchorExpr).at? p = some c ∧ siteKind? o c = some k ∧
        ∀ x ∈ shapes ((Node.expr s.anchorExpr).spine p), x.passes = true := by
    obtain ⟨t, ht, hpath, rfl⟩ := mem_taskMarks_sites.1 hp
    obtain ⟨q, c, hq, hc, hkind, _, hpass⟩ := h.chain_eq hts ht
    obtain rfl : p = q := by simpa [hpath] using hq
    exact ⟨c, hc, hkind, hpass⟩
  constructor
  · intro p
    simp only [h.mem_hot hts, mem_taskMarks_sites]
    constructor
    · rintro ⟨t, ht, r, hpath⟩
      exact ⟨r, _, t, ht, hpath, rfl⟩
    · rintro ⟨r, _, t, ht, hpath, _⟩
      exact ⟨t, ht, r, hpath⟩
  · intro p k hp
    obtain ⟨c, hc, hkind, _⟩ := hsite hp
    exact ⟨c, hc, hkind⟩
  · intro p k hp
    exact (hsite hp).choose_spec.2.2
  · intro p c k hc hkind hp
    refine List.mem_map.2 ⟨⟨p, c.span, k⟩, ?_, rfl⟩
    simp only [leftOut, h.hslot, List.mem_filter, Bool.not_eq_true', List.any_eq_false,
      decide_eq_true_eq]
    refine ⟨mem_sites.2 ⟨c, hc, hkind, rfl⟩, fun t ht hpath => ?_⟩
    obtain ⟨q, d, hq, hd, hkind', _⟩ := h.chain_eq hts ht
    obtain rfl : p = q := by simpa [hpath] using hq
    rw [hc, Option.some.injEq] at hd
    subst hd
    rw [hkind, Option.some.injEq] at hkind'
    exact hp (mem_taskMarks_sites.2 ⟨t, ht, hpath, hkind'.symm⟩)

/-- What the marks say of a node is what the tasks say of it. -/
theorem lookup_eq (h : Anchor root anchor s slot) (hts : ∀ t ∈ ts, t.At o root anchor) {q : Path}
    {c : Node} (hc : (Node.expr s.anchorExpr).at? q = some c) :
    ((taskMarks anchor ts).under slot).sites.lookup q =
      if ts.any fun t => t.site.path = anchor ++ slot :: q then siteKind? o c else none := by
  cases hlookup : ((taskMarks anchor ts).under slot).sites.lookup q with
  | some k =>
      obtain ⟨l, r, hsplit, _⟩ := List.lookup_eq_some_iff.1 hlookup
      have hmem : (q, k) ∈ ((taskMarks anchor ts).under slot).sites := by simp [hsplit]
      obtain ⟨d, hd, hkind⟩ := (h.selected hts).sites hmem
      obtain ⟨t, ht, hpath, _⟩ := mem_taskMarks_sites.1 hmem
      rw [hc, Option.some.injEq] at hd
      subst hd
      rw [if_pos (List.any_eq_true.2 ⟨t, ht, by simpa using hpath⟩), hkind]
  | none =>
      rw [if_neg]
      rw [List.any_eq_true]
      rintro ⟨t, ht, hpath⟩
      have hmem : (q, t.site.kind) ∈ ((taskMarks anchor ts).under slot).sites :=
        mem_taskMarks_sites.2 ⟨t, ht, by simpa using hpath, rfl⟩
      simpa using List.lookup_eq_none_iff.1 hlookup _ hmem

/-- The sites in the slot are those of the tasks and those that are left out. -/
theorem keys_perm (h : Anchor root anchor s slot) (hts : ∀ t ∈ ts, t.At o root anchor) :
    (((taskMarks anchor ts).under slot).inTurn (.expr s.anchorExpr) ++
      (leftOut o anchor s ts).map Site.key).Perm (keys o (.expr s.anchorExpr)) := by
  let isTask (x : Site) : Bool := ts.any fun t => t.site.path = anchor ++ slot :: x.path
  have htaken : (((taskMarks anchor ts).under slot).inTurn (.expr s.anchorExpr)).Perm
      (((sites o (.expr s.anchorExpr)).filter isTask).map Site.key) := by
    rw [sites, List.filter_filterMap, List.map_filterMap, ← List.filterMap_congr (fun y hy => ?_)]
    · exact (postorder_perm _).filterMap _
    · rw [h.lookup_eq hts (mem_walk.1 hy)]
      cases hkind : siteKind? o y.2 with
      | none => simp [siteAt?, hkind]
      | some k =>
          simp only [siteAt?, hkind, Option.map_some, Option.filter_some, isTask]
          generalize (ts.any fun t => t.site.path = anchor ++ slot :: y.1) = found
          cases found <;> rfl
  rw [show leftOut o anchor s ts = (sites o (.expr s.anchorExpr)).filter fun x => !isTask x by
    rw [leftOut, h.hslot]]
  refine (htaken.append_right _).trans ?_
  rw [← List.map_append]
  exact (List.filter_append_perm isTask _).map Site.key

theorem inTurn (h : Anchor root anchor s slot) (hts : ∀ t ∈ ts, t.At o root anchor) :
    ((taskMarks anchor ts).under slot).inTurn (.expr s.anchorExpr) =
      (sitesInTurn o root ts).map fun x => (x.span, x.kind) := by
  -- a site of the tasks, found at its place in the tree
  let found (y : Path × Node) : Option (Span × Kind) :=
    if ts.any fun t => t.site.path = y.1 then (siteKind? o y.2).map (y.2.span, ·) else none
  have hfound : (sitesInTurn o root ts).map (fun x => (x.span, x.kind)) =
      root.postorder.filterMap found := by
    rw [sitesInTurn, List.filter_filterMap, List.map_filterMap]
    refine List.filterMap_congr fun y _ => ?_
    cases hkind : siteKind? o y.2 with
    | none => simp [found, siteAt?, hkind]
    | some k =>
        simp only [found, siteAt?, hkind, Option.map_some, Option.filter_some]
        generalize (ts.any fun t => t.site.path = y.1) = isTask
        cases isTask <;> rfl
  have hbelow : root.at? (anchor ++ [slot]) = some (.expr s.anchorExpr) := h.at?_eq []
  rw [hfound, filterMap_postorder hbelow]
  · refine List.filterMap_congr fun y hy => ?_
    have hy := mem_postorder.1 hy
    rw [h.lookup_eq hts hy]
    simp only [found, List.append_assoc, List.singleton_append]
    split <;> rfl
  · intro q d _ hsome
    have hany : (ts.any fun t => t.site.path = q) = true := by
      by_contra hnone
      rw [show found (q, d) = none from if_neg hnone] at hsome
      cases hsome
    obtain ⟨t, ht, hpath⟩ := List.any_eq_true.1 hany
    obtain ⟨p, _, hp, _⟩ := h.chain_eq hts ht
    exact ⟨p, by rw [← of_decide_eq_true hpath, hp]; simp⟩

end Anchor

/--
Hoisting accepts what classification accepted.  For any of the sites accepted for an anchor,
at least one, it ends without an error; it puts in front one test for each of them, in the
order in which evaluation is done with them, and of the sites in the anchor slot it leaves
none but those it was not told to take, each of them once.
-/
theorem hoistAnchor_takes (ho : o.Apart) (hat : root.at? anchor = some (.stmt s))
    (hsome : ts ≠ []) (hts : ∀ t ∈ ts, t ∈ acceptedAt o root anchor) (names : Names)
    (exit : Exit) : ∃ h, hoistAnchor names s exit (taskMarks anchor ts) = .ok h ∧
      TakenOut o root anchor s exit ts h := by
  have hts : ∀ t ∈ ts, t.At o root anchor := fun t ht => Task.at_of_mem (hts t ht)
  obtain ⟨t, ht⟩ := List.exists_mem_of_ne_nil ts hsome
  obtain ⟨⟨x, hx, hof⟩, hplace⟩ := hts t ht
  obtain ⟨slot, hanchor⟩ := Anchor.of_task hx hof hplace hat
  have hselected := hanchor.selected hts
  obtain ⟨v, new, names', hrun, hv⟩ := hoist_yields ho ⟨exit, writtenNames s.anchorExpr⟩
    s.anchorExpr _ hselected names
  obtain ⟨temps, rfl, hkeys⟩ := hv.records.temps
  have hok : hoistAnchor names s exit (taskMarks anchor ts) =
      .ok ⟨temps.flatMap Temp.statements, s.withAnchorExpr v, names'⟩ := by
    have hrun' := hrun []
    rw [List.nil_append] at hrun'
    simp only [hoistAnchor, hanchor.hslot, EStateM.run, hrun']
  refine ⟨_, hok, ⟨temps, rfl, ?_⟩,
    ⟨sitesInTurn_nodup o root ts, fun x => mem_sitesInTurn_iff hts⟩, ?_, v, rfl, ?_, ?_⟩
  · rw [hkeys, hanchor.inTurn hts, List.map_map]
    rfl
  · intro t ht y hy
    obtain ⟨c, hc, hkind, hspan⟩ := mem_sites.1 hy
    rw [hspan]
    exact hv.records.stay t ht c (mem_nodes.2 ⟨_, hc⟩) _ hkind
  · intro y hy
    obtain ⟨c, hc, hkind, hspan⟩ := mem_sites.1 hy
    have hfilled : v.isMissing = false := by rw [hv.freed.filled, hanchor.hfilled]
    rw [hspan]
    exact (inExpr_iff hfilled).1 hv.freed.stay c (mem_nodes.2 ⟨_, hc⟩) _ hkind
  · intro honce
    have haccount := hv.account (Everywhere.inExpr honce)
    rw [Accounts, List.append_assoc] at haccount
    exact (List.perm_append_left_iff _).1 (haccount.trans (hanchor.keys_perm hts).symm)

end Tasks

/-! ## A call with sites among its arguments -/

/-- A call in the given column, of a member of an expression or of a method of its own. -/
def callIn (column : Nat) (receiver : Expr) (name : String) (args : List Expr) (type : String) :
    Expr :=
  .call (.point "Arguments.java" 1 column) receiver name args type

/-- The call `name().unwrap()`, with the site in the given column. -/
def unwrapIn (column : Nat) (receiver : Expr) (name : String) : Expr :=
  callIn column (callIn column receiver name [] "Either<String, Integer>") "unwrap" [] "Integer"

/-- The statement `return h(f().unwrap().g().unwrap(), b && d().unwrap(), e().unwrap());`. -/
def argumentsStatement : Stmt :=
  .ret .nowhere (callIn 1 .missing "h"
    [unwrapIn 3 (unwrapIn 2 .missing "f") "g",
      .binary .nowhere (.ident .nowhere "b" "boolean") .and (unwrapIn 4 .missing "d"),
      unwrapIn 5 .missing "e"] "Either<String, Integer>")

def argumentsUnit : CompilationUnit where
  file := "Arguments.java"
  methods := [{
    name := "m"
    params := [⟨.nowhere, "b", "boolean"⟩]
    returns := "Either<String, Integer>"
    body := some (.mk .nowhere [argumentsStatement]) }]

def argumentsPath : Path :=
  [.method 0, .body, .stmt 0]

/-- The site after the operator is not accepted, and the inner site of the two comes first. -/
theorem hoistAnchor_takes_argumentsUnit :
    (sitesInTurn {} (.unit argumentsUnit) (acceptedAt {} (.unit argumentsUnit) argumentsPath)).map
        (·.span) = [2, 3, 5].map (.point "Arguments.java" 1) ∧
      (leftOut {} argumentsPath argumentsStatement
        (acceptedAt {} (.unit argumentsUnit) argumentsPath)).map (·.span) =
          [.point "Arguments.java" 1 4] ∧
      ∃ h, hoistAnchor (.ofTree "$unwrap" (.unit argumentsUnit)) argumentsStatement .ret
          (taskMarks argumentsPath (acceptedAt {} (.unit argumentsUnit) argumentsPath)) = .ok h ∧
        TakenOut {} (.unit argumentsUnit) argumentsPath argumentsStatement .ret
          (acceptedAt {} (.unit argumentsUnit) argumentsPath) h := by
  have hsome : (acceptedAt {} (.unit argumentsUnit) argumentsPath).length = 3 := by
    decide +kernel
  refine ⟨by decide +kernel, by decide +kernel, hoistAnchor_takes (apart_plain ⟨rfl, rfl⟩) rfl ?_
    (fun t ht => ht) _ _⟩
  intro hnil
  simp [hnil] at hsome

end EarlyExit.Expansion
