import EarlyExit.Proofs.Eval.Hoists

/-!
# Hoisting keeps evaluation

For every construct, what hoisting puts in front of the operands and what it leaves of them
stage the construct: the operands are settled one after the other until the last one that
holds a site, and the operation goes on with their values.  By recursion on the expression,
hoisting the marked sites of an expression stages its evaluation.
-/

namespace EarlyExit

namespace Expansion.Marks

theorem isHot_under (m : Marks) (slot : Slot) : (m.under slot).isHot = m.isHotAt slot := by
  rw [Bool.eq_iff_iff]
  simp [isHot, isHotAt, mem_under_hot]

theorem sites_under {m : Marks} (h : m.sites = []) (slot : Slot) : (m.under slot).sites = [] := by
  rw [under, h]
  rfl

theorem mem_sites_of_kind? {m : Marks} {k : Kind} (h : m.kind? = some k) : ([], k) ∈ m.sites := by
  obtain ⟨l, r, hsplit, _⟩ := List.lookup_eq_some_iff.1 h
  simp [hsplit]

theorem not_mem_sites_of_kind? {m : Marks} (h : m.kind? = none) (k : Kind) : ([], k) ∉ m.sites :=
  fun hmem => by simpa using List.lookup_eq_none_iff.1 h _ hmem

end Expansion.Marks

/-- Where something is marked, it is below a slot, unless the node is a site itself. -/
theorem Expansion.Selected.exists_under {o : Options} {stays : Span -> Kind -> Prop} {n : Node}
    {m : Marks} (h : Selected o stays n m) (hsite : siteKind? o n = none) (hhot : m.isHot = true) :
    ∃ slot c, (slot, c) ∈ n.slots ∧ (m.under slot).sites ≠ [] := by
  have hsome : m.sites ≠ [] := fun hnone => by simp [h.isHot_eq_false.2 hnone] at hhot
  obtain ⟨⟨p, k⟩, hp⟩ := List.exists_mem_of_ne_nil _ hsome
  obtain ⟨c, hc, hkind⟩ := h.sites hp
  cases p with
  | nil =>
      cases hc
      simp [hsite] at hkind
  | cons slot rest =>
      obtain ⟨d, hd, _⟩ := Node.at?_cons_eq_some.1 hc
      exact ⟨slot, d, Node.get?_eq_some.1 hd,
        List.ne_nil_of_mem (Marks.mem_under_sites.2 hp)⟩

theorem Expansion.Selected.isHotAt {o : Options} {stays : Span -> Kind -> Prop} {n d : Node}
    {m : Marks} (h : Selected o stays n m) {slot : Slot} (hget : n.get? slot = some d)
    (hsome : (m.under slot).sites ≠ []) : m.isHotAt slot = true := by
  rw [← Marks.isHot_under]
  exact Bool.not_eq_false _ ▸ fun hcold => hsome ((h.child hget).isHot_eq_false.1 hcold)

namespace Eval

open Node Expansion Run Realm

/-! ## Lists of operands -/

section Lists

variable {o : Options} {c : Setting} {m : Marks} {slot : Nat -> Slot} {i : Nat} {after : Bool}
  {ns ns₁ ns' : Names} {e v : Expr} {es vs : List Expr} {new more : List Stmt}

namespace Staging

variable {S : Staging} {w w₁ : Known} {st st₁ : Store}

theorem AllReady.head (h : S.AllReady c w m slot i (e :: es) st) :
    S.Ready c w (m.under (slot i)) e st where
  suits := h.suits e (by simp)
  served := h.served 0 e rfl [] st rfl
  accounted hs := h.accounted hs 0 e rfl
  here := h.here
  bound := h.bound

theorem AllReady.tail {a : Value} (h : S.AllReady c w m slot i (e :: es) st)
    (ha : evalFully S.machine S.frame e st = .ok a st₁) (hlater : S.view.realm.Later w w₁)
    (hgrows : Grows st st₁) : S.AllReady c w₁ m slot (i + 1) es st₁ where
  suits d hd := h.suits d (by simp [hd])
  served j d hd as st₂ has := by
    have hall : (fully S.machine).evalAll S.frame ((e :: es).take (j + 1)) st =
        .ok (a :: as) st₂ := by
      have hended : (fully S.machine).eval S.frame e st = ended (.ok a) st₁ := ha
      have hrest : (fully S.machine).evalAll S.frame (es.take j) st₁ = ended (.ok as) st₂ := has
      show ((fully S.machine).eval S.frame e >>= fun a =>
        (fully S.machine).evalAll S.frame (es.take j) >>= fun as => pure (a :: as)) st = _
      rw [bind_ended hended]
      show ((fully S.machine).evalAll S.frame (es.take j) >>= fun as => pure (a :: as)) st₁ = _
      rw [bind_ended hrest]
      rfl
    have hserved := h.served (j + 1) d hd (a :: as) st₂ hall
    rwa [show i + (j + 1) = i + 1 + j by omega] at hserved
  accounted hs j d hd := by
    have haccounted := h.accounted hs (j + 1) d hd
    rwa [show i + (j + 1) = i + 1 + j by omega] at haccounted
  here := S.view.realm.here_later hlater h.here
  bound x hx := hgrows.bound (h.bound x hx)

theorem Ready.list (h : S.Ready c w m e st) (hsuits : ∀ d ∈ es, InExpr (S.Suits c) d)
    (hl : Lists (.expr e) slot 0 es) (hopen : ∀ j, isOpen (slot j) = true)
    (hturn : ∀ j d as st₂, es[j]? = some d ->
      (fully S.machine).evalAll S.frame (es.take j) st₁ = .ok as st₂ ->
      Turn S.machine S.frame e st (slot j) d st₂)
    (hlater : S.view.realm.Later w w₁) (hgrows : Grows st st₁) :
    S.AllReady c w₁ m slot 0 es st₁ where
  suits := hsuits
  served j d hd as st₂ has := by
    rw [Nat.zero_add]
    exact h.served.turn (hturn j d as st₂ hd has)
  accounted hs j d hd := (h.accounted hs).under (hl j d hd) (hopen _)
  here := S.view.realm.here_later hlater h.here
  bound x hx := hgrows.bound (h.bound x hx)

end Staging

/-- The expressions of a list are staged, and settled where a later operand holds a site. -/
structure HoistsAll (o : Options) (c : Setting) (m : Marks) (slot : Nat -> Slot) (i : Nat)
    (after : Bool) (ns : Names) (es vs : List Expr) (new : List Stmt) (ns' : Names) : Prop where
  length : vs.length = es.length
  empty : es = [] -> new = []
  dead : (m.isHotFrom slot i es.length || after) = false -> vs = es ∧ new = []
  stages : Prepares ns ns' fun S => ∀ w st, S.Fits o c -> S.AllReady c w m slot i es st ->
    S.Staged ns w ((fully S.machine).evalAll S.frame es) st new
        ((fully S.machine).evalAll S.frame vs) S.view.realm.Vals ∧
      (after = true -> S.Settled ns ns' w ((fully S.machine).evalAll S.frame es) st new
        ((fully S.machine).evalAll S.frame vs) S.view.realm.Vals)

theorem HoistsAll.nil : HoistsAll o c m slot i after ns [] [] [] ns where
  length := rfl
  empty _ := rfl
  dead _ := ⟨rfl, rfl⟩
  stages := .refl fun S w st _ _ =>
    have hsettled : S.Settled ns ns w (pure []) st [] (pure []) S.view.realm.Vals :=
      Staging.settled_pure fun _ _ => trivial
    ⟨hsettled.staged, fun _ => hsettled⟩

theorem HoistsAll.cons
    (he : Settles o c (m.under (slot i)) (m.isHotFrom slot (i + 1) es.length || after) ns e v new ns₁)
    (hes : HoistsAll o c m slot (i + 1) after ns₁ es vs more ns') :
    HoistsAll o c m slot i after ns (e :: es) (v :: vs) (new ++ more) ns' where
  length := by simp [hes.length]
  empty := nofun
  dead h := by
    simp only [List.length_cons, Marks.isHotFrom, Bool.or_eq_false_iff] at h
    obtain ⟨rfl, rfl⟩ := he.dead ((Marks.isHot_under m (slot i)).trans h.1.1) (by simp [h])
    obtain ⟨rfl, rfl⟩ := hes.dead (by simp [h])
    exact ⟨rfl, rfl⟩
  stages := (he.stages.trans hes.stages).mono fun S ⟨hhead, htail⟩ w st hS hready => by
    obtain ⟨⟨hstaged, _⟩, hsettled⟩ := hhead w st hS hready.head
    have hns : ∀ x, ns.Drawn x -> ns₁.Drawn x := fun _ => he.stages.drawn
    have hrest {a : Value} {w₁ : Known} {st₁ : Store}
        (ha : evalFully S.machine S.frame e st = .ok a st₁) (hlater : S.view.realm.Later w w₁) :=
      htail w₁ st₁ hS (hready.tail ha hlater (.evaluated hS.native.hosts S.frame ha))
    constructor
    · refine hstaged.next (fun hlater => (hsettled hlater).1) (fun hcold => (hes.dead hcold).2) hns
        fun a w₁ st₁ ha hlater hval => ?_
      refine (hrest ha hlater).1.finish (fun as _ h₀ w₂ hlater₂ hvals => ?_) fun _ _ _ => stays_pure _
      exact (S.view.having h₀).comparison.pure ⟨Val.later hval hlater₂, hvals⟩
    · intro hafter
      refine (hsettled (by simp [hafter])).1.pair hns (fun _ => hes.stages.drawn)
        fun a h₁ w₁ st₁ ha hlater hval _ => ?_
      exact ((hrest ha hlater).2 hafter).map
        (fun w₂ as hlater₂ hvals => ⟨Val.later hval hlater₂, hvals⟩) h₁

end Lists

/-! ## Constructs -/

/-- An operation goes on with the values of two operands. -/
theorem Staging.Staged.onBoth {S : Staging} {ns : Names} {w : Known} {st : Store}
    {ts : List Stmt} {d e d' e' : Expr} {Q : Known -> Value -> Prop}
    (hx : S.Staged ns w (evalBoth S.machine S.frame d e) st ts (evalBoth S.machine S.frame d' e')
      S.view.realm.Pair) {g : Value -> Value -> Run Value}
    (hg : ∀ a b h₀ w₁, S.view.realm.Later w w₁ -> S.view.realm.Val w₁ a -> S.view.realm.Val w₁ b ->
      (S.view.having h₀).Matches w₁ (fun _ => g a b) (g a b) Q) (hstays : ∀ a b, Stays (g a b)) :
    S.Staged ns w (evalFully S.machine S.frame d >>= fun a => evalFully S.machine S.frame e >>= g a)
      st ts (evalFully S.machine S.frame d' >>= fun a => evalFully S.machine S.frame e' >>= g a)
      Q := by
  rw [← evalBoth_bind, ← evalBoth_bind]
  exact hx.finish (fun x _ h₀ w₁ hlater hpair => hg x.1 x.2 h₀ w₁ hlater hpair.1 hpair.2)
    fun _ x _ => hstays x.1 x.2

section Constructs

variable {o : Options} {c : Setting} {m : Marks} {ns ns₁ ns₂ ns' : Names} {e v : Expr}
  {new more rest : List Stmt} {s : Span} {t : String}

def isElement : Expr -> Bool
  | .index .. => true
  | _ => false

theorem Hoists.of_stages (hhot : m.isHot = true) (he : isAtom e = false) (hv : isAtom v = false)
    (hindex : isElement e = false) (hkind : m.kind? = none)
    (hstages : Prepares ns ns' fun S => ∀ w st, S.Fits o c -> S.Ready c w m e st ->
      S.Staged ns w (evalFully S.machine S.frame e) st new (evalFully S.machine S.frame v)
        S.view.realm.Val) : Hoists o c m ns e v new ns' where
  dead h := by simp [hhot] at h
  atom h := by simp [he, hv] at h
  cold h := by simp [he] at h
  stages := hstages.mono fun S hstaged w st hS hready =>
    ⟨hstaged w st hS hready, fun hsome => by simp [hkind] at hsome⟩
  placed _ s array position t h := by
    subst h
    cases hindex

theorem hoists_field {target : Expr} {name : String} (hhot : m.isHot = true)
    (hkind : m.kind? = none) (h : Hoists o c (m.under .target) ns target v new ns') :
    Hoists o c m ns (.field s target name t) (.field s v name t) new ns' :=
  .of_stages hhot rfl rfl rfl hkind <| h.stages.mono fun S hstages w st hS hready => by
    obtain ⟨_, hsuits⟩ := everywhere_field.1 ((inExpr_iff rfl).1 hready.suits)
    have htarget := hready.turn hsuits (get?_target s target name t) rfl .target
      (S.view.realm.refl w) (.refl st)
    refine Staging.Staged.congr ((hstages w st hS htarget).1.finish (g := Eval.field s name)
      (fun a _ h₀ w₁ _ hval => ?_) fun _ a _ => stays_field s name a)
      (agree_field _ _ s target name t st) (agree_field _ _ s v name t)
    exact Logic.field (L := (S.view.having h₀).comparison) hval

theorem hoists_unary {operand : Expr} {op : Operator} {trailing : Bool} (hhot : m.isHot = true)
    (hkind : m.kind? = none) (hop : op.isStep = false)
    (h : Hoists o c (m.under .operand) ns operand v new ns') :
    Hoists o c m ns (.unary s op operand trailing) (.unary s op v trailing) new ns' :=
  .of_stages hhot rfl rfl rfl hkind <| h.stages.mono fun S hstages w st hS hready => by
    obtain ⟨_, hsuits⟩ := everywhere_unary.1 ((inExpr_iff rfl).1 hready.suits)
    have hoperand := hready.turn hsuits (get?_operand s op operand trailing) rfl .operand
      (S.view.realm.refl w) (.refl st)
    refine Staging.Staged.congr ((hstages w st hS hoperand).1.finish (g := Eval.unary s op)
      (fun a _ h₀ w₁ _ hval => ?_) fun _ a _ => stays_unary s op a)
      (agree_unary _ _ s hop operand trailing st) (agree_unary _ _ s hop v trailing)
    exact Logic.unary (L := (S.view.having h₀).comparison) hval

/-- A step of an element evaluates the operands of the element; a step of anything else fails. -/
theorem hoists_step {operand : Expr} {op : Operator} {trailing : Bool} (hhot : m.isHot = true)
    (hkind : m.kind? = none) (hop : op.isStep = true) (hsites : (m.under .operand).sites ≠ [])
    (hoperand : (m.under .operand).isHot = true)
    (h : Hoists o c (m.under .operand) ns operand v new ns') :
    Hoists o c m ns (.unary s op operand trailing) (.unary s op v trailing) new ns' := by
  cases operand with
  | index s' array position t =>
      obtain ⟨a, p, rfl, hplaced⟩ := h.placed hoperand s' array position t rfl
      refine .of_stages hhot rfl rfl rfl hkind <| hplaced.mono fun S hstages w st hS hready => ?_
      obtain ⟨_, hsuits⟩ := everywhere_unary.1 ((inExpr_iff rfl).1 hready.suits)
      have hindex := hready.turn hsuits (get?_operand s op (.index s' array position t) trailing)
        rfl .operand (S.view.realm.refl w) (.refl st)
      refine Staging.Staged.congr ((hstages w st hS hindex).onBoth (fun u i h₀ w₁ _ hval _ => ?_)
        fun u i => stays_stepElement (stepSize op) trailing u i)
        (agree_step _ _ s hop (.index s' array position t) trailing st)
        (agree_step _ _ s hop (.index s' a p t) trailing)
      exact Logic.Alike.stepElement (L := (S.view.having h₀).comparison) hval
  | ident => exact absurd (h.cold rfl) hsites
  | _ =>
      refine .of_stages hhot rfl rfl rfl hkind <| h.stages.mono fun S _ w st _ _ => ?_
      exact Staging.staged_failed (agree_step S.machine S.frame s hop _ trailing st)

theorem hoists_shortCircuit {left right : Expr} {op : Operator} (hhot : m.isHot = true)
    (hkind : m.kind? = none) (hop : op.isShortCircuit = true)
    (hright : (m.under .right).sites = []) (h : Hoists o c (m.under .left) ns left v new ns') :
    Hoists o c m ns (.binary s left op right) (.binary s v op right) new ns' :=
  .of_stages hhot rfl rfl rfl hkind <| h.stages.mono fun S hstages w st hS hready => by
    obtain ⟨_, hsuits, hrest⟩ := everywhere_binary.1 ((inExpr_iff rfl).1 hready.suits)
    have hleft := hready.turn hsuits (get?_left s left op right) rfl .left
      (S.view.realm.refl w) (.refl st)
    refine Staging.Staged.congr ((hstages w st hS hleft).1.finish
      (g := shortCircuit (fully S.machine) S.frame op right) (fun a _ h₀ w₁ hlater hval => ?_)
      fun hs a _ => stays_shortCircuit (stays_evalFully (hS.stays hs) ?_) a)
      (agree_shortCircuit _ _ s hop left right st) (agree_shortCircuit _ _ s hop v right)
    · exact (hS.alike h₀).shortCircuit (hS.here (S.view.realm.here_later hlater hready.here))
        (hS.code_frame hrest w₁) hval
    · exact ((hready.accounted hs).under (get?_right s left op right) rfl).cold hright

theorem hoists_binary {left right l r : Expr} {op : Operator} (hhot : m.isHot = true)
    (hkind : m.kind? = none) (hop : op.isShortCircuit = false)
    (hl : Settles o c (m.under .left) (m.isHotAt .right) ns left l new ns₁)
    (hr : Hoists o c (m.under .right) ns₁ right r more ns') :
    Hoists o c m ns (.binary s left op right) (.binary s l op r) (new ++ more) ns' :=
  .of_stages hhot rfl rfl rfl hkind <| (hl.stages.trans hr.stages).mono
    fun S ⟨hfirst, hsecond⟩ w st hS hready => by
    obtain ⟨_, hsuitsl, hsuitsr⟩ := everywhere_binary.1 ((inExpr_iff rfl).1 hready.suits)
    have hleft := hready.turn hsuitsl (get?_left s left op right) rfl .left
      (S.view.realm.refl w) (.refl st)
    obtain ⟨⟨hstaged, _⟩, hsettled⟩ := hfirst w st hS hleft
    refine Staging.Staged.congr (hstaged.next (fun hlater => (hsettled hlater).1)
      (fun hcold => (hr.dead ((Marks.isHot_under m .right).trans hcold)).2)
      (fun _ => hl.stages.drawn) fun a w₁ st₁ ha hlater hval => ?_)
      (agree_binary _ _ s hop left right st) (agree_binary _ _ s hop l r)
    have hright := hready.turn hsuitsr (get?_right s left op right) rfl (.right hop ha) hlater
      (.evaluated hS.native.hosts S.frame ha)
    refine (hsecond w₁ st₁ hS hright).1.finish (fun b _ h₀ w₂ hlater₂ hb => ?_)
      fun _ b _ => stays_binary op a b
    exact Logic.binary (L := (S.view.having h₀).comparison) (hval.later hlater₂) hb

theorem hoists_newObject {className : String} {args vs : List Expr} (hhot : m.isHot = true)
    (hkind : m.kind? = none) (h : HoistsAll o c m .arg 0 false ns args vs new ns') :
    Hoists o c m ns (.newObject s className args) (.newObject s className vs) new ns' :=
  .of_stages hhot rfl rfl rfl hkind <| h.stages.mono fun S hstages w st hS hready => by
    obtain ⟨_, hsuits⟩ := everywhere_newObject.1 ((inExpr_iff rfl).1 hready.suits)
    have hargs := hready.list hsuits (lists_newObject s className args) (fun _ => rfl)
      (fun _ _ _ _ hd hvs => .part hd hvs) (S.view.realm.refl w) (.refl st)
    refine Staging.Staged.congr ((hstages w st hS hargs).1.finish
      (g := fun as => pure (.object className as)) (fun as _ h₀ w₁ _ hvals => ?_)
      fun _ _ _ => stays_pure _)
      (agree_newObject _ _ s className args st) (agree_newObject _ _ s className vs)
    have hobject : S.view.realm.Val w₁ (.object className as) := hvals
    exact (S.view.having h₀).comparison.pure hobject

section Arrays

variable {S : Staging} {w : Known} {st : Store} {elemType : String}
  {dims elements ds es : List Expr} {listed : Bool}

/-- An array of the given elements. -/
theorem Staging.Ready.given (h : S.Ready c w m (.newArray s elemType dims elements listed) st)
    (hnew : (listed || dims.isEmpty) = true) (hnew' : (listed || ds.isEmpty) = true)
    (hstages : S.AllReady c w m .element 0 elements st ->
      S.Staged ns w ((fully S.machine).evalAll S.frame elements) st new
        ((fully S.machine).evalAll S.frame es) S.view.realm.Vals) :
    S.Staged ns w (evalFully S.machine S.frame (.newArray s elemType dims elements listed)) st new
      (evalFully S.machine S.frame (.newArray s elemType ds es listed)) S.view.realm.Val := by
  obtain ⟨_, _, hsuits⟩ := everywhere_newArray.1 ((inExpr_iff rfl).1 h.suits)
  have helements := h.list hsuits (lists_elements s elemType dims elements listed)
    (fun _ => rfl) (fun _ _ _ _ hd hvs => .element hnew hd hvs) (S.view.realm.refl w) (.refl st)
  exact Staging.Staged.congr ((hstages helements).finish
    (fun _ _ h₀ _ _ hvals => (S.view.having h₀).comparison.alloc hvals) fun _ _ _ => stays_alloc _)
    (agree_elements _ _ s hnew st) (agree_elements _ _ s hnew')

/-- An array of the given sizes. -/
theorem Staging.Ready.sized (h : S.Ready c w m (.newArray s elemType dims elements listed) st)
    (hnew : (listed || dims.isEmpty) = false) (hnew' : (listed || ds.isEmpty) = false)
    (hstages : S.AllReady c w m .dim 0 dims st ->
      S.Staged ns w ((fully S.machine).evalAll S.frame dims) st new
        ((fully S.machine).evalAll S.frame ds) S.view.realm.Vals) :
    S.Staged ns w (evalFully S.machine S.frame (.newArray s elemType dims elements listed)) st new
      (evalFully S.machine S.frame (.newArray s elemType ds es listed)) S.view.realm.Val := by
  obtain ⟨_, hsuits, _⟩ := everywhere_newArray.1 ((inExpr_iff rfl).1 h.suits)
  have hdims := h.list hsuits (lists_dims s elemType dims elements listed) (fun _ => rfl)
    (fun _ _ _ _ hd hvs => .dim (Bool.or_eq_false_iff.1 hnew).1 hd hvs) (S.view.realm.refl w)
    (.refl st)
  refine Staging.Staged.congr ((hstages hdims).finish (g := makeArray elemType)
    (fun _ _ h₀ _ _ hvals => ?_) fun _ _ _ => stays_makeArray _ _)
    (agree_dims _ _ s hnew st) (agree_dims _ _ s hnew')
  exact Logic.makeArray (L := (S.view.having h₀).comparison) hvals

end Arrays

/-- Only one of the lists is evaluated, and nothing is put in front of the other one. -/
theorem hoists_newArray {elemType : String} {dims elements ds es : List Expr} {listed : Bool}
    (hhot : m.isHot = true) (hkind : m.kind? = none)
    (hds : HoistsAll o c m .dim 0 (m.isHotFrom .element 0 elements.length) ns dims ds new ns₁)
    (hes : HoistsAll o c m .element 0 false ns₁ elements es more ns') :
    Hoists o c m ns (.newArray s elemType dims elements listed)
      (.newArray s elemType ds es listed) (new ++ more) ns' :=
  .of_stages hhot rfl rfl rfl hkind <| (hds.stages.trans hes.stages).mono
    fun S ⟨hfirst, hsecond⟩ w st hS hready => by
    have hself := (hready.suits _ rfl).self
    by_cases hdims : dims = []
    · subst hdims
      obtain rfl : ds = [] := List.eq_nil_of_length_eq_zero hds.length
      obtain rfl := hds.empty rfl
      exact hready.given (by simp) (by simp) fun hall =>
        (hsecond w st hS hall).1.earlier fun _ => hds.stages.drawn
    · obtain ⟨rfl, rfl⟩ := (hself.array _ _ _ _ _ rfl).resolve_left hdims
      obtain rfl := hes.empty rfl
      have hempty : ds ≠ [] := fun h => hdims (List.eq_nil_of_length_eq_zero (by simp [← hds.length, h]))
      rw [List.append_nil]
      exact hready.sized (by simpa using hdims) (by simpa using hempty) fun hall =>
        (hfirst w st hS hall).1

theorem hoists_switch {selector : Expr} {cases : List Case} (hhot : m.isHot = true)
    (hkind : m.kind? = none)
    (hcases : ∀ (i : Nat) (a : Case), cases[i]? = some a -> (m.under (.arm i)).sites = [])
    (h : Hoists o c (m.under .selector) ns selector v new ns') :
    Hoists o c m ns (.switch s selector cases t) (.switch s v cases t) new ns' :=
  .of_stages hhot rfl rfl rfl hkind <| h.stages.mono fun S hstages w st hS hready => by
    obtain ⟨_, hsuits, harms⟩ := everywhere_switch.1 ((inExpr_iff rfl).1 hready.suits)
    have hselector := hready.turn hsuits (get?_selector s selector cases t) rfl .selector
      (S.view.realm.refl w) (.refl st)
    refine Staging.Staged.congr ((hstages w st hS hselector).1.finish
      (g := yieldOn (fully S.machine) S.frame s cases) (fun a _ h₀ w₁ hlater hval => ?_)
      fun hs a _ => stays_yieldOn (fun b hb l hl => ?_) s a)
      (agree_switch _ _ s selector cases t st) (agree_switch _ _ s v cases t)
    · refine (hS.alike h₀).yieldOn (hS.here (S.view.realm.here_later hlater hready.here))
        (fun b hb => ?_) hval
      rw [hS.scope]
      exact (harms b hb).imp fun _ hn => hn.admits w₁ _
    · obtain ⟨i, hi⟩ := List.mem_iff_getElem?.1 hb
      have harm := ((hready.accounted hs).child (get?_arm s hi) rfl).cold (hcases i b hi)
      exact stays_evalFully (hS.stays hs) (harm.listed (lists_labels b) (fun _ => rfl) l hl)

/-! ## Calls and elements -/

/-- A site whose receiver has been hoisted. -/
theorem hoists_site {receiver r : Expr} {k : Kind} (hhot : m.isHot = true)
    (hkind : m.kind? = some k) (hresolve : o.registry.resolve receiver = some k)
    (h : Hoists o c (m.under .receiver) ns receiver r new ns₁) :
    Hoists o c m ns (.call s receiver o.sentinel [] t)
      (k.extract (.ident s ns₁.fresh.1 receiver.staticType) s t)
      (new ++ guardStatements c.exit k s ns₁.fresh.1 receiver.staticType r) ns₁.fresh.2 where
  dead h := by simp [hhot] at h
  atom h := by rcases h with h | h <;> cases h
  cold := nofun
  placed _ _ _ _ _ := nofun
  stages := (h.stages.trans (.fresh fun _ hhidden => hhidden)).mono
    fun S ⟨hstages, hhidden⟩ w st hS hready => by
    obtain ⟨_, hsuits, _⟩ := everywhere_call.1 ((inExpr_iff rfl).1 hready.suits)
    have hreceiver := hready.turn hsuits (get?_receiver s receiver o.sentinel [] t) rfl .receiver
      (S.view.realm.refl w) (.refl st)
    have hfilled : r.isMissing = false := by
      cases r with
      | missing =>
          obtain ⟨rfl, _⟩ := h.atom (.inr rfl)
          cases hresolve
      | _ => rfl
    obtain ⟨hkept, hseen, hvisible⟩ := hS.classes receiver k hresolve
    have hsite := (hstages w st hS hreceiver).1.site hS.scope hfilled hhidden
      (fun hdrawn => ns₁.fresh_not_drawn (h.stages.drawn hdrawn)) ns₁.fresh_drawn hS.native.native
      (hS.native.legible receiver k hresolve)
      (fun h₀ _ _ _ hsees => (View.Sees.get?_kept hsees hkept hvisible).trans hseen)
      (fun a st₁ ha => hready.served [] k (Marks.mem_sites_of_kind? hkind) s receiver o.sentinel []
        t st .here a st₁ ha) s receiver.staticType t
    rw [hS.exit, hS.native.sentinel] at hsite
    exact ⟨hsite.staged, fun _ => hsite⟩

theorem hoists_call {receiver r : Expr} {name : String} {args vs : List Expr}
    (hhot : m.isHot = true) (hkind : m.kind? = none)
    (hr : Settles o c (m.under .receiver) (m.isHotFrom .arg 0 args.length) ns receiver r new ns₁)
    (hargs : HoistsAll o c m .arg 0 false ns₁ args vs more ns') :
    Hoists o c m ns (.call s receiver name args t) (.call s r name vs t) (new ++ more) ns' :=
  .of_stages hhot rfl rfl rfl hkind <| (hr.stages.trans hargs.stages).mono
    fun S ⟨hfirst, hsecond⟩ w st hS hready => by
    obtain ⟨_, hsuitsr, hsuitsa⟩ := everywhere_call.1 ((inExpr_iff rfl).1 hready.suits)
    have hreceiver := hready.turn hsuitsr (get?_receiver s receiver name args t) rfl .receiver
      (S.view.realm.refl w) (.refl st)
    obtain ⟨⟨_, hstaged⟩, hsettled⟩ := hfirst w st hS hreceiver
    refine Staging.Staged.congr (hstaged.next (fun hlater => (hsettled hlater).2)
      (fun hcold => (hargs.dead (by simp [hcold])).2) (fun _ => hr.stages.drawn)
      fun a w₁ st₁ ha hlater hcallable => ?_) (agree_call _ _ s receiver name args t st)
      (agree_call _ _ s r name vs t)
    have hall := hready.list hsuitsa (lists_args s receiver name args t) (fun _ => rfl)
      (fun _ _ _ _ hd has => .arg ha hd has) hlater (.called hS.native.hosts S.frame ha)
    refine (hsecond w₁ st₁ hS hall).1.finish (fun as _ h₀ w₂ hlater₂ hvals => ?_)
      fun hs as ⟨_, has⟩ => stays_finish (hS.stays hs)
        (show isUnwrap S.machine.sentinel (.expr (.call s receiver name args t)) = false from ?_)
        (fun hmissing => ?_) (evalAll_length has)
    · exact (hS.alike h₀).calling hS.native.hosts (hcallable.later hlater₂) hvals
    · -- a call of the sentinel would be a marked site
      refine Bool.eq_false_iff.2 fun hunwrap => ?_
      obtain ⟨k, hk⟩ := hready.accounted hs [] _ rfl (by simp) hunwrap
      exact Marks.not_mem_sites_of_kind? hkind k hk
    · subst hmissing
      exact callee_missing ha

theorem hoists_index {array position a p : Expr} (hhot : m.isHot = true) (hkind : m.kind? = none)
    (ha : Settles o c (m.under .array) (m.isHotAt .position) ns array a new ns₁)
    (hp : Hoists o c (m.under .position) ns₁ position p more ns') :
    Hoists o c m ns (.index s array position t) (.index s a p t) (new ++ more) ns' := by
  have hplaced : Prepares ns ns' fun S => ∀ w st, S.Fits o c ->
      S.Ready c w m (.index s array position t) st ->
      S.Staged ns w (evalBoth S.machine S.frame array position) st (new ++ more)
        (evalBoth S.machine S.frame a p) S.view.realm.Pair :=
    (ha.stages.trans hp.stages).mono fun S ⟨hfirst, hsecond⟩ w st hS hready => by
      obtain ⟨_, hsuitsa, hsuitsp⟩ := everywhere_index.1 ((inExpr_iff rfl).1 hready.suits)
      have harray := hready.turn hsuitsa (get?_array s array position t) rfl .array
        (S.view.realm.refl w) (.refl st)
      obtain ⟨⟨hstaged, _⟩, hsettled⟩ := hfirst w st hS harray
      refine hstaged.next (fun hlater => (hsettled hlater).1)
        (fun hcold => (hp.dead ((Marks.isHot_under m .position).trans hcold)).2)
        (fun _ => ha.stages.drawn) fun u w₁ st₁ hu hlater hval => ?_
      have hposition := hready.turn hsuitsp (get?_position s array position t) rfl (.position hu)
        hlater (.evaluated hS.native.hosts S.frame hu)
      refine (hsecond w₁ st₁ hS hposition).1.finish (fun i _ h₀ w₂ hlater₂ hi => ?_)
        fun _ _ _ => stays_pure _
      exact (S.view.having h₀).comparison.pure (Q := S.view.realm.Pair) ⟨hval.later hlater₂, hi⟩
  exact {
    dead := fun h => by simp [hhot] at h
    atom := fun h => by rcases h with h | h <;> cases h
    cold := nofun
    stages := hplaced.mono fun S hstages w st hS hready => by
      refine ⟨?_, fun hsome => by simp [hkind] at hsome⟩
      refine Staging.Staged.congr ((hstages w st hS hready).onBoth (fun u i h₀ w₁ _ hval _ => ?_)
        stays_elementValue) (agree_index _ _ s array position t st) (agree_index _ _ s a p t)
      exact Logic.Alike.elementValue (L := (S.view.having h₀).comparison) hval
    placed := fun _ s' array' position' t' heq => by
      cases heq
      exact ⟨a, p, rfl, hplaced⟩ }

end Constructs

end Eval

end EarlyExit
