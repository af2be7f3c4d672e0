import EarlyExit.Proofs.Eval.Hoisted

/-!
# Hoisting assignments

An assignment evaluates the operands of its target first, and a compound one reads the target
before it evaluates its value.  The operands are settled; what is read is bound to a variable
if the value may write it, and is otherwise read in place, as it is then watched while the
value is evaluated.
-/

namespace EarlyExit.Eval

open Node Expansion Run Realm

/-! ## Assignments of what has been read -/

section Equations

variable (m : Machine) (f : Frame) (s : Span)

theorem agree_setIdent {op : Operator} (hop : op.isCompound = false) (s' : Span) (x t : String)
    (value : Expr) : Agree (evalFully m f (.assign s (.ident s' x t) op value))
      (evalFully m f value >>= putVariable f s' x) := by
  have hnone : op.applied? = none := by simpa [Operator.isCompound] using hop
  have hassign := agree_assignIdent m f s s' x t op value
  simpa [oldValue, hop, combine, hnone] using hassign

theorem agree_setIndex {op : Operator} (hop : op.isCompound = false) (s' : Span)
    (array position : Expr) (t : String) (value : Expr) :
    Agree (evalFully m f (.assign s (.index s' array position t) op value))
      (evalBoth m f array position >>= fun x => evalFully m f value >>= putElement x.1 x.2) := by
  have hnone : op.applied? = none := by simpa [Operator.isCompound] using hop
  have hamend : amendElement (fully m) f op value = fun a i =>
      evalFully m f value >>= putElement a i := by
    funext a i
    simp [amendElement, oldElement, hop, combine, hnone, fully]
  have hassign := agree_assignIndex m f s s' array position t op value
  rw [hamend, ← evalBoth_bind] at hassign
  exact hassign

/-- A variable that is read into another before the value is evaluated. -/
theorem agree_storeIdent {applied : Operator} (happlied : applied.isShortCircuit = false)
    (s' : Span) (x t : String) (old value : Expr) :
    Agree (evalFully m f (.assign s (.ident s' x t) .assign (.binary s old applied value)))
      (evalFully m f old >>= fun a => evalFully m f value >>= fun b =>
        binary applied a b >>= putVariable f s' x) := by
  have hbinary := (agree_binary m f s happlied old value).bind fun b => .refl (putVariable f s' x b)
  simp only [bind_assoc] at hbinary
  exact (agree_setIdent m f s rfl s' x t _).trans hbinary

/-- An element that is read into a variable before the value is evaluated. -/
theorem agree_storeIndex {applied : Operator} (happlied : applied.isShortCircuit = false)
    (s' : Span) (array position : Expr) (t : String) (old value : Expr) :
    Agree (evalFully m f
        (.assign s (.index s' array position t) .assign (.binary s old applied value)))
      (evalBoth m f array position >>= fun x => evalFully m f old >>= fun a =>
        evalFully m f value >>= fun b => binary applied a b >>= putElement x.1 x.2) := by
  refine (agree_setIndex m f s rfl s' array position t _).trans (Agree.bind (.refl _) fun x => ?_)
  have hbinary := (agree_binary m f s happlied old value).bind fun b => .refl (putElement x.1 x.2 b)
  simp only [bind_assoc] at hbinary
  exact hbinary

/-- A compound assignment to a variable. -/
theorem agree_amendIdent {op applied : Operator} (hop : op.applied? = some applied) (s' : Span)
    (x t : String) (value : Expr) :
    Agree (evalFully m f (.assign s (.ident s' x t) op value))
      (evalFully m f (.ident s' x t) >>= fun a => evalFully m f value >>= fun b =>
        binary applied a b >>= putVariable f s' x) := by
  have hcompound : op.isCompound = true := by simp [Operator.isCompound, hop]
  have hassign := agree_assignIdent m f s s' x t op value
  simp only [oldValue, hcompound, if_true, combine, hop] at hassign
  exact hassign.trans (Agree.bind (evalFully_step m f (.ident s' x t)).symm fun _ => .refl _)

/-- A compound assignment to an element. -/
theorem agree_amendIndex {op applied : Operator} (hop : op.applied? = some applied) (s' : Span)
    (array position : Expr) (t : String) (value : Expr) :
    Agree (evalFully m f (.assign s (.index s' array position t) op value))
      (evalBoth m f array position >>= fun x => elementValue x.1 x.2 >>= fun a =>
        evalFully m f value >>= fun b => binary applied a b >>= putElement x.1 x.2) := by
  have hcompound : op.isCompound = true := by simp [Operator.isCompound, hop]
  have hamend : amendElement (fully m) f op value = fun a i => elementValue a i >>= fun old =>
      evalFully m f value >>= fun b => binary applied old b >>= putElement a i := by
    funext a i
    simp [amendElement, oldElement, elementValue, hcompound, combine, hop, fully]
  have hassign := agree_assignIndex m f s s' array position t op value
  rw [hamend, ← evalBoth_bind] at hassign
  exact hassign

end Equations

theorem isShortCircuit_applied {op applied : Operator} (h : op.applied? = some applied) :
    applied.isShortCircuit = false := by
  cases op <;> cases h <;> rfl

theorem oldValue_amend {op applied : Operator} (hop : op.applied? = some applied) {m : Machine}
    {f : Frame} {s : Span} {x t : String} {a : Value} {st st₁ : Store}
    (h : evalFully m f (.ident s x t) st = .ok a st₁) : oldValue f s x op st = .ok a st₁ := by
  have hcompound : op.isCompound = true := by simp [Operator.isCompound, hop]
  rw [oldValue, if_pos hcompound]
  exact (h ▸ (evalFully_step m f (.ident s x t) st)).symm.eq_ended (ok_ne_outOfFuel a)

theorem oldElement_amend {op applied : Operator} (hop : op.applied? = some applied) (a i : Value) :
    oldElement a i op = elementValue a i := by
  simp [oldElement, Operator.isCompound, hop, elementValue]

theorem evalBoth_ok {m : Machine} {f : Frame} {array position : Expr} {x : Value × Value}
    {st st₂ : Store} (h : evalBoth m f array position st = .ok x st₂) : ∃ st₁,
      evalFully m f array st = .ok x.1 st₁ ∧ evalFully m f position st₁ = .ok x.2 st₂ := by
  obtain ⟨ending, st₁, harray⟩ := exists_ended (evalFully m f array st)
  rw [evalBoth, bind_ended harray] at h
  cases ending with
  | error stop => cases h
  | ok a =>
      have h : (evalFully m f position >>= fun i => pure (a, i)) st₁ = .ok x st₂ := h
      obtain ⟨ending, st₃, hposition⟩ := exists_ended (evalFully m f position st₁)
      rw [bind_ended hposition] at h
      cases ending with
      | error stop => cases h
      | ok i =>
          cases h
          exact ⟨st₁, harray, hposition⟩

theorem writtenNames_ident (s : Span) (x t : String) : writtenNames (.ident s x t) = [] := by
  rw [writtenNames, nodes_eq]
  rfl

/-! ## Variables -/

namespace Staging

variable {o : Options} {c : Setting} {S : Staging} {w : Known} {m : Marks} {e : Expr} {st : Store}
  {x : String}

/-- The stages with one more variable watched. -/
def besides (S : Staging) (x : String) (st : Store) (hx : S.view.guarded x) : Staging :=
  S.keeping (fun y => S.view.kept y ∨ y = x) (st.get? S.view.home) fun y hy =>
    hy.elim (S.view.kept_guarded y) fun heq => heq ▸ hx

/-- What is staged while one more variable is watched. -/
theorem Staged.of_besides {ns : Names} {y z : Run (Value × Value)} {ts : List Stmt}
    (hx : S.view.guarded x)
    (h : (∀ y, S.view.kept y -> st.get? S.view.home y = S.view.seen y) ->
      (S.besides x st hx).Staged ns w y st ts z (S.besides x st hx).view.realm.Pair) :
    S.Staged ns w y st ts z S.view.realm.Pair :=
  .of_keeping (fun _ hy => .inl hy) (fun _ _ ha => ⟨val_of_keeping ha.1, val_of_keeping ha.2⟩) h

theorem Fits.besides (hS : S.Fits o c) (hx : S.view.guarded x)
    (hseen : ∀ y, S.view.kept y -> st.get? S.view.home y = S.view.seen y) :
    (S.besides x st hx).Fits o c where
  native := hS.native
  scope := hS.scope
  exit := hS.exit
  classes e k h := by
    obtain ⟨hkept, hnone, hvisible⟩ := hS.classes e k h
    exact ⟨.inl hkept, (hseen _ hkept).trans hnone, hvisible⟩
  stays := hS.stays

theorem Suits.besides {n : Node} (h : S.Suits c n) (hx : S.view.guarded x)
    (hkeeps : writtenName? n ≠ some x)
    (hseen : ∀ y, S.view.kept y -> st.get? S.view.home y = S.view.seen y) :
    (S.besides x st hx).Suits c n where
  read y hy := ⟨(h.read y hy).1, fun hwritten => .inl ((h.read y hy).2 hwritten)⟩
  write y hy := by
    refine ⟨(h.write y hy).1, fun hkept => ?_⟩
    rcases hkept with hkept | rfl
    · exact (hseen y hkept).trans ((h.write y hy).2 hkept)
    · exact absurd hy hkeeps
  amended := h.amended
  plain := h.plain
  array := h.array

theorem Ready.besides {st₁ : Store} (h : S.Ready c w m e st₁) (hx : S.view.guarded x)
    (hkeeps : x ∉ writtenNames e)
    (hseen : ∀ y, S.view.kept y -> st.get? S.view.home y = S.view.seen y) :
    (S.besides x st hx).Ready c w m e st₁ where
  suits n hn d hd := by
    refine (h.suits n hn d hd).besides hx (fun hwritten => hkeeps ?_) hseen
    cases hmissing : e.isMissing with
    | false =>
        rw [Node.ofExpr?_of_filled hmissing] at hn
        cases hn
        exact List.mem_filterMap.2 ⟨d, hd, hwritten⟩
    | true =>
        obtain rfl := Expr.eq_missing hmissing
        cases hn
  served := h.served
  accounted := h.accounted
  here := h.here
  bound := h.bound

end Staging

section Assignments

variable {o : Options} {c : Setting} {m : Marks} {ns ns₁ ns₂ ns' : Names} {value v : Expr}
  {new more rest : List Stmt} {s s' : Span} {x t : String} {op applied : Operator}

/-- What goes on once the value of a compound assignment to a variable is known. -/
theorem Staging.matches_amended {S : Staging} (hS : S.Fits o c) {w : Known} {st : Store}
    (hready : S.Ready c w m (.assign s (.ident s' x t) op value) st) {a b : Value} {w₁ : Known}
    (hlater : S.view.realm.Later w w₁) (ha : S.view.realm.Val w₁ a) (hb : S.view.realm.Val w₁ b)
    (h₀ : String -> Option Value) : (S.view.having h₀).Matches w₁
      (fun _ => binary applied a b >>= putVariable S.frame s' x)
      (binary applied a b >>= putVariable S.frame s' x) S.view.realm.Val := by
  refine Logic.bind (L := (S.view.having h₀).comparison) (Logic.binary ha hb)
    fun w₂ u hlater₂ hu => Logic.Alike.putVariable ?_ ?_ hu
  · exact hS.here (S.view.realm.here_later (S.view.realm.trans hlater hlater₂) hready.here)
  · exact (hS.code_frame hready.suits w₂).self.writes x rfl

/-- Nothing is read before the value is evaluated. -/
theorem hoists_setIdent (hhot : m.isHot = true) (hkind : m.kind? = none)
    (hop : op.isCompound = false) (h : Hoists o c (m.under .value) ns value v new ns') :
    Hoists o c m ns (.assign s (.ident s' x t) op value) (.assign s (.ident s' x t) op v) new ns' :=
  .of_stages hhot rfl rfl rfl hkind <| h.stages.mono fun S hstages w st hS hready => by
    obtain ⟨_, _, hsuits⟩ := everywhere_assign.1 ((inExpr_iff rfl).1 hready.suits)
    have hold : oldValue S.frame s' x op st = .ok .null st := by
      rw [oldValue, if_neg (by simp [hop])]
      rfl
    have hvalue := hready.turn hsuits (get?_value s (.ident s' x t) op value) rfl (.assigned hold)
      (S.view.realm.refl w) (.refl st)
    refine Staging.Staged.congr ((hstages w st hS hvalue).1.finish (g := putVariable S.frame s' x)
      (fun b _ h₀ w₁ hlater hb => ?_) fun _ b _ => stays_putVariable _ _ _ b)
      (agree_setIdent _ _ s hop s' x t value st) (agree_setIdent _ _ s hop s' x t v)
    exact Logic.Alike.putVariable (L := (S.view.having h₀).comparison)
      (hS.here (S.view.realm.here_later hlater hready.here))
      ((hS.code_frame hready.suits w₁).self.writes x rfl) hb

/-- The variable is read into another one before the value, which may write it. -/
theorem hoists_storeIdent (hhot : m.isHot = true) (hkind : m.kind? = none)
    (hop : op.applied? = some applied) (hcold : (m.under .target).sites = [])
    (h : Hoists o c (m.under .value) ns.fresh.2 value v more ns') :
    Hoists o c m ns (.assign s (.ident s' x t) op value)
      (.assign s (.ident s' x t) .assign (.binary s (.ident s' ns.fresh.1 t) applied v))
      ([.var s' ns.fresh.1 t (.ident s' x t)] ++ more) ns' :=
  .of_stages hhot rfl rfl rfl hkind <|
    (Prepares.trans (.fresh fun _ hhidden => hhidden) h.stages).mono
    fun S ⟨hhidden, hstages⟩ w st hS hready => by
    have hshort := isShortCircuit_applied hop
    obtain ⟨_, hsuitst, hsuitsv⟩ := everywhere_assign.1 ((inExpr_iff rfl).1 hready.suits)
    have htarget := hready.still hsuitst (get?_assignTarget s (.ident s' x t) op value) rfl hcold
      (S.view.realm.refl w) (.refl st)
    have hread : S.Settled ns ns.fresh.2 w (evalFully S.machine S.frame (.ident s' x t)) st _
        (evalFully S.machine S.frame (.ident s' ns.fresh.1 t)) S.view.realm.Val := fun h₀ =>
      (htarget.cold hS hcold h₀).spilled hS.scope rfl hhidden ns.fresh_not_drawn ns.fresh_drawn s' t
    refine Staging.Staged.congr (fun h₀ => (hread h₀).bind (fun _ hx => hx.fresh)
      fun a h₁ w₁ st₁ ha hlater hval _ => ?_) (agree_amendIdent _ _ s hop s' x t value st)
      (agree_storeIdent _ _ s hshort s' x t (.ident s' ns.fresh.1 t) v)
    have hvalue := hready.turn hsuitsv (get?_value s (.ident s' x t) op value) rfl
      (.assigned (oldValue_amend hop ha)) hlater (.evaluated hS.native.hosts S.frame ha)
    exact (hstages w₁ st₁ hS hvalue).1.finish (fun b _ h₀ w₂ hlater₂ hb =>
      Staging.matches_amended hS hready (S.view.realm.trans hlater hlater₂) (hval.later hlater₂) hb h₀)
      (fun _ b _ => (stays_binary applied a b).bind fun u => stays_putVariable _ _ _ u) h₁

/-- The variable is read in place, as the value does not write it. -/
theorem hoists_amendIdent (hhot : m.isHot = true) (hkind : m.kind? = none)
    (hop : op.applied? = some applied) (hcold : (m.under .target).sites = [])
    (hkeeps : x ∉ writtenNames value) (h : Hoists o c (m.under .value) ns value v new ns') :
    Hoists o c m ns (.assign s (.ident s' x t) op value) (.assign s (.ident s' x t) op v) new ns' :=
  .of_stages hhot rfl rfl rfl hkind <| h.stages.among fun S hamong w st hS hready => by
    obtain ⟨hself, hsuitst, hsuitsv⟩ := everywhere_assign.1 ((inExpr_iff rfl).1 hready.suits)
    have hguard : S.view.guarded x := hself.amended x (by
      simp [amendedName?, Operator.isCompound, hop, hkeeps])
    have hpair : S.Staged ns w (evalBoth S.machine S.frame (.ident s' x t) value) st new
        (evalBoth S.machine S.frame (.ident s' x t) v) S.view.realm.Pair := by
      refine Staging.Staged.of_besides hguard fun hseen => ?_
      have hfits := hS.besides hguard hseen
      have htarget := (hready.still hsuitst (get?_assignTarget s (.ident s' x t) op value) rfl hcold
        (S.view.realm.refl w) (.refl st)).besides hguard (by simp [writtenNames_ident]) hseen
      have hread : (S.besides x st hguard).Settled ns ns w _ st [] _ _ :=
        (htarget.watched hfits hcold (.inr rfl)).1
      refine fun h₀ => (hread h₀).bind (fun _ hx => hx) fun a h₁ w₁ st₁ ha hlater hval _ => ?_
      have hvalue := (hready.turn hsuitsv (get?_value s (.ident s' x t) op value) rfl
        (.assigned (oldValue_amend hop ha)) hlater (.evaluated hS.native.hosts S.frame ha)).besides
        hguard hkeeps hseen
      refine (hamong (S.besides x st hguard) rfl w₁ st₁ hfits hvalue).1.finish
        (fun b _ h₀ w₂ hlater₂ hb => ?_) (fun _ _ _ => stays_pure _) h₁
      exact ((S.besides x st hguard).view.having h₀).comparison.pure
        (Q := (S.besides x st hguard).view.realm.Pair) ⟨hval.later hlater₂, hb⟩
    exact Staging.Staged.congr (hpair.onBoth
      (fun a b h₀ w₁ hlater ha hb => Staging.matches_amended hS hready hlater ha hb h₀)
      fun a b => (stays_binary applied a b).bind fun u => stays_putVariable _ _ _ u)
      (agree_amendIdent _ _ s hop s' x t value st) (agree_amendIdent _ _ s hop s' x t v)

/-! ## Elements -/

theorem settles_settle {e : Expr} (hcold : m.sites = []) (hhot : m.isHot = false) :
    Emits ns (settle c.written e) fun v new ns' => Settles o c m true ns e v new ns' := by
  have hrefl : Hoists o c m ns e e [] ns := .refl hcold hhot
  have h := hrefl.operand true
  simpa [Setting.operand, kind?_of_cold hcold] using h

/-- The operands of a target are settled together. -/
theorem Settles.both {m' : Marks} {d e d' e' : Expr} (hd : Settles o c m true ns d d' new ns₁)
    (he : Settles o c m' true ns₁ e e' more ns₂) :
    Prepares ns ns₂ fun S => ∀ w st, S.Fits o c -> S.Ready c w m d st ->
      (∀ w₁ st₁, S.view.realm.Later w w₁ -> Grows st st₁ -> S.Ready c w₁ m' e st₁) ->
      S.Settled ns ns₂ w (evalBoth S.machine S.frame d e) st (new ++ more)
        (evalBoth S.machine S.frame d' e') S.view.realm.Pair :=
  (hd.stages.trans he.stages).mono fun S ⟨hfirst, hsecond⟩ w st hS hready hnext =>
    ((hfirst w st hS hready).2 rfl).1.pair (fun _ => hd.stages.drawn) (fun _ => he.stages.drawn)
      fun _ h₁ w₁ st₁ ha hlater hval _ =>
        ((hsecond w₁ st₁ hS
          (hnext w₁ st₁ hlater (.evaluated hS.native.hosts S.frame ha))).2 rfl).1.map
          (fun _ _ hlater₂ hb => ⟨hval.later hlater₂, hb⟩) h₁

section Elements

variable {S : Staging} {w w₁ : Known} {st st₁ : Store} {array position a p : Expr}

theorem Staging.Ready.targetArray
    (h : S.Ready c w m (.assign s (.index s' array position t) op value) st)
    (hcold : (m.under .target).sites = []) :
    S.Ready c w ((m.under .target).under .array) array st := by
  obtain ⟨_, hsuits, _⟩ := everywhere_assign.1 ((inExpr_iff rfl).1 h.suits)
  obtain ⟨_, harray, _⟩ := everywhere_index.1 ((inExpr_iff rfl).1 hsuits)
  have htarget := h.still hsuits (get?_assignTarget s (.index s' array position t) op value) rfl hcold
    (S.view.realm.refl w) (.refl st)
  exact htarget.still harray (get?_array s' array position t) rfl (Marks.sites_under hcold _)
    (S.view.realm.refl w) (.refl st)

theorem Staging.Ready.targetPosition
    (h : S.Ready c w m (.assign s (.index s' array position t) op value) st)
    (hcold : (m.under .target).sites = []) (hlater : S.view.realm.Later w w₁)
    (hgrows : Grows st st₁) :
    S.Ready c w₁ ((m.under .target).under .position) position st₁ := by
  obtain ⟨_, hsuits, _⟩ := everywhere_assign.1 ((inExpr_iff rfl).1 h.suits)
  obtain ⟨_, _, hposition⟩ := everywhere_index.1 ((inExpr_iff rfl).1 hsuits)
  have htarget := h.still hsuits (get?_assignTarget s (.index s' array position t) op value) rfl hcold
    (S.view.realm.refl w) (.refl st)
  exact htarget.still hposition (get?_position s' array position t) rfl (Marks.sites_under hcold _)
    hlater hgrows

/-- The value is evaluated once the operands of the target and what it holds are known. -/
theorem Staging.Ready.amended {x : Value × Value} {old : Value} {st₂ : Store} {w₂ : Known}
    (hS : S.Fits o c) (h : S.Ready c w m (.assign s (.index s' array position t) op value) st)
    (hx : evalBoth S.machine S.frame array position st = .ok x st₁)
    (hold : oldElement x.1 x.2 op st₁ = .ok old st₂) (hlater : S.view.realm.Later w w₂)
    (hgrows : Grows st₁ st₂) : S.Ready c w₂ (m.under .value) value st₂ := by
  obtain ⟨_, _, hsuits⟩ := everywhere_assign.1 ((inExpr_iff rfl).1 h.suits)
  obtain ⟨st₀, harray, hposition⟩ := evalBoth_ok hx
  exact h.turn hsuits (get?_value s (.index s' array position t) op value) rfl
    (.amended harray hposition hold) hlater
    (((Grows.evaluated hS.native.hosts S.frame harray).trans
      (.evaluated hS.native.hosts S.frame hposition)).trans hgrows)

end Elements

theorem Grows.element {a i v : Value} {st st₁ : Store} (h : elementValue a i st = .ok v st₁) :
    Grows st st₁ := by
  have hgrowing : growth.Keeps (elementValue a i) :=
    (Passage.keeps_element a i).bind fun _ => .of_scopes fun _ => ⟨rfl, rfl⟩
  have hgrows := hgrowing st
  rwa [h] at hgrows

/-- An element that is not read is assigned once its operands have been settled. -/
theorem hoists_setIndex {array position a p : Expr} (hhot : m.isHot = true) (hkind : m.kind? = none)
    (hop : op.isCompound = false) (hcold : (m.under .target).sites = [])
    (ha : Settles o c ((m.under .target).under .array) true ns array a new ns₁)
    (hp : Settles o c ((m.under .target).under .position) true ns₁ position p more ns₂)
    (hv : Hoists o c (m.under .value) ns₂ value v rest ns') :
    Hoists o c m ns (.assign s (.index s' array position t) op value)
      (.assign s (.index s' a p t) op v) (new ++ more ++ rest) ns' :=
  .of_stages hhot rfl rfl rfl hkind <| ((ha.both hp).trans hv.stages).mono
    fun S ⟨hboth, hstages⟩ w st hS hready => by
    have hsettled := hboth w st hS (hready.targetArray hcold) fun _ _ => hready.targetPosition hcold
    refine Staging.Staged.congr (fun h₀ => (hsettled h₀).bind (fun _ => (ha.both hp).drawn)
      fun x h₁ w₁ st₁ hx hlater hpair _ => ?_)
      (agree_setIndex _ _ s hop s' array position t value st) (agree_setIndex _ _ s hop s' a p t v)
    have hold : oldElement x.1 x.2 op st₁ = .ok .null st₁ := by
      rw [oldElement, if_neg (by simp [hop])]
      rfl
    have hvalue := hready.amended hS hx hold hlater (.refl st₁)
    refine (hstages w₁ st₁ hS hvalue).1.finish (fun b _ h₀ w₂ hlater₂ hb => ?_)
      (fun _ b _ => stays_putElement _ _ b) h₁
    exact Logic.Alike.putElement (L := (S.view.having h₀).comparison) (hpair.1.later hlater₂) hb

/-- An element is read into a variable once its operands have been settled. -/
theorem hoists_storeIndex {array position a p : Expr} (hhot : m.isHot = true)
    (hkind : m.kind? = none) (hop : op.applied? = some applied)
    (hcold : (m.under .target).sites = [])
    (ha : Settles o c ((m.under .target).under .array) true ns array a new ns₁)
    (hp : Settles o c ((m.under .target).under .position) true ns₁ position p more ns₂)
    (hv : Hoists o c (m.under .value) ns₂.fresh.2 value v rest ns') :
    Hoists o c m ns (.assign s (.index s' array position t) op value)
      (.assign s (.index s' a p t) .assign (.binary s (.ident s' ns₂.fresh.1 t) applied v))
      (new ++ more ++ ([.var s' ns₂.fresh.1 t (.index s' a p t)] ++ rest)) ns' :=
  .of_stages hhot rfl rfl rfl hkind <|
    ((ha.both hp).trans (.trans (.fresh fun _ hhidden => hhidden) hv.stages)).mono
    fun S ⟨hboth, hhidden, hstages⟩ w st hS hready => by
    have hshort := isShortCircuit_applied hop
    have hsettled := hboth w st hS (hready.targetArray hcold) fun _ _ => hready.targetPosition hcold
    refine Staging.Staged.congr (fun h₀ => (hsettled h₀).bind (fun _ => (ha.both hp).drawn)
      fun x h₁ w₁ st₁ hx hlater hpair hreads => ?_)
      (agree_amendIndex _ _ s hop s' array position t value st)
      (agree_storeIndex _ _ s hshort s' a p t (.ident s' ns₂.fresh.1 t) v)
    -- the element that is left reads the operands as they have been settled
    have hself : S.StagedAt ns₂ h₁ w₁ (elementValue x.1 x.2) st₁ []
        (evalBoth S.machine S.frame a p >>= fun x => elementValue x.1 x.2) S.view.realm.Val := by
      refine hreads.staged (g := fun x => elementValue x.1 x.2) (fun w₂ hlater₂ => ?_)
        fun _ => stays_elementValue _ _
      exact Logic.Alike.elementValue (L := (S.view.having h₁).comparison) (hpair.1.later hlater₂)
    rw [evalBoth_bind] at hself
    have hread := (hself.congr (.refl _) (agree_index _ _ s' a p t)).spilled hS.scope rfl hhidden
      ns₂.fresh_not_drawn ns₂.fresh_drawn s' t
    refine hread.bind (fun _ hz => hz.fresh) fun old h₂ w₂ st₂ hold hlater₂ hval _ => ?_
    have hvalue := hready.amended hS hx ((congrFun (oldElement_amend hop x.1 x.2) st₁).trans hold)
      (S.view.realm.trans hlater hlater₂) (.element hold)
    refine (hstages w₂ st₂ hS hvalue).1.finish (fun b _ h₀ w₃ hlater₃ hb => ?_)
      (fun _ b _ => (stays_binary applied old b).bind fun u => stays_putElement _ _ u) h₂
    refine Logic.bind (L := (S.view.having h₀).comparison) (Logic.binary (hval.later hlater₃) hb)
      fun w₄ u hlater₄ hu => Logic.Alike.putElement ?_ hu
    exact hpair.1.later (S.view.realm.trans hlater₂ (S.view.realm.trans hlater₃ hlater₄))

/-! ## All targets -/

/-- Nothing is asked of an assignment that the interpreter refuses. -/
theorem hoists_refused {target : Expr} (hhot : m.isHot = true) (hkind : m.kind? = none)
    (hfails : ∀ r f, assign r f s target op value =
      Run.fail (.cannotAssign s (Node.expr target).qualifiedTypeName))
    (hv : isAtom v = false) (hns : Prepares ns ns' fun _ => True) :
    Hoists o c m ns (.assign s target op value) v new ns' :=
  .of_stages hhot rfl hv rfl hkind <| hns.mono fun S _ w st _ _ => by
    have hstep : Agree (evalFully S.machine S.frame (.assign s target op value))
        (assign (fully S.machine) S.frame s target op value) :=
      evalFully_step S.machine S.frame (.assign s target op value)
    rw [hfails] at hstep
    exact Staging.staged_failed (hstep st)

theorem prepares_settle (written : List String) (e : Expr) :
    Emits ns (settle written e) fun _ _ ns' => Prepares ns ns' fun _ => True := by
  unfold settle
  split
  · exact .pure (.refl fun _ => trivial)
  · exact .spill (.fresh fun _ _ => trivial)

theorem prepares_target (target : Expr) :
    Emits ns (c.target target) fun _ _ ns' => Prepares ns ns' fun _ => True := by
  cases target with
  | index s array position t =>
      refine .bind (prepares_settle c.written array) fun a new ns₁ ha => ?_
      refine .bind (prepares_settle c.written position) fun p more ns₂ hp => ?_
      exact .pure ((ha.trans hp).mono fun _ _ => trivial)
  | field s target name t =>
      exact .bind (prepares_settle c.written target) fun a new ns₁ ha => .pure ha
  | _ => exact .pure (.refl fun _ => trivial)

theorem emits_assign {stays : Span -> Kind -> Prop} {target : Expr}
    (hm : Selected o stays (.expr (.assign s target op value)) m) (hhot : m.isHot = true)
    (hvalue : ∀ ns, Emits ns (hoist c (m.under .value) value) fun v new ns' =>
      Hoists o c (m.under .value) ns value v new ns') :
    Emits ns (hoist c m (.assign s target op value)) fun v new ns' =>
      Hoists o c m ns (.assign s target op value) v new ns' := by
  have hkind := hm.kind?_eq_none rfl
  have hcold := hm.under_barrier .target (by simp [shape, Shape.passes])
  have hvaluehot : m.isHotAt .value = true := by
    obtain ⟨slot, d, hslot, hsome⟩ := hm.exists_under rfl hhot
    have hvalue : slot = .value := by
      simp only [slots, exprSlots, List.mem_append, mem_single] at hslot
      rcases hslot with ⟨rfl, _⟩ | ⟨rfl, _⟩
      · exact absurd hcold hsome
      · rfl
    subst hvalue
    exact hm.isHotAt (get?_eq_some.2 hslot) hsome
  rw [hoist, if_neg (by simp [hhot])]
  cases target with
  | ident s' x t =>
      simp only [Setting.target, pure_bind]
      split
      next applied hop _ =>
        refine .bind (P := fun old new ns' => old = .ident s' ns.fresh.1 t ∧
          new = [.var s' ns.fresh.1 t (.ident s' x t)] ∧ ns' = ns.fresh.2) (.spill ⟨rfl, rfl, rfl⟩) ?_
        rintro _ _ _ ⟨rfl, rfl, rfl⟩
        refine .bind (hvalue _) fun v more ns' hv => .pure ?_
        rw [List.append_nil]
        exact hoists_storeIdent hhot hkind hop hcold hv
      next hstays =>
        refine .bind (hvalue ns) fun v new ns' hv => .pure ?_
        rw [List.append_nil]
        cases hop : op.applied? with
        | none => exact hoists_setIdent hhot hkind (by simp [Operator.isCompound, hop]) hv
        | some applied =>
            have hkeeps := hstays applied hop
            simp only [hvaluehot, Bool.true_and, targetMoves, List.contains_eq_mem,
              decide_eq_true_eq, imp_false] at hkeeps
            exact hoists_amendIdent hhot hkind hop hcold hkeeps hv
  | index s' array position t =>
      have htarget := hm.under (get?_assignTarget s (.index s' array position t) op value)
      have harray := Marks.sites_under hcold .array
      have hposition := Marks.sites_under hcold .position
      simp only [Setting.target, bind_assoc, pure_bind]
      refine .bind (settles_settle (o := o) harray
        ((htarget.under (get?_array ..)).isHot_eq_false.2 harray)) fun a new ns₁ ha => ?_
      refine .bind (settles_settle (o := o) hposition
        ((htarget.under (get?_position ..)).isHot_eq_false.2 hposition)) fun p more ns₂ hp => ?_
      split
      next applied hop _ =>
        refine .bind (P := fun old new ns' => old = .ident s' ns₂.fresh.1 t ∧
          new = [.var s' ns₂.fresh.1 t (.index s' a p t)] ∧ ns' = ns₂.fresh.2)
          (.spill ⟨rfl, rfl, rfl⟩) ?_
        rintro _ _ _ ⟨rfl, rfl, rfl⟩
        refine .bind (hvalue _) fun v rest ns' hv => .pure ?_
        rw [List.append_nil, ← List.append_assoc]
        exact hoists_storeIndex hhot hkind hop hcold ha hp hv
      next hstays =>
        refine .bind (hvalue ns₂) fun v rest ns' hv => .pure ?_
        rw [List.append_nil, ← List.append_assoc]
        cases hop : op.applied? with
        | none => exact hoists_setIndex hhot hkind (by simp [Operator.isCompound, hop]) hcold ha hp hv
        | some applied => exact absurd (by rw [hvaluehot]; rfl) (hstays applied hop)
  | _ =>
      refine .bind (prepares_target _) fun t new ns₁ ht => ?_
      split
      · refine .bind (P := fun _ _ ns' => Prepares ns₁ ns' fun _ => True)
          (.spill (.fresh fun _ _ => trivial)) fun old more ns₂ hold => ?_
        refine .bind (hvalue ns₂) fun v rest ns' hv => .pure ?_
        exact hoists_refused hhot hkind (fun _ _ => rfl) rfl
          (((ht.trans hold).trans hv.stages).mono fun _ _ => trivial)
      · refine .bind (hvalue ns₁) fun v rest ns' hv => .pure ?_
        exact hoists_refused hhot hkind (fun _ _ => rfl) rfl ((ht.trans hv.stages).mono fun _ _ => trivial)

end Assignments

end EarlyExit.Eval
