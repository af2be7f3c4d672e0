import EarlyExit.Proofs.Eval.Staging

/-!
# Stages of operands and sites

How an operand is settled: because nothing that comes after it changes what it gives, or by a
declaration in front.  A site is settled by a declaration and a test in front.  Operands that
are settled one after the other are settled together.
-/

namespace EarlyExit.Eval

open Node Expansion Run Realm

namespace Staging

variable {S : Staging} {α β : Type} {ns ns₁ ns₂ : Names} {w : Known} {x x' y y' : Run α}
  {st : Store} {ts us : List Stmt} {Q : Known -> α -> Prop}

/-! ## Other computations with the same results -/

theorem StagedAt.congr {h : String -> Option Value} (hx : S.StagedAt ns h w x st ts y Q)
    (hsame : Same (x' st) (x st)) (hagree : Agree y' y) : S.StagedAt ns h w x' st ts y' Q := by
  intro w₁ st' hlater hsees
  rcases hsame with heq | ⟨hwants, _⟩
  · rw [heq]
    cases hx w₁ st' hlater hsees with
    | wants h => exact .wants h
    | failed h => exact .failed h
    | stopped h => exact .stopped h
    | @goes st₁' hrun hgoes =>
        obtain ⟨h₁, w₂, st₁, hext, hlater₁, hsees₁, ending, st₂, st₂', w₃, hxe, hye, hrest⟩ := hgoes
        rcases hagree st₁' with heq' | ⟨_, st₃, hwants⟩
        · exact .goes hrun ⟨h₁, w₂, st₁, hext, hlater₁, hsees₁, ending, st₂, st₂', w₃, hxe,
            heq'.trans hye, hrest⟩
        · have hfuel : ended ending st₂' = ended (.error .outOfFuel) st₃ := hye.symm.trans hwants
          obtain ⟨rfl, _⟩ := ended_inj hfuel
          exact .wants ⟨st₂, hxe⟩
  · exact .wants hwants

theorem Staged.congr (hx : S.Staged ns w x st ts y Q) (hsame : Same (x' st) (x st))
    (hagree : Agree y' y) : S.Staged ns w x' st ts y' Q :=
  fun h => (hx h).congr hsame hagree

/-- Less may be kept of the names that have been handed out. -/
theorem Staged.earlier (hx : S.Staged ns₁ w x st ts y Q) (hns : ∀ x, ns.Drawn x -> ns₁.Drawn x) :
    S.Staged ns w x st ts y Q := by
  intro h w₁ st' hlater hsees
  refine (hx h w₁ st' hlater hsees).imp fun st₁' _ hgoes => ?_
  obtain ⟨h₁, w₂, st₁, hext, hrest⟩ := hgoes
  exact ⟨h₁, w₂, st₁, fun x hx => hext x (hns x hx), hrest⟩

theorem Settled.congr (h : S.Settled ns ns₁ w x st ts y Q) (hx : Same (x' st) (x st))
    (hy : ∀ st' a, y st' = .ok a st' -> y' st' = .ok a st') :
    S.Settled ns ns₁ w x' st ts y' Q := by
  intro h₀ w₁ st' hlater hsees
  rcases hx with heq | ⟨hwants, _⟩
  · rw [heq]
    refine (h h₀ w₁ st' hlater hsees).imp fun st₁' _ hgoes => ?_
    obtain ⟨h₁, w₂, st₁, a, hext, hlater₁, hsees₁, hxa, hQ, hreads⟩ := hgoes
    exact ⟨h₁, w₂, st₁, a, hext, hlater₁, hsees₁, hxa, hQ, fun h₂ w₃ st₂ st₂' hext₂ hsees₂ =>
      hy st₂' a (hreads h₂ w₃ st₂ st₂' hext₂ hsees₂)⟩
  · exact .wants hwants

/-- Nothing is asked where the program fails. -/
theorem staged_failed {e : Failure} (h : Same (x st) (Run.fail e st)) :
    S.Staged ns w x st ts y Q := by
  intro h₀ w₁ st' _ _
  exact .failed (h.eq_ended (failed_ne_outOfFuel e))

/-! ## Settled operands -/

/-- What gives one value wherever it is read, or always fails, is settled by what stages it. -/
theorem Staged.settled (hx : S.Staged ns w x st ts y Q)
    (hread : (∃ a, ∀ h w st st', (S.view.having h).Sees w st st' -> y st' = .ok a st') ∨
      ∀ h w st st', (S.view.having h).Sees w st st' -> ∃ e, y st' = .error (.failed e) st') :
    S.Settled ns ns₁ w x st ts y Q := by
  intro h w₁ st' hlater hsees
  cases hx h w₁ st' hlater hsees with
  | wants h => exact .wants h
  | failed h => exact .failed h
  | stopped h => exact .stopped h
  | @goes st₁' hrun hgoes =>
      obtain ⟨h₁, w₂, st₁, hext, hlater₁, hsees₁, ending, st₂, st₂', w₃, hxe, hye, _, hlater₂,
        hsees₂, hends⟩ := hgoes
      rcases hread with ⟨a, hok⟩ | hfails
      · have hread : ended ending st₂' = ended (.ok a) st₁' :=
          hye.symm.trans (hok h₁ w₂ st₁ st₁' hsees₁)
        obtain ⟨rfl, rfl⟩ := ended_inj hread
        exact .goes hrun ⟨h₁, w₃, st₂, a, hext, S.view.realm.trans hlater₁ hlater₂, hsees₂, hxe,
          hends, fun h₂ w st st' _ hsees => hok h₂ w st st' hsees⟩
      · obtain ⟨e, he⟩ := hfails h₁ w₂ st₁ st₁' hsees₁
        have hread : ended ending st₂' = ended (.error (.failed e)) st₁' := hye.symm.trans he
        obtain ⟨rfl, _⟩ := ended_inj hread
        exact .failed hxe

/-- What is read goes on alike on both sides. -/
theorem Reads.staged {h : String -> Option Value} {a : α} {g : α -> Run β} {Q' : Known -> β -> Prop}
    (hreads : S.Reads ns h y a) (hg : ∀ w₁, S.view.realm.Later w w₁ ->
      (S.view.having h).Matches w₁ (fun _ => g a) (g a) Q') (hstays : S.strict -> Stays (g a)) :
    S.StagedAt ns h w (g a) st [] (y >>= g) Q' := by
  intro w₁ st' hlater hsees
  rcases hg w₁ hlater st st' hsees with hwants | hends
  · exact .wants hwants
  · obtain ⟨ending, st₁, st₁', w₂, hga, hga', _, hlater', hsees', hQ⟩ := hends
    have hread : y st' = ended (.ok a) st' := hreads h w₁ st st' (fun _ _ => rfl) hsees
    refine .goes rfl ⟨h, w₁, st, fun _ _ => rfl, S.view.realm.refl w₁, hsees, ending, st₁, st₁', w₂,
      hga, (bind_ended hread g).trans hga', fun hstrict c heq => ?_, hlater', hsees', hQ⟩
    subst heq
    exact hstays hstrict st c st₁ hga

/-- Operands that are settled one after the other. -/
theorem Settled.pair {g : α -> Run β} {g' : α -> Run β} {Q' : Known -> β -> Prop}
    (hns : ∀ x, ns.Drawn x -> ns₁.Drawn x) (hns₁ : ∀ x, ns₁.Drawn x -> ns₂.Drawn x)
    (hx : S.Settled ns ns₁ w x st ts y Q)
    (hg : ∀ a h₁ w₁ st₁, x st = .ok a st₁ -> S.view.realm.Later w w₁ -> Q w₁ a ->
      S.Reads ns₁ h₁ y a -> S.SettledAt ns₁ ns₂ h₁ w₁ (g a) st₁ us (g' a) Q') :
    S.Settled ns ns₂ w (x >>= g) st (ts ++ us) (y >>= g') Q' := by
  intro h w₁ st' hlater hsees
  cases hx h w₁ st' hlater hsees with
  | wants hwants =>
      rw [Run.bind_eq]
      exact .wants (attempt_wantsFuel hwants _)
  | @failed e st₁ hfailed =>
      have hended : x st = ended (.error (.failed e)) st₁ := hfailed
      exact .failed (bind_ended hended g)
  | stopped hstopped =>
      rw [run_append_stopped hstopped]
      exact .stopped (hstopped.bind g)
  | goes hrun hgoes =>
      obtain ⟨h₁, w₂, st₁, a, hext, hlater₁, hsees₁, hxa, hQ, hreads⟩ := hgoes
      have hended : x st = ended (.ok a) st₁ := hxa
      rw [run_append_normal hrun, bind_ended hended]
      refine (hg a h₁ w₂ st₁ hxa (S.view.realm.trans hlater hlater₁) hQ hreads w₂ _
        (S.view.realm.refl w₂) hsees₁).imp fun st₂' _ hgoes => ?_
      obtain ⟨h₂, w₃, st₂, b, hext₂, hlater₂, hsees₂, hgb, hQ', hreads'⟩ := hgoes
      refine ⟨h₂, w₃, st₂, b, fun x hx => (hext₂ x (hns x hx)).trans (hext x hx),
        S.view.realm.trans hlater₁ hlater₂, hsees₂, hgb, hQ', fun h₃ w st₃ st₃' hext₃ hsees₃ => ?_⟩
      have hfirst : y st₃' = ended (.ok a) st₃' :=
        hreads h₃ w st₃ st₃' (fun x hx => (hext₃ x (hns₁ x hx)).trans (hext₂ x hx)) hsees₃
      rw [bind_ended hfirst]
      exact hreads' h₃ w st₃ st₃' hext₃ hsees₃

theorem settled_pure {a : α} (hQ : ∀ w₁, S.view.realm.Later w w₁ -> Q w₁ a) :
    S.Settled ns ns₁ w (pure a) st [] (pure a) Q := by
  intro h w₁ st' hlater hsees
  exact .goes rfl ⟨h, w₁, st, a, fun _ _ => rfl, S.view.realm.refl w₁, hsees, rfl, hQ w₁ hlater,
    fun _ _ _ _ _ _ => rfl⟩

/-- What is made of a settled value is settled. -/
theorem Settled.map (hx : S.Settled ns ns₁ w x st ts y Q) {f : α -> β} {Q' : Known -> β -> Prop}
    (hQ : ∀ w₁ a, S.view.realm.Later w w₁ -> Q w₁ a -> Q' w₁ (f a)) :
    S.Settled ns ns₁ w (x >>= fun a => pure (f a)) st ts (y >>= fun a => pure (f a)) Q' := by
  intro h w₁ st' hlater hsees
  cases hx h w₁ st' hlater hsees with
  | wants hwants =>
      rw [Run.bind_eq]
      exact .wants (attempt_wantsFuel hwants _)
  | @failed e st₁ hfailed =>
      have hended : x st = ended (.error (.failed e)) st₁ := hfailed
      exact .failed (bind_ended hended _)
  | stopped hstopped => exact .stopped (hstopped.bind _)
  | goes hrun hgoes =>
      obtain ⟨h₁, w₂, st₁, a, hext, hlater₁, hsees₁, hxa, hval, hreads⟩ := hgoes
      have hended : x st = ended (.ok a) st₁ := hxa
      refine .goes hrun ⟨h₁, w₂, st₁, f a, hext, hlater₁, hsees₁, bind_ended hended _,
        hQ w₂ a (S.view.realm.trans hlater hlater₁) hval, fun h₂ w st st' hext₂ hsees₂ => ?_⟩
      have hread : y st' = ended (.ok a) st' := hreads h₂ w st st' hext₂ hsees₂
      exact bind_ended hread _

/-- More names may be drawn before what is settled is read. -/
theorem Settled.later (hx : S.Settled ns ns₁ w x st ts y Q) (hns : ∀ x, ns₁.Drawn x -> ns₂.Drawn x) :
    S.Settled ns ns₂ w x st ts y Q := by
  intro h w₁ st' hlater hsees
  refine (hx h w₁ st' hlater hsees).imp fun st₁' _ hgoes => ?_
  obtain ⟨h₁, w₂, st₁, a, hext, hlater₁, hsees₁, hxa, hQ, hreads⟩ := hgoes
  exact ⟨h₁, w₂, st₁, a, hext, hlater₁, hsees₁, hxa, hQ, fun h₂ w st st' hext₂ hsees₂ =>
    hreads h₂ w st st' (fun x hx => hext₂ x (hns x hx)) hsees₂⟩

/-- Only what is hidden counts in what the second store binds. -/
theorem Sees.having_congr {h h' : String -> Option Value} {st' : Store}
    (hsees : (S.view.having h).Sees w st st') (heq : ∀ x, S.view.hidden x = true -> h' x = h x) :
    (S.view.having h').Sees w st st' where
  alike := hsees.alike
  held x hx := (hsees.held x hx).trans (heq x hx).symm
  home := hsees.home
  around := hsees.around
  kept := hsees.kept
  scope := hsees.scope
  binding := hsees.binding
  array := hsees.array

/-- What is left of a computation goes on with one that no statements are put in front of. -/
theorem Staged.andThen {g g' : α -> Run β} {Q' : Known -> β -> Prop}
    (hx : S.Staged ns w x st ts y Q)
    (hg : ∀ a w₁ st₁, x st = .ok a st₁ -> S.view.realm.Later w w₁ -> Q w₁ a ->
      S.Staged ns₁ w₁ (g a) st₁ [] (g' a) Q') :
    S.Staged ns w (x >>= g) st ts (y >>= g') Q' := by
  intro h w₁ st' hlater hsees
  cases hx h w₁ st' hlater hsees with
  | wants hwants =>
      rw [Run.bind_eq]
      exact .wants (attempt_wantsFuel hwants _)
  | @failed e st₁ hfailed =>
      have hended : x st = ended (.error (.failed e)) st₁ := hfailed
      exact .failed (bind_ended hended g)
  | stopped hstopped => exact .stopped (hstopped.bind g)
  | goes hrun hgoes =>
      obtain ⟨h₁, w₂, st₁, hext, hlater₁, hsees₁, ending, st₂, st₂', w₃, hxe, hye, hstrict, hlater₂,
        hsees₂, hends⟩ := hgoes
      rw [bind_ended hxe]
      cases ending with
      | error stop =>
          refine .goes hrun ⟨h₁, w₂, st₁, hext, hlater₁, hsees₁, .error stop, st₂, st₂', w₃, rfl, ?_,
            fun hs c heq => hstrict hs c (by cases heq; rfl), hlater₂, hsees₂, hends⟩
          rw [bind_ended hye]
          rfl
      | ok a =>
          have hlater₃ := S.view.realm.trans hlater (S.view.realm.trans hlater₁ hlater₂)
          cases hg a w₃ st₂ hxe hlater₃ hends h₁ w₃ st₂' (S.view.realm.refl w₃) hsees₂ with
          | wants hwants => exact .wants hwants
          | failed hfailed => exact .failed hfailed
          | stopped hstopped =>
              obtain ⟨ending, st₃, hnormal, hne⟩ := hstopped.ne_normal
              have hnormal : ended (.ok Completion.normal) st₂' = ended ending st₃ := hnormal
              exact absurd (ended_inj hnormal).1.symm hne
          | @goes st₃' hnormal hgoes =>
              obtain ⟨h₂, w₄, st₃, _, hlater₄, hsees₃, ending, st₄, st₄', w₅, hge, hge', hstrict',
                hlater₅, hsees₄, hends'⟩ := hgoes
              have hnormal : ended (.ok Completion.normal) st₂' = ended (.ok .normal) st₃' := hnormal
              obtain ⟨_, rfl⟩ := ended_inj hnormal
              -- both assignments are what the store binds
              have heq : ∀ x, S.view.hidden x = true -> h₁ x = h₂ x := fun x hx =>
                (hsees₂.held x hx).symm.trans (hsees₃.held x hx)
              refine .goes hrun ⟨h₁, w₂, st₁, hext, hlater₁, hsees₁, ending, st₄, st₄', w₅, hge, ?_,
                hstrict', S.view.realm.trans hlater₂ (S.view.realm.trans hlater₄ hlater₅),
                Sees.having_congr hsees₄ heq, hends'⟩
              rw [bind_ended hye]
              exact hge'

/-- An operand and what comes after it, for which it is settled if that is staged itself. -/
theorem Staged.next {later : Bool} {g g' : α -> Run β} {Q' : Known -> β -> Prop}
    (hx : S.Staged ns w x st ts y Q)
    (hsettled : later = true -> S.Settled ns ns₁ w x st ts y Q) (hcold : later = false -> us = [])
    (hns : ∀ x, ns.Drawn x -> ns₁.Drawn x)
    (hg : ∀ a w₁ st₁, x st = .ok a st₁ -> S.view.realm.Later w w₁ -> Q w₁ a ->
      S.Staged ns₁ w₁ (g a) st₁ us (g' a) Q') :
    S.Staged ns w (x >>= g) st (ts ++ us) (y >>= g') Q' := by
  cases later with
  | true =>
      exact fun h => (hsettled rfl h).bind hns fun a h₁ w₁ st₁ hxa hlater hQ _ =>
        hg a w₁ st₁ hxa hlater hQ h₁
  | false =>
      obtain rfl := hcold rfl
      rw [List.append_nil]
      exact hx.andThen hg

/-! ## Declarations in front -/

section Declarations

variable {e v : Expr} {t : String}

/--
A declaration in front does what is left of a computation, and from then on the variable has
its value.
-/
theorem StagedAt.declared {h : String -> Option Value} {x : Run Value}
    (hx : S.StagedAt ns h w x st ts (evalFully S.machine S.frame v) S.view.realm.Val)
    (hscope : S.frame.scope = S.view.home) (hfilled : v.isMissing = false)
    (hhidden : S.view.hidden t = true) (hfresh : ¬ns.Drawn t) (span : Span) (type : String)
    {w₁ : Known} {st' : Store} (hlater : S.view.realm.Later w w₁)
    (hsees : (S.view.having h).Sees w₁ st st') :
    S.Course (x st) (S.run (ts ++ [.var span t type v]) st') fun st₁' => ∃ h₁ w₂ st₁ a,
      Extends ns h h₁ ∧ S.view.realm.Later w₁ w₂ ∧ (S.view.having h₁).Sees w₂ st₁ st₁' ∧
      x st = .ok a st₁ ∧ S.view.realm.Val w₂ a ∧ h₁ t = some a := by
  cases hx w₁ st' hlater hsees with
  | wants h => exact .wants h
  | failed h => exact .failed h
  | stopped h =>
      rw [run_append_stopped h]
      exact .stopped h
  | @goes st₁' hrun hgoes =>
      obtain ⟨h₁, w₂, st₁, hext, hlater₁, hsees₁, ending, st₂, st₂', w₃, hxe, hye, hstrict, hlater₂,
        hsees₂, hends⟩ := hgoes
      by_cases hfuel : ending = .error .outOfFuel
      · subst hfuel
        exact .wants ⟨st₂, hxe⟩
      have hvar : S.run [.var span t type v] st₁' = _ :=
        (congrFun (execAll_single _ _ _) _).trans
          (execFully_var (f := S.frame) hfilled hye hfuel span t type)
      rw [run_append_normal hrun]
      cases ending with
      | ok a =>
          rw [hscope] at hvar
          refine .goes hvar ⟨fun z => if z = t then some a else h₁ z, w₃, st₂, a, ?_,
            S.view.realm.trans hlater₁ hlater₂, hsees₂.hold hhidden a, hxe, hends, if_pos rfl⟩
          intro z hz
          dsimp only
          rw [if_neg (by rintro rfl; exact hfresh hz)]
          exact hext z hz
      | error stop =>
          have hxe : x st = .error stop st₂ := hxe
          rw [hvar, hxe]
          exact .stopped (.same (fun hs c heq => hstrict hs c (by rw [heq])) hsees₂.alike)

/-- An operand is settled by a declaration. -/
theorem StagedAt.spilled {h : String -> Option Value} {x : Run Value}
    (hx : S.StagedAt ns h w x st ts (evalFully S.machine S.frame v) S.view.realm.Val)
    (hscope : S.frame.scope = S.view.home) (hfilled : v.isMissing = false)
    (hhidden : S.view.hidden t = true) (hfresh : ¬ns.Drawn t) (hdrawn : ns₁.Drawn t)
    (span : Span) (type : String) :
    S.SettledAt ns ns₁ h w x st (ts ++ [.var span t type v])
      (evalFully S.machine S.frame (.ident span t type)) S.view.realm.Val := by
  intro w₁ st' hlater hsees
  refine (hx.declared hscope hfilled hhidden hfresh span type hlater hsees).imp fun st₁' _ hgoes => ?_
  obtain ⟨h₁, w₂, st₁, a, hext, hlater₁, hsees₁, hxa, hval, ht⟩ := hgoes
  refine ⟨h₁, w₂, st₁, a, hext, hlater₁, hsees₁, hxa, hval, fun h₂ w st st' hext₂ hsees₂ => ?_⟩
  have hheld : (S.view.having h₂).held t = some a := (hext₂ t hdrawn).trans ht
  refine evalFully_ident ?_ span type
  rw [hscope]
  exact View.Sees.get?_held hsees₂ hhidden hheld

end Declarations

end Staging

/-- A call of the sentinel ends as its receiver does, if that gives no value. -/
theorem same_unwrap {m : Machine} {f : Frame} {receiver : Expr} {stop : Stop} {st st₁ : Store}
    (h : evalFully m f receiver st = .error stop st₁)
    (hvalue : ∀ c st₁, callee (fully m) f receiver st = .ok c st₁ -> ∃ v, c = .value v)
    (s : Span) (name type : String) (args : List Expr) :
    Same (evalFully m f (.call s receiver name args type) st) (.error stop st₁) := by
  have hended : evalFully m f receiver st = ended (.error stop) st₁ := h
  have hcallee : Same (callee (fully m) f receiver st) (ended (.error stop) st₁) := by
    rcases callee_eq m f receiver st with hsame | ⟨c, err, hc, hnot, _⟩
    · rw [bind_ended hended] at hsame
      exact hsame
    · obtain ⟨v, rfl⟩ := hvalue c st hc
      exact absurd rfl (hnot v)
  refine (agree_call m f s receiver name args type st).trans ?_
  have hbind := hcallee.bind (x := callee (fully m) f receiver) (y := fun _ => ended (.error stop) st₁)
    (g := fun c => (fully m).evalAll f args >>= calling m (fully m) s name c)
    fun _ _ _ => .refl _
  exact hbind

namespace Staging

variable {S : Staging} {ns ns₁ : Names} {w : Known} {st : Store} {ts : List Stmt}

theorem Stopped.error {result : EStateM.Result Stop Store α}
    {run : EStateM.Result Stop Store Completion} (h : S.Stopped result run) :
    ∃ stop st, result = .error stop st := by
  cases h <;> exact ⟨_, _, rfl⟩

/-! ## Sites -/

/-- A site is settled by the declaration of its container and the test of it. -/
theorem Staged.site {receiver r : Expr} {k : Kind} {t : String}
    (hx : S.Staged ns w (evalFully S.machine S.frame receiver) st ts
      (evalFully S.machine S.frame r) S.view.realm.Val)
    (hscope : S.frame.scope = S.view.home) (hfilled : r.isMissing = false)
    (hhidden : S.view.hidden t = true) (hfresh : ¬ns.Drawn t) (hdrawn : ns₁.Drawn t)
    (hnative : S.machine.native = true) (hk : Legible S.machine k)
    (hclass : ∀ h w st st', (S.view.having h).Sees w st st' ->
      st'.get? S.view.home k.name = none)
    (hserved : ∀ c st₁, callee (fully S.machine) S.frame receiver st = .ok c st₁ ->
      ∃ alternate held, c = .value (.container k alternate held))
    (span : Span) (receiverType type : String) :
    S.Settled ns ns₁ w
      (evalFully S.machine S.frame (.call span receiver S.machine.sentinel [] type)) st
      (ts ++ guardStatements S.exit k span t receiverType r)
      (evalFully S.machine S.frame (k.extract (.ident span t receiverType) span type))
      S.view.realm.Val := by
  have hvalue : ∀ c st₁, callee (fully S.machine) S.frame receiver st = .ok c st₁ ->
      ∃ v, c = .value v := fun c st₁ hc => by
    obtain ⟨_, _, rfl⟩ := hserved c st₁ hc
    exact ⟨_, rfl⟩
  have hstop {stop : Stop} {st₁ : Store}
      (h : evalFully S.machine S.frame receiver st = .error stop st₁) :=
    same_unwrap h hvalue span S.machine.sentinel type []
  intro h w₁ st' hlater hsees
  have hsplit : ts ++ guardStatements S.exit k span t receiverType r =
      (ts ++ [.var span t receiverType r]) ++
        [.branch span (k.guard (.ident span t receiverType) span) (.block (.mk span
          [S.exit.statement (k.reconstruct (.ident span t receiverType) span)])) .missing] := by
    rw [List.append_assoc]
    rfl
  rw [hsplit]
  cases (hx h).declared hscope hfilled hhidden hfresh span receiverType hlater hsees with
  | wants hwants =>
      obtain ⟨st₁, hst₁⟩ := hwants
      rcases hstop hst₁ with heq | ⟨hwants, _⟩
      · exact .wants ⟨st₁, heq⟩
      · exact .wants hwants
  | @failed err st₁ hfailed =>
      exact .failed ((hstop hfailed).eq_ended (failed_ne_outOfFuel err))
  | stopped hstopped =>
      obtain ⟨stop, st₁, hst₁⟩ := hstopped.error
      rw [run_append_stopped hstopped]
      rcases hstop hst₁ with heq | ⟨hwants, _⟩
      · rw [heq, ← hst₁]
        exact .stopped hstopped
      · exact .wants hwants
  | @goes st₁' hrun hgoes =>
      obtain ⟨h₁, w₂, st₁, a, hext, hlater₁, hsees₁, hxa, hval, ht⟩ := hgoes
      have hcallee := callee_of_eval hxa
      obtain ⟨alternate, held, heq⟩ := hserved _ _ hcallee
      cases heq
      have hunwrap := evalFully_unwrap hnative hcallee span type
      have hget : st₁'.get? S.frame.scope t = some (.container k alternate held) := by
        rw [hscope]
        exact View.Sees.get?_held hsees₁ hhidden ht
      have hguard := execFully_guard hk hget (by rw [hscope]; exact hclass h₁ w₂ st₁ st₁' hsees₁)
        (by rw [hscope, hsees₁.size]; exact hsees₁.home) S.exit span receiverType
      have hbranch : S.run [.branch span (k.guard (.ident span t receiverType) span)
          (.block (.mk span [S.exit.statement (k.reconstruct (.ident span t receiverType) span)]))
          .missing] st₁' = _ := (congrFun (execAll_single _ _ _) _).trans hguard
      rw [run_append_normal hrun, hunwrap]
      cases alternate with
      | true =>
          rw [if_pos rfl, hbranch, if_pos rfl, hscope]
          exact .stopped (.left hsees₁.alike)
      | false =>
          rw [if_neg Bool.false_ne_true]
          rw [if_neg Bool.false_ne_true] at hbranch
          refine .goes hbranch ⟨h₁, w₂, st₁, held, hext, hlater₁, hsees₁, rfl, hval,
            fun h₂ w st st' hext₂ hsees₂ => ?_⟩
          have hheld : (S.view.having h₂).held t = some (.container k false held) :=
            (hext₂ t hdrawn).trans ht
          refine evalFully_extract hk ?_ span receiverType type
          rw [hscope]
          exact View.Sees.get?_held hsees₂ hhidden hheld

/-! ## Receivers -/

/-- A settled expression settles what a call on it is made on. -/
theorem Settled.callee {e v : Expr}
    (hx : S.Settled ns ns₁ w (evalFully S.machine S.frame e) st ts
      (evalFully S.machine S.frame v) S.view.realm.Val)
    (hvalue : ∀ c st₁, callee (fully S.machine) S.frame e st = .ok c st₁ -> ∃ a, c = .value a) :
    S.Settled ns ns₁ w (callee (fully S.machine) S.frame e) st ts
      (callee (fully S.machine) S.frame v) S.view.realm.Callable := by
  have hcallable : S.Settled ns ns₁ w (evalFully S.machine S.frame e >>= fun a => pure (.value a)) st ts
      (evalFully S.machine S.frame v >>= fun a => pure (.value a)) S.view.realm.Callable :=
    hx.map fun _ _ _ hval => hval
  refine hcallable.congr ?_ fun st' c hc => ?_
  · rcases callee_eq S.machine S.frame e st with hsame | ⟨c, _, hc, hnot, _⟩
    · exact hsame
    · obtain ⟨a, rfl⟩ := hvalue c st hc
      exact absurd rfl (hnot a)
  · obtain ⟨ending, st₁, hend⟩ := exists_ended (evalFully S.machine S.frame v st')
    rw [bind_ended hend] at hc
    cases ending with
    | error stop => cases hc
    | ok a =>
        cases hc
        exact callee_of_eval hend

/-! ## Watching more names for a while -/

def keeping (S : Staging) (kept : String -> Prop) (seen : String -> Option Value)
    (hkept : ∀ x, kept x -> S.view.guarded x) : Staging :=
  { S with view := S.view.keeping S.view.guarded kept seen hkept }

theorem val_of_keeping {kept : String -> Prop} {seen : String -> Option Value}
    {hkept : ∀ x, kept x -> S.view.guarded x} {v : Value}
    (h : (S.keeping kept seen hkept).view.realm.Val w v) : S.view.realm.Val w v := by
  have hback : ((S.keeping kept seen hkept).view.keeping S.view.guarded S.view.kept S.view.seen
      S.view.kept_guarded).realm.Val w v := View.val_keeping (fun _ hx => hx) v h
  exact hback

theorem Stopped.of_keeping {kept : String -> Prop} {seen : String -> Option Value}
    {hkept : ∀ x, kept x -> S.view.guarded x} {result : EStateM.Result Stop Store α}
    {run : EStateM.Result Stop Store Completion}
    (h : (S.keeping kept seen hkept).Stopped result run) : S.Stopped result run := by
  cases h with
  | same hstrict halike => exact .same hstrict halike
  | left halike => exact .left halike

/-- What is staged while more names are watched, under the values that they have now. -/
theorem Staged.of_keeping {x y : Run α} {Q Q' : Known -> α -> Prop} {kept : String -> Prop}
    {hkept : ∀ x, kept x -> S.view.guarded x} (hmore : ∀ x, S.view.kept x -> kept x)
    (hQ : ∀ w a, Q' w a -> Q w a)
    (hx : (∀ x, S.view.kept x -> st.get? S.view.home x = S.view.seen x) ->
      (S.keeping kept (st.get? S.view.home) hkept).Staged ns w x st ts y Q') :
    S.Staged ns w x st ts y Q := by
  intro h w₁ st' hlater hsees
  have hseen : ∀ x, S.view.kept x -> st.get? S.view.home x = S.view.seen x := hsees.kept
  have hback {h : String -> Option Value} {w : Known} {st₁ st₁' : Store}
      (hsees : ((S.keeping kept (st.get? S.view.home) hkept).view.having h).Sees w st₁ st₁') :
      (S.view.having h).Sees w st₁ st₁' :=
    show (View.keeping _ _ S.view.kept S.view.seen S.view.kept_guarded).Sees w st₁ st₁' from
      hsees.keeping (fun _ hx => hx) fun x hx => (hsees.kept x (hmore x hx)).trans (hseen x hx)
  cases hx hseen h w₁ st' hlater (hsees.keeping (fun _ hx => hx) fun _ _ => rfl) with
  | wants h => exact .wants h
  | failed h => exact .failed h
  | stopped h => exact .stopped h.of_keeping
  | goes hrun hgoes =>
      obtain ⟨h₁, w₂, st₁, hext, hlater₁, hsees₁, ending, st₂, st₂', w₃, hxe, hye, hstrict, hlater₂,
        hsees₂, hends⟩ := hgoes
      refine .goes hrun ⟨h₁, w₂, st₁, hext, hlater₁, hback hsees₁, ending, st₂, st₂', w₃, hxe, hye,
        hstrict, hlater₂, hback hsees₂, ?_⟩
      cases ending with
      | ok a => exact hQ _ a hends
      | error stop =>
          cases stop with
          | thrown v => exact val_of_keeping hends
          | exit v => exact val_of_keeping hends
          | _ => trivial

end Staging

end EarlyExit.Eval
