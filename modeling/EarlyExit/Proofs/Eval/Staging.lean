import EarlyExit.Proofs.Eval.Leaving
import EarlyExit.Proofs.Eval.Quiet
import EarlyExit.Proofs.Eval.Sites

/-!
# Statements in front of an expression

The evaluation of an expression is staged when statements do a part of it and what is left of
the expression does the rest.  Both sides stop alike, but for the sites: where the expression
leaves early with a container, the statements end by an exit with it.  An operand is settled
when nothing but reading its value is left, so that it can wait for others.
-/

namespace EarlyExit.Eval

open Node Expansion Run Realm

/-! ## Views that watch other names -/

namespace View

/-- The comparison when the second store binds what is hidden to these values. -/
def having (V : View) (h : String -> Option Value) : View :=
  { V with held := h }

def keeping (V : View) (guarded kept : String -> Prop) (seen : String -> Option Value)
    (hkept : ∀ x, kept x -> guarded x) : View :=
  { V with guarded, kept, kept_guarded := hkept, seen }

variable {V : View} {guarded kept : String -> Prop} {seen : String -> Option Value}
  {hkept : ∀ x, kept x -> guarded x} {w : Known} {st st' : Store}

theorem inside_keeping (h : ∀ x, guarded x -> V.guarded x) {s : Nat} {body : Body}
    (hbody : V.realm.Inside w s body) : (V.keeping guarded kept seen hkept).realm.Inside w s body :=
  fun n hn => (hbody n hn).imp fun _ hc => ⟨hc.1, fun x hx l hl =>
    ⟨(hc.2 x hx l hl).1, fun hkin hx' => (hc.2 x hx l hl).2 hkin (h x hx')⟩⟩

mutual

/-- A value that code may have, where less is guarded. -/
theorem val_keeping (h : ∀ x, guarded x -> V.guarded x) :
    (v : Value) -> V.realm.Val w v -> (V.keeping guarded kept seen hkept).realm.Val w v
  | .array _, hv => hv
  | .closure _ _ _ _, hv => ⟨hv.1, inside_keeping h hv.2⟩
  | .object _ args, hv => vals_keeping h args hv
  | .container _ _ held, hv => val_keeping h held hv
  | .null, _ | .bool _, _ | .int _, _ | .float _, _ | .str _, _ => trivial

theorem vals_keeping (h : ∀ x, guarded x -> V.guarded x) :
    (vs : List Value) -> V.realm.Vals w vs -> (V.keeping guarded kept seen hkept).realm.Vals w vs
  | [], _ => trivial
  | v :: rest, hvs => ⟨val_keeping h v hvs.1, vals_keeping h rest hvs.2⟩

end

/-- Other names may be watched where less is guarded. -/
theorem Sees.keeping (hsees : V.Sees w st st') (h : ∀ x, guarded x -> V.guarded x)
    (hseen : ∀ x, kept x -> st.get? V.home x = seen x) :
    (V.keeping guarded kept seen hkept).Sees w st st' where
  alike := hsees.alike
  held := hsees.held
  home := hsees.home
  around := hsees.around
  kept := hseen
  scope := hsees.scope
  binding s x v hs hx hv := val_keeping h v (hsees.binding s x v hs hx hv)
  array r hr := ⟨(hsees.array r hr).1, fun v hv => val_keeping h v ((hsees.array r hr).2 v hv)⟩

/-- A watched variable has its value on both sides. -/
theorem Sees.get?_kept (hsees : V.Sees w st st') {x : String} (hkept : V.kept x)
    (hhidden : V.hidden x = false) : st'.get? V.home x = V.seen x := by
  rw [← hsees.kept x hkept, Store.get?, Store.get?, ← Store.find?_hide fun _ => hhidden,
    hsees.alike, Store.find?_hide fun _ => hhidden]

/-- What is hidden has the value it is held to have. -/
theorem Sees.get?_held (hsees : V.Sees w st st') {x : String} (hhidden : V.hidden x = true)
    {v : Value} (hheld : V.held x = some v) : st'.get? V.home x = some v := by
  have hself : st'.binding? V.home x = some v := (hsees.held x hhidden).trans hheld
  rw [Store.get?, find?_self hself]
  rfl

end View

/-! ## Stages -/

/-- Where statements run in front of what is left of a computation. -/
structure Staging where
  machine : Machine
  frame : Frame
  /-- How the stores with and without the statements compare. -/
  view : View
  exit : Exit
  /-- Whether only the sites leave early. -/
  strict : Prop

/-- The second assignment of values agrees with the first on the names handed out so far. -/
def Extends (ns : Names) (h h' : String -> Option Value) : Prop :=
  ∀ x, ns.Drawn x -> h' x = h x

namespace Staging

variable (S : Staging)

noncomputable def run (ts : List Stmt) : Run Completion :=
  (fully S.machine).execAll S.frame ts

/-- What a computation comes to, and what the statements come to that stop in its place. -/
inductive Stopped : EStateM.Result Stop Store α -> EStateM.Result Stop Store Completion -> Prop
  | same {stop : Stop} {st st' : Store} (hstrict : S.strict -> ∀ c, stop ≠ .exit c)
      (halike : st'.hide S.view.home S.view.hidden = st.hide S.view.home S.view.hidden) :
      Stopped (.error stop st) (.error stop st')
  /-- A site leaves, from the block of its test. -/
  | left {c : Value} {st st' : Store}
      (halike : st'.hide S.view.home S.view.hidden = st.hide S.view.home S.view.hidden) :
      Stopped (.error (.exit c) st) (ended (exitWith S.exit c) (st'.push (some S.view.home)).2)

/-- Nothing is asked where a computation wants fuel or the program fails. -/
inductive Course (result : EStateM.Result Stop Store α)
    (run : EStateM.Result Stop Store Completion) (goes : Store -> Prop) : Prop
  | wants (h : WantsFuel result)
  | failed {e : Failure} {st : Store} (h : result = .error (.failed e) st)
  | stopped (h : S.Stopped result run)
  | goes {st' : Store} (h : run = .ok .normal st') (hgoes : goes st')

/-- Two computations have ended in the same way, with stores that compare. -/
def Tracks (h : String -> Option Value) (w : Known) (Q : Known -> α -> Prop)
    (result run : EStateM.Result Stop Store α) : Prop :=
  ∃ ending st st' w', result = ended ending st ∧ run = ended ending st' ∧
    (S.strict -> ∀ c, ending ≠ .error (.exit c)) ∧ S.view.realm.Later w w' ∧
    (S.view.having h).Sees w' st st' ∧ S.view.realm.Ends Q w' ending

/--
Statements do a part of the computation, and what is left of it does the rest, from stores
where what is hidden has these values.
-/
def StagedAt (ns : Names) (h : String -> Option Value) (w : Known) (x : Run α) (st : Store)
    (ts : List Stmt) (y : Run α) (Q : Known -> α -> Prop) : Prop :=
  ∀ w₁ st', S.view.realm.Later w w₁ -> (S.view.having h).Sees w₁ st st' ->
    S.Course (x st) (S.run ts st') fun st₁' => ∃ h₁ w₂ st₁, Extends ns h h₁ ∧
      S.view.realm.Later w₁ w₂ ∧ (S.view.having h₁).Sees w₂ st₁ st₁' ∧
      S.Tracks h₁ w₂ Q (x st) (y st₁')

/-- The same whatever is bound to what is hidden. -/
def Staged (ns : Names) (w : Known) (x : Run α) (st : Store) (ts : List Stmt) (y : Run α)
    (Q : Known -> α -> Prop) : Prop :=
  ∀ h, S.StagedAt ns h w x st ts y Q

/-- The computation gives the value in every store that compares. -/
def Reads (ns : Names) (h : String -> Option Value) (y : Run α) (a : α) : Prop :=
  ∀ h₁ w st st', Extends ns h h₁ -> (S.view.having h₁).Sees w st st' -> y st' = .ok a st'

/--
Statements do the computation, and what is left of it reads its value, from stores where what
is hidden has these values.
-/
def SettledAt (ns ns' : Names) (h : String -> Option Value) (w : Known) (x : Run α) (st : Store)
    (ts : List Stmt) (y : Run α) (Q : Known -> α -> Prop) : Prop :=
  ∀ w₁ st', S.view.realm.Later w w₁ -> (S.view.having h).Sees w₁ st st' ->
    S.Course (x st) (S.run ts st') fun st₁' => ∃ h₁ w₂ st₁ a, Extends ns h h₁ ∧
      S.view.realm.Later w₁ w₂ ∧ (S.view.having h₁).Sees w₂ st₁ st₁' ∧ x st = .ok a st₁ ∧
      Q w₂ a ∧ S.Reads ns' h₁ y a

def Settled (ns ns' : Names) (w : Known) (x : Run α) (st : Store) (ts : List Stmt) (y : Run α)
    (Q : Known -> α -> Prop) : Prop :=
  ∀ h, S.SettledAt ns ns' h w x st ts y Q

variable {S} {α β : Type} {ns ns' : Names} {w : Known} {x : Run α} {y : Run α} {st : Store}
  {ts us : List Stmt} {Q : Known -> α -> Prop}

theorem Course.imp {result : EStateM.Result Stop Store α}
    {run : EStateM.Result Stop Store Completion} {goes goes' : Store -> Prop}
    (h : S.Course result run goes) (hgoes : ∀ st', run = .ok .normal st' -> goes st' -> goes' st') :
    S.Course result run goes' := by
  cases h with
  | wants h => exact .wants h
  | failed h => exact .failed h
  | stopped h => exact .stopped h
  | goes h hst => exact .goes h (hgoes _ h hst)

theorem Settled.staged (hx : S.Settled ns ns' w x st ts y Q) : S.Staged ns w x st ts y Q := by
  intro h w₁ st' hlater hsees
  refine (hx h w₁ st' hlater hsees).imp fun st₁' _ hgoes => ?_
  obtain ⟨h₁, w₂, st₁, a, hext, hlater', hsees', hxa, hQ, hreads⟩ := hgoes
  exact ⟨h₁, w₂, st₁, hext, hlater', hsees', .ok a, st₁, st₁', w₂, hxa,
    hreads h₁ w₂ st₁ st₁' (fun _ _ => rfl) hsees', fun _ _ => nofun, S.view.realm.refl w₂, hsees', hQ⟩

/-- A computation that is its own rest. -/
theorem staged_self (hxy : ∀ h w₁, S.view.realm.Later w w₁ ->
      (S.view.having h).Matches w₁ (fun _ => x) y Q)
    (hstays : S.strict -> Stays x) : S.Staged ns w x st [] y Q := by
  intro h w₁ st' hlater hsees
  rcases hxy h w₁ hlater st st' hsees with hwants | hends
  · exact .wants hwants
  · obtain ⟨ending, st₁, st₁', w₂, hx, hy, _, hlater', hsees', hQ⟩ := hends
    refine .goes rfl ⟨h, w₁, st, fun _ _ => rfl, S.view.realm.refl w₁, hsees, ending, st₁, st₁', w₂,
      hx, hy, fun hstrict c heq => ?_, hlater', hsees', hQ⟩
    subst heq
    exact hstays hstrict st c st₁ hx

/-- What stops stays stopped when it goes on. -/
theorem Stopped.bind {run : EStateM.Result Stop Store Completion} (h : S.Stopped (x st) run)
    (g : α -> Run β) : S.Stopped ((x >>= g) st) run := by
  obtain ⟨ending, st₁, hx⟩ := exists_ended (x st)
  rw [bind_ended hx]
  rw [hx] at h
  cases ending with
  | ok a => cases h
  | error stop =>
      generalize hres : (ended (.error stop) st₁ : EStateM.Result Stop Store α) = res at h
      cases h with
      | same hstrict halike =>
          cases hres
          exact .same hstrict halike
      | left halike =>
          cases hres
          exact .left halike

theorem Stopped.ne_normal {result : EStateM.Result Stop Store α}
    {run : EStateM.Result Stop Store Completion} (h : S.Stopped result run) :
    ∃ ending st', run = ended ending st' ∧ ending ≠ .ok .normal := by
  cases h with
  | @same stop st st' => exact ⟨.error stop, st', rfl, nofun⟩
  | left =>
      refine ⟨_, _, rfl, ?_⟩
      cases S.exit <;> nofun

theorem run_append_normal {st' st₁' : Store} (h : S.run ts st' = .ok .normal st₁') :
    S.run (ts ++ us) st' = S.run us st₁' :=
  execAll_append_normal h

theorem run_append_stopped {result : EStateM.Result Stop Store α} {st' : Store}
    (h : S.Stopped result (S.run ts st')) : S.run (ts ++ us) st' = S.run ts st' := by
  obtain ⟨ending, st₁', hrun, hends⟩ := h.ne_normal
  exact (execAll_append_stopped hrun hends).trans hrun.symm

/-- A settled operand waits for what comes after it, which may read it. -/
theorem SettledAt.bind {ns₁ : Names} {h : String -> Option Value} {g : α -> Run β}
    {g' : α -> Run β} {Q' : Known -> β -> Prop} (hns : ∀ x, ns.Drawn x -> ns₁.Drawn x)
    (hx : S.SettledAt ns ns₁ h w x st ts y Q)
    (hg : ∀ a h₁ w₁ st₁, x st = .ok a st₁ -> S.view.realm.Later w w₁ -> Q w₁ a ->
      S.Reads ns₁ h₁ y a -> S.StagedAt ns₁ h₁ w₁ (g a) st₁ us (g' a) Q') :
    S.StagedAt ns h w (x >>= g) st (ts ++ us) (y >>= g') Q' := by
  intro w₁ st' hlater hsees
  cases hx w₁ st' hlater hsees with
  | wants hwants =>
      rw [Run.bind_eq]
      exact .wants (attempt_wantsFuel hwants _)
  | @failed e st₁ hfailed =>
      have hended : x st = ended (.error (.failed e)) st₁ := hfailed
      exact .failed (bind_ended hended g)
  | stopped hstopped =>
      rw [run_append_stopped hstopped]
      exact .stopped (hstopped.bind g)
  | goes hrun hgoes =>
      obtain ⟨h₁, w₂, st₁, a, hext, hlater₁, hsees₁, hxa, hQ, hreads⟩ := hgoes
      have hended : x st = ended (.ok a) st₁ := hxa
      rw [run_append_normal hrun, bind_ended hended]
      refine (hg a h₁ w₂ st₁ hxa (S.view.realm.trans hlater hlater₁) hQ hreads w₂ _
        (S.view.realm.refl w₂) hsees₁).imp fun st₂' _ hgoes => ?_
      obtain ⟨h₂, w₃, st₂, hext₂, hlater₂, hsees₂, htracks⟩ := hgoes
      have hread : y st₂' = ended (.ok a) st₂' := hreads h₂ w₃ st₂ st₂' hext₂ hsees₂
      refine ⟨h₂, w₃, st₂, fun x hx => (hext₂ x (hns x hx)).trans (hext x hx),
        S.view.realm.trans hlater₁ hlater₂, hsees₂, ?_⟩
      rw [bind_ended hread]
      exact htracks

/-- What is left of a computation goes on where it ends. -/
theorem Staged.finish {g g' : α -> Run β} {Q' : Known -> β -> Prop}
    (hx : S.Staged ns w x st ts y Q)
    (hg : ∀ a, (∃ st₁, x st = .ok a st₁) -> ∀ h w₁, S.view.realm.Later w w₁ -> Q w₁ a ->
      (S.view.having h).Matches w₁ (fun _ => g a) (g' a) Q')
    (hstays : S.strict -> ∀ a, (∃ st₁, x st = .ok a st₁) -> Stays (g a)) :
    S.Staged ns w (x >>= g) st ts (y >>= g') Q' := by
  intro h w₁ st' hlater hsees
  cases hx h w₁ st' hlater hsees with
  | wants hwants =>
      rw [Run.bind_eq]
      exact .wants (attempt_wantsFuel hwants _)
  | @failed e st₁ hfailed =>
      have hended : x st = ended (.error (.failed e)) st₁ := hfailed
      exact .failed (bind_ended hended g)
  | stopped hstopped => exact .stopped (hstopped.bind g)
  | goes hrun hgoes =>
      obtain ⟨h₁, w₂, st₁, hext, hlater₁, hsees₁, ending, st₂, st₂', w₃, hxe, hye, hstrict, hlater₂,
        hsees₂, hends⟩ := hgoes
      rw [bind_ended hxe]
      cases ending with
      | error stop =>
          refine .goes hrun ⟨h₁, w₂, st₁, hext, hlater₁, hsees₁, .error stop, st₂, st₂', w₃, rfl, ?_,
            fun hs c heq => hstrict hs c (by cases heq; rfl), hlater₂, hsees₂, hends⟩
          rw [bind_ended hye]
          rfl
      | ok a =>
          have hlater₃ := S.view.realm.trans hlater (S.view.realm.trans hlater₁ hlater₂)
          rcases hg a ⟨st₂, hxe⟩ h₁ w₃ hlater₃ hends st₂ st₂' hsees₂ with hwants | hmatch
          · exact .wants hwants
          · obtain ⟨ending, st₃, st₃', w₄, hga, hga', _, hlater₄, hsees₃, hends'⟩ := hmatch
            refine .goes hrun ⟨h₁, w₂, st₁, hext, hlater₁, hsees₁, ending, st₃, st₃', w₄, hga, ?_,
              fun hs c heq => ?_, S.view.realm.trans hlater₂ hlater₄, hsees₃, hends'⟩
            · rw [bind_ended hye]
              exact hga'
            · subst heq
              exact hstays hs a ⟨st₂, hxe⟩ st₂ c st₃ hga

end Staging

end EarlyExit.Eval
