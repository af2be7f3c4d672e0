import EarlyExit.Proofs.Eval.Constructs
import Mathlib.Order.Filter.AtTopBot.Basic

/-!
# Runs with all the fuel they want

A run that ends with some fuel ends in the same way with more.  So code has a meaning that
does not speak of fuel: the way it ends with enough of it, or want of fuel when it never
ends.  Of that meaning every construct but a loop is the same function of the meanings of
its parts as in a step of the interpreter.
-/

namespace EarlyExit.Eval

open Node Expansion Filter Run

/-! ## Approximation -/

/-- Worlds in which everything goes. -/
def Realm.boundless : Realm where
  World := Unit
  Later _ _ := True
  Here _ _ := True
  Reads _ _ _ := True
  Writes _ _ _ := True
  Captures _ _ _ := True
  Declares _ _ _ := True
  Refers _ _ := True
  refl _ := trivial
  trans _ _ := trivial
  here_later _ _ := trivial
  reads_later _ _ _ := trivial
  writes_later _ _ _ := trivial
  captures_later _ _ _ := trivial
  writes_of_captures _ _ := trivial
  declares_later _ _ _ := trivial
  refers_later _ _ := trivial

namespace Realm

theorem boundless_inside (w : boundless.World) (s : Nat) (body : Body) :
    boundless.Inside w s body :=
  fun _ _ _ _ => ⟨fun _ _ => trivial, fun _ _ => trivial⟩

theorem boundless_runs (w : boundless.World) (s : Nat) (n : Node) : boundless.Runs w s n :=
  ⟨⟨fun _ _ => trivial, fun _ _ => trivial, fun _ _ _ _ => boundless_inside w s _⟩,
    fun _ _ => trivial⟩

mutual

theorem boundless_val (w : boundless.World) : (v : Value) -> boundless.Val w v
  | .closure _ _ body s => ⟨trivial, boundless_inside w s body⟩
  | .object _ args => boundless_vals w args
  | .container _ _ held => boundless_val w held
  | .array _ | .null | .bool _ | .int _ | .float _ | .str _ => trivial

theorem boundless_vals (w : boundless.World) : (vs : List Value) -> boundless.Vals w vs
  | [] => trivial
  | v :: rest => ⟨boundless_val w v, boundless_vals w rest⟩

end

theorem boundless_carries (w : boundless.World) (stop : Stop) : boundless.Carries w stop := by
  cases stop <;> first | trivial | exact boundless_val w _

end Realm

/--
Each of the computations ends like the last one or wants fuel, and if the last one ends they
do so in the end.
-/
structure Approaches (l : Filter ι) (x : ι -> Run α) (y : Run α) : Prop where
  below : ∀ i st, x i st = y st ∨ WantsFuel (x i st)
  reach : ∀ st, ¬WantsFuel (y st) -> ∀ᶠ i in l, ¬WantsFuel (x i st)

theorem approaches_self (l : Filter ι) (x : Run α) : Approaches l (fun _ => x) x :=
  ⟨fun _ _ => .inl rfl, fun _ h => .of_forall fun _ => h⟩

theorem Approaches.attempt {l : Filter ι} {x : ι -> Run α} {y : Run α} (hx : Approaches l x y)
    {k : ι -> Except Stop α -> Run β} {k' : Except Stop α -> Run β}
    (hk : ∀ i st ending st', x i st = ended ending st' -> ending ≠ .error .outOfFuel ->
      Approaches l (fun i => k i ending) (k' ending)) :
    Approaches l (fun i => (x i).attempt (k i)) (y.attempt k') := by
  constructor
  · intro i st
    rcases wantsFuel_or_ended (x i st) with hwants | ⟨ending, st', hends, hxi⟩
    · exact .inr (attempt_wantsFuel hwants _)
    · have hy : y st = ended ending st' := by
        rw [← hxi]
        refine ((hx.below i st).resolve_right ?_).symm
        rw [hxi]
        exact not_wantsFuel_ended hends
      rw [attempt_ended hxi hends, attempt_ended hy hends]
      exact (hk i st ending st' hxi hends).below i st'
  · intro st hends
    rcases wantsFuel_or_ended (y st) with hwants | ⟨ending, st', hending, hy⟩
    · exact absurd (attempt_wantsFuel hwants _) hends
    · have hreach := hx.reach st (by
        rw [hy]
        exact not_wantsFuel_ended hending)
      have heq {j : ι} (hj : ¬WantsFuel (x j st)) : x j st = ended ending st' :=
        ((hx.below j st).resolve_right hj).trans hy
      rw [attempt_ended hy hending] at hends
      by_cases hsome : ∃ i, ¬WantsFuel (x i st)
      · obtain ⟨i, hi⟩ := hsome
        filter_upwards [hreach, (hk i st ending st' (heq hi) hending).reach st' hends] with j hj hrest
        rw [attempt_ended (heq hj) hending]
        exact hrest
      · exact hreach.mono fun j hj => absurd ⟨j, hj⟩ hsome

theorem Approaches.counted {l : Filter ι} {x : ι -> Run Value} {y : Run Value}
    (hx : Approaches l x y) (m : Machine) :
    Approaches l (fun i => counted m (x i)) (counted m y) := by
  constructor
  · intro i st
    by_cases hdepth : st.depth < m.maxDepth
    · refine (hx.below i st.enter).imp (fun heq => ?_) fun hwants =>
        wantsFuel_counted.2 ⟨hdepth, hwants⟩
      obtain ⟨ending, st', hy⟩ := exists_ended (y st.enter)
      rw [counted_ended hdepth hy, counted_ended hdepth (heq.trans hy)]
    · exact .inl ((counted_over hdepth (x i)).trans (counted_over hdepth y).symm)
  · intro st hends
    by_cases hdepth : st.depth < m.maxDepth
    · have hy : ¬WantsFuel (y st.enter) := fun h => hends (wantsFuel_counted.2 ⟨hdepth, h⟩)
      exact (hx.reach st.enter hy).mono fun i hi h => hi (wantsFuel_counted.1 h).2
    · exact .of_forall fun i h => hdepth (wantsFuel_counted.1 h).1

def approximation (l : Filter ι) : Logic .boundless ι where
  Rel w x y Q := Approaches l x y ∧ ∀ i st a st', x i st = .ok a st' -> Q w a
  Hosts _ := True
  lax := l = ⊥
  pure h := ⟨approaches_self l _, fun _ _ _ _ heq => by cases heq; exact h⟩
  stop _ := ⟨approaches_self l _, fun _ _ _ _ heq => by cases heq⟩
  counted h := ⟨h.1.counted _, fun i st v _ heq => by
    obtain ⟨st₁, hx⟩ := eq_ok_of_counted heq
    exact h.2 i st.enter v st₁ hx⟩
  below hl := ⟨⟨fun _ st => .inr ⟨st, rfl⟩, fun _ _ => by simp [hl]⟩, fun _ _ _ _ heq => by cases heq⟩
  attempt := by
    intro α β w x y P k k' Q hx hk
    have hends {i : ι} {st st' : Store} {ending : Except Stop α} (h : x i st = ended ending st') :
        Realm.boundless.Ends P w ending := by
      cases ending with
      | ok a => exact hx.2 i st a st' h
      | error stop => exact Realm.boundless_carries w stop
    refine ⟨hx.1.attempt fun i st ending st' hxi _ => (hk w ending trivial (hends hxi)).1, ?_⟩
    intro i st b st' heq
    rcases wantsFuel_or_ended (x i st) with hwants | ⟨ending, st₁, hending, hxi⟩
    · obtain ⟨st₂, h⟩ := attempt_wantsFuel hwants (k i)
      cases heq.symm.trans h
    · exact (hk w ending trivial (hends hxi)).2 i st₁ b st'
        ((attempt_ended hxi hending (k i)).symm.trans heq)
  text _ := ⟨approaches_self l _, fun _ _ _ _ _ => trivial⟩
  find _ _ := ⟨approaches_self l _, fun _ _ _ _ _ _ _ => Realm.boundless_val _ _⟩
  rebind _ _ _ := ⟨approaches_self l _, fun _ _ _ _ _ => trivial⟩
  define _ _ _ := ⟨approaches_self l _, fun _ _ _ _ _ => trivial⟩
  root := ⟨approaches_self l _, fun _ _ _ _ _ =>
    ⟨trivial, fun _ => trivial, fun _ => trivial, fun _ => trivial, fun _ => trivial⟩⟩
  push _ := ⟨approaches_self l _, fun _ _ _ _ _ =>
    ⟨trivial, fun _ _ => trivial, fun _ _ => trivial, fun _ _ => trivial, fun _ => trivial⟩⟩
  alloc _ := ⟨approaches_self l _, fun _ _ _ _ _ => Realm.boundless_val _ _⟩
  element _ := ⟨approaches_self l _, fun _ _ _ _ _ => trivial⟩
  readElement _ := ⟨approaches_self l _, fun _ _ _ _ _ => Realm.boundless_val _ _⟩
  writeElement _ _ := ⟨approaches_self l _, fun _ _ _ _ _ => trivial⟩
  size _ := ⟨approaches_self l _, fun _ _ _ _ _ => trivial⟩
  close _ _ := ⟨approaches_self l _, fun _ _ _ _ _ => Realm.boundless_val _ _⟩
  host _ _ := ⟨approaches_self l _, fun _ _ _ _ _ => Realm.boundless_val _ _⟩

/-! ## More fuel -/

def inner (m : Machine) (n : Nat) : Inner :=
  ⟨n, eval m n, exec m n⟩

theorem eval_succ (m : Machine) (n : Nat) (f : Frame) (e : Expr) :
    eval m (n + 1) f e = evalStep m (inner m n) f e := by
  rw [eval, inner]

theorem exec_succ (m : Machine) (n : Nat) (f : Frame) (t : Stmt) :
    exec m (n + 1) f t = execStep m (inner m n) f t := by
  rw [exec, inner]

/-- An interpreter is its own counterpart. -/
theorem Logic.alike_inner {R : Realm} (L : Logic R ι) {m : Machine}
    (hm : ∀ name fn, m.hosts name = some fn -> L.Hosts fn) (n : Nat) :
    L.Alike (fun _ => inner m n) (inner m n) := by
  induction n with
  | zero =>
      constructor
      · intro w f e _ _
        show L.Rel w (fun _ => eval m 0 f e) (eval m 0 f e) _
        simp only [eval]
        exact L.stop trivial
      · intro w f t _ _
        show L.Rel w (fun _ => exec m 0 f t) (exec m 0 f t) _
        simp only [exec]
        exact L.stop trivial
  | succ n ih =>
      constructor
      · intro w f e hf he
        show L.Rel w (fun _ => eval m (n + 1) f e) (eval m (n + 1) f e) _
        simp only [eval_succ]
        exact ih.evalStep hm hf he
      · intro w f t hf ht
        show L.Rel w (fun _ => exec m (n + 1) f t) (exec m (n + 1) f t) _
        simp only [exec_succ]
        exact ih.execStep (fun _ => ⟨n, fun _ => rfl, .inl rfl⟩) hf ht

/-- With one more unit of fuel, everything that ended ends in the same way. -/
theorem alike_succ (m : Machine) (n : Nat) :
    (approximation (⊥ : Filter Unit)).Alike (fun _ => inner m n) (inner m (n + 1)) := by
  have hm : ∀ name fn, m.hosts name = some fn -> (approximation (⊥ : Filter Unit)).Hosts fn :=
    fun _ _ _ => trivial
  induction n with
  | zero =>
      constructor
      · intro w f e _ _
        show Logic.Rel _ w (fun _ => eval m 0 f e) _ _
        simp only [eval]
        exact (approximation ⊥).below rfl
      · intro w f t _ _
        show Logic.Rel _ w (fun _ => exec m 0 f t) _ _
        simp only [exec]
        exact (approximation ⊥).below rfl
  | succ n ih =>
      have hfuel : Logic.Alike.Fuelled (approximation ⊥) (fun _ : Unit => inner m n)
          (inner m (n + 1)) := ⟨n, fun _ => rfl, .inr ⟨rfl, Nat.le_succ n⟩⟩
      constructor
      · intro w f e hf he
        show Logic.Rel _ w (fun _ => eval m (n + 1) f e) (eval m (n + 2) f e) _
        simp only [eval_succ]
        exact ih.evalStep hm hf he
      · intro w f t hf ht
        show Logic.Rel _ w (fun _ => exec m (n + 1) f t) (exec m (n + 2) f t) _
        simp only [exec_succ]
        exact ih.execStep (fun _ => hfuel) hf ht

/-! ## The limit -/

open Classical in
/-- What computations with more and more fuel come to. -/
noncomputable def limit (x : Nat -> Run α) : Run α := fun st =>
  if h : ∃ n, ¬WantsFuel (x n st) then x (Nat.find h) st else .error .outOfFuel st

theorem limit_wantsFuel {x : Nat -> Run α} {st : Store} (h : WantsFuel (limit x st)) :
    limit x st = .error .outOfFuel st := by
  classical
  unfold limit at h ⊢
  split
  next hsome =>
    rw [dif_pos hsome] at h
    exact absurd h (Nat.find_spec hsome)
  next => rfl

/-- Computations that keep the way they end when they get more fuel. -/
def Steady (x : Nat -> Run α) : Prop :=
  ∀ n st, x n st = x (n + 1) st ∨ WantsFuel (x n st)

theorem Steady.of_le {x : Nat -> Run α} (h : Steady x) {n k : Nat} (hle : n ≤ k) {st : Store}
    (hends : ¬WantsFuel (x n st)) : x k st = x n st := by
  induction k, hle using Nat.le_induction with
  | base => rfl
  | succ k _ ih =>
      rw [← ih] at hends ⊢
      exact ((h k st).resolve_right hends).symm

theorem Steady.limit_eq {x : Nat -> Run α} (h : Steady x) {n : Nat} {st : Store}
    (hends : ¬WantsFuel (x n st)) : limit x st = x n st := by
  classical
  have hsome : ∃ n, ¬WantsFuel (x n st) := ⟨n, hends⟩
  rw [limit, dif_pos hsome]
  exact (h.of_le (Nat.find_min' hsome hends) (Nat.find_spec hsome)).symm

theorem Steady.ends_of_limit {x : Nat -> Run α} {st : Store} (hends : ¬WantsFuel (limit x st)) :
    ∃ n, limit x st = x n st := by
  unfold limit at hends ⊢
  split
  next hsome => exact ⟨_, rfl⟩
  next hnone => exact absurd (by rw [dif_neg hnone]; exact ⟨st, rfl⟩) hends

theorem Steady.approaches {x : Nat -> Run α} (h : Steady x) : Approaches atTop x (limit x) := by
  constructor
  · intro n st
    by_cases hends : WantsFuel (x n st)
    · exact .inr hends
    · exact .inl (h.limit_eq hends).symm
  · intro st hends
    obtain ⟨n, hn⟩ := Steady.ends_of_limit hends
    rw [hn] at hends
    filter_upwards [eventually_ge_atTop n] with k hk
    rw [h.of_le hk hends]
    exact hends

theorem steady_eval (m : Machine) (f : Frame) (e : Expr) : Steady fun n => eval m n f e :=
  fun n st => ((alike_succ m n).eval (w := ()) trivial fun _ _ =>
    (Realm.boundless_runs () f.scope _).1).1.below () st

theorem steady_exec (m : Machine) (f : Frame) (t : Stmt) : Steady fun n => exec m n f t :=
  fun n st => ((alike_succ m n).exec (w := ()) trivial fun _ _ =>
    Realm.boundless_runs () f.scope _).1.below () st

/-- Evaluation with all the fuel it wants. -/
noncomputable def evalFully (m : Machine) (f : Frame) (e : Expr) : Run Value :=
  limit fun n => eval m n f e

noncomputable def execFully (m : Machine) (f : Frame) (t : Stmt) : Run Completion :=
  limit fun n => exec m n f t

noncomputable def fully (m : Machine) : Inner :=
  ⟨0, evalFully m, execFully m⟩

theorem alike_fully (m : Machine) :
    (approximation (atTop : Filter Nat)).Alike (inner m) (fully m) where
  eval _ _ := ⟨(steady_eval m _ _).approaches, fun _ _ _ _ _ => Realm.boundless_val _ _⟩
  exec _ _ := ⟨(steady_exec m _ _).approaches, fun _ _ c _ _ => by
    cases c <;> first | trivial | exact Realm.boundless_val _ _⟩

/-! ## Equations -/

/-- Results that are the same, or come from runs that both want fuel. -/
def Same (a b : EStateM.Result Stop Store α) : Prop :=
  a = b ∨ WantsFuel a ∧ WantsFuel b

namespace Same

theorem refl (a : EStateM.Result Stop Store α) : Same a a :=
  .inl rfl

theorem symm {a b : EStateM.Result Stop Store α} (h : Same a b) : Same b a :=
  h.imp Eq.symm And.symm

theorem trans {a b c : EStateM.Result Stop Store α} (h : Same a b) (h' : Same b c) : Same a c := by
  rcases h with rfl | ⟨ha, hb⟩
  · exact h'
  · rcases h' with rfl | ⟨_, hc⟩
    · exact .inr ⟨ha, hb⟩
    · exact .inr ⟨ha, hc⟩

/-- The same result is reached by both if it is by one. -/
theorem ends_iff {a b c : EStateM.Result Stop Store α} (h : Same a b) (hc : ¬WantsFuel c) :
    a = c ↔ b = c := by
  rcases h with rfl | ⟨ha, hb⟩
  · exact Iff.rfl
  · exact ⟨fun h => absurd (h ▸ ha) hc, fun h => absurd (h ▸ hb) hc⟩

variable {x y : Run α} {st : Store}

theorem attempt {k k' : Except Stop α -> Run β} (h : Same (x st) (y st))
    (hk : ∀ ending st', x st = ended ending st' -> Same (k ending st') (k' ending st')) :
    Same (x.attempt k st) (y.attempt k' st) := by
  rcases h with heq | ⟨hx, hy⟩
  · rcases wantsFuel_or_ended (x st) with hwants | ⟨ending, st', hends, hx⟩
    · exact .inr ⟨attempt_wantsFuel hwants k, attempt_wantsFuel (heq ▸ hwants) k'⟩
    · rw [attempt_ended hx hends, attempt_ended (heq.symm.trans hx) hends]
      exact hk ending st' hx
  · exact .inr ⟨attempt_wantsFuel hx k, attempt_wantsFuel hy k'⟩

theorem bind {g g' : α -> Run β} (h : Same (x st) (y st))
    (hg : ∀ a st', x st = .ok a st' -> Same (g a st') (g' a st')) :
    Same ((x >>= g) st) ((y >>= g') st) := by
  rw [bind_eq, bind_eq]
  refine h.attempt fun ending st' hx => ?_
  cases ending with
  | ok a => exact hg a st' hx
  | error stop => exact refl _

end Same

theorem Same.eq_ended {a : EStateM.Result Stop Store α} {ending : Except Stop α} {st : Store}
    (h : Same a (ended ending st)) (hends : ending ≠ .error .outOfFuel) : a = ended ending st :=
  h.resolve_right fun h => not_wantsFuel_ended hends h.2

section Statements

variable {r : Inner} {f : Frame} {t : Stmt} {ts : List Stmt} {st st' : Store}

theorem same_execAll_normal (h : Same (r.exec f t st) (ended (.ok .normal) st')) :
    r.execAll f (t :: ts) st = r.execAll f ts st' :=
  execAll_normal (h.eq_ended nofun)

theorem same_execAll_stopped {stop : Stop} (h : Same (r.exec f t st) (ended (.error stop) st')) :
    Same (r.execAll f (t :: ts) st) (ended (.error stop) st') := by
  rcases h with h | ⟨⟨st'', h⟩, hwants⟩
  · exact .inl (execAll_stopped h nofun)
  · refine .inr ⟨⟨st'', ?_⟩, hwants⟩
    exact execAll_stopped (show r.exec f t st = ended (.error .outOfFuel) st'' from h) nofun

end Statements

/-- Computations that end in the same ways. -/
def Agree (x y : Run α) : Prop :=
  ∀ st, Same (x st) (y st)

theorem Agree.refl (x : Run α) : Agree x x :=
  fun _ => .refl _

theorem Agree.symm {x y : Run α} (h : Agree x y) : Agree y x :=
  fun st => (h st).symm

theorem Agree.trans {x y z : Run α} (h : Agree x y) (h' : Agree y z) : Agree x z :=
  fun st => (h st).trans (h' st)

theorem Agree.bind {x y : Run α} (h : Agree x y) {g g' : α -> Run β}
    (hg : ∀ a, Agree (g a) (g' a)) : Agree (x >>= g) (y >>= g') :=
  fun st => (h st).bind fun a st' _ => hg a st'

/-- A limit is what it is approached by. -/
theorem Approaches.agree {x : Nat -> Run α} {y y' : Run α} (h : Approaches atTop x y)
    (h' : Approaches atTop x y') : Agree y y' := by
  intro st
  have hsame {y y' : Run α} (h : Approaches atTop x y) (h' : Approaches atTop x y')
      (hy : ¬WantsFuel (y st)) : y st = y' st := by
    obtain ⟨n, hn⟩ := (h.reach st hy).exists
    exact ((h.below n st).resolve_right hn).symm.trans ((h'.below n st).resolve_right hn)
  by_cases hy : WantsFuel (y st)
  · by_cases hy' : WantsFuel (y' st)
    · exact .inr ⟨hy, hy'⟩
    · exact .inl (hsame h' h hy').symm
  · exact .inl (hsame h h' hy)

/-- A step less of fuel makes no difference in the end. -/
theorem Approaches.succ {x : Nat -> Run α} {y : Run α} (h : Approaches atTop x y) :
    Approaches atTop (fun n => x (n + 1)) y :=
  ⟨fun n => h.below (n + 1), fun st hy => (tendsto_add_atTop_nat 1).eventually (h.reach st hy)⟩

/-- Evaluation is the step of the interpreter over evaluation and execution. -/
theorem evalFully_step (m : Machine) (f : Frame) (e : Expr) :
    Agree (evalFully m f e) (evalStep m (fully m) f e) := by
  have hstep := (alike_fully m).evalStep (w := ()) (m := m) (f := f) (e := e)
    (fun _ _ _ => trivial) trivial fun _ _ => (Realm.boundless_runs () f.scope _).1
  simp only [← eval_succ] at hstep
  exact (steady_eval m f e).approaches.succ.agree hstep.1

/-- Execution of anything but a loop is the step of the interpreter. -/
theorem execFully_step (m : Machine) (f : Frame) {t : Stmt}
    (ht : Logic.Alike.isRepeating t = false) :
    Agree (execFully m f t) (execStep m (fully m) f t) := by
  have hstep := (alike_fully m).execStep (w := ()) (m := m) (f := f) (t := t)
    (fun h => by simp [ht] at h) trivial fun _ _ => Realm.boundless_runs () f.scope _
  simp only [← exec_succ] at hstep
  exact (steady_exec m f t).approaches.succ.agree hstep.1

/-! ## Finished runs -/

/-- A run that ends with the result if it has enough fuel. -/
def Finishes (x : Nat -> Run α) (st : Store) (result : EStateM.Result Stop Store α) : Prop :=
  ∃ n, x n st = result ∧ ¬WantsFuel result

theorem Approaches.finishes_iff {x : Nat -> Run α} {y : Run α} (h : Approaches atTop x y)
    {st : Store} {result : EStateM.Result Stop Store α} :
    Finishes x st result ↔ y st = result ∧ ¬WantsFuel result := by
  constructor
  · rintro ⟨n, rfl, hends⟩
    exact ⟨((h.below n st).resolve_right hends).symm, hends⟩
  · rintro ⟨rfl, hends⟩
    obtain ⟨n, hn⟩ := (h.reach st hends).exists
    exact ⟨n, (h.below n st).resolve_right hn, hends⟩

theorem finishes_eval {m : Machine} {f : Frame} {e : Expr} {st : Store}
    {result : EStateM.Result Stop Store Value} :
    Finishes (fun n => eval m n f e) st result ↔
      evalFully m f e st = result ∧ ¬WantsFuel result :=
  (steady_eval m f e).approaches.finishes_iff

theorem finishes_exec {m : Machine} {f : Frame} {t : Stmt} {st : Store}
    {result : EStateM.Result Stop Store Completion} :
    Finishes (fun n => exec m n f t) st result ↔
      execFully m f t st = result ∧ ¬WantsFuel result :=
  (steady_exec m f t).approaches.finishes_iff

theorem finishes_execAll {m : Machine} {f : Frame} {ts : List Stmt} {st : Store}
    {result : EStateM.Result Stop Store Completion} :
    Finishes (fun n => (inner m n).execAll f ts) st result ↔
      (fully m).execAll f ts st = result ∧ ¬WantsFuel result :=
  ((alike_fully m).execAll (w := ()) trivial fun _ _ _ _ =>
    Realm.boundless_runs () f.scope _).1.finishes_iff

/-- Runs whose limits come to the same finish alike. -/
theorem finishes_congr {x x' : Nat -> Run α} {y y' : Run α} {st : Store}
    (h : ∀ result, Finishes x st result ↔ y st = result ∧ ¬WantsFuel result)
    (h' : ∀ result, Finishes x' st result ↔ y' st = result ∧ ¬WantsFuel result)
    (hsame : Same (y st) (y' st)) (result : EStateM.Result Stop Store α) :
    Finishes x st result ↔ Finishes x' st result := by
  rw [h, h', and_congr_left_iff]
  exact hsame.ends_iff

end EarlyExit.Eval
