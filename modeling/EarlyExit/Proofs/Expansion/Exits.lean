import EarlyExit.Proofs.Expansion.Stability
import EarlyExit.Proofs.Settings

/-!
# The exits of the tests

Each site of a unit gets a test with an exit.  The exit is the one the site was placed with,
with one exception: when a `throw` statement is split by the conditional it throws, the test
of the conditional moves into an `if` statement in front, and a site in there leaves the
scope instead.  A site that stands in the test of a conditional by way of a conditional
without a type does not get that far.
-/

namespace EarlyExit.Expansion

/-! ## What the nodes below the statement decide -/

def Shape.isTest : Shape -> Bool
  | conditional _ viaTest => viaTest
  | _ => false

def Shape.isUntyped : Shape -> Bool
  | conditional typed _ => !typed
  | _ => false

/-- Whether a site stands in the test of a conditional, within its statement or lambda. -/
def inTest (w : List Shape) : Bool :=
  (w.takeWhile Shape.isInline).any Shape.isTest

/-- Whether a conditional without a type is the test of another one, within a list. -/
def isStuckIn : List Shape -> Bool
  | x :: y :: rest => x.isUntyped && y.isTest || isStuckIn (y :: rest)
  | _ => false

/-- Whether one of the conditionals around a site cannot be lifted after the outer ones. -/
def isStuck (w : List Shape) : Bool :=
  isStuckIn (w.takeWhile Shape.isInline)

/-- The exit foretold for a site that is placed with `now`. -/
def exitAfter (w : List Shape) (now : Exit) : Option Exit :=
  if now = .throw ∧ inTest w = true then scopeExit? w else some now

theorem scopeExit?_ne_throw {w : List Shape} {e : Exit} (h : scopeExit? w = some e) :
    e ≠ .throw := by
  fun_induction scopeExit? w with
  | case1 => cases h
  | case2 => cases h; simp
  | case3 => cases h; simp
  | case4 => cases h; simp
  | case5 _ _ ih => exact ih h
  | case6 _ _ _ _ _ ih => exact ih h

theorem inTest_cons {x : Shape} (hx : x.isInline = true) (w : List Shape) :
    inTest (x :: w) = (x.isTest || inTest w) := by
  simp [inTest, hx]

theorem inTest_of_not_inline {x : Shape} (hx : x.isInline = false) (w : List Shape) :
    inTest (x :: w) = false := by
  simp [inTest, hx]

theorem isStuck_of_not_inline {x y : Shape} (hy : y.isInline = false) (w : List Shape) :
    isStuck (x :: y :: w) = false := by
  cases hx : x.isInline <;> simp [isStuck, hx, hy, isStuckIn]

theorem isStuck_cons {x y : Shape} (hx : x.isInline = true) (hy : y.isInline = true)
    (w : List Shape) :
    isStuck (x :: y :: w) = (x.isUntyped && y.isTest || isStuck (y :: w)) := by
  simp [isStuck, hx, hy, isStuckIn]

theorem isStuck_passed {x : Shape} (hx : x.isUntyped = false) (hinline : x.isInline = true)
    (w : List Shape) : isStuck (x :: w) = isStuck w := by
  cases w with
  | nil => simp [isStuck, hinline, isStuckIn]
  | cons y w =>
      cases hy : y.isInline with
      | true => simp [isStuck_cons hinline hy, hx]
      | false =>
          rw [isStuck_of_not_inline hy]
          simp [isStuck, hy, isStuckIn]

/-- What a statement decides about the sites that reach it. -/
theorem later_at {throws viaTest stuck : Bool} {up : List Shape} {p : Prospect}
    (h : prospectAt throws viaTest stuck up = some p) :
    p.later = if stuck then none
      else if p.now = .throw ∧ (throws && viaTest) = true then scopeExit? up else some p.now := by
  unfold prospectAt at h
  split at h
  next =>
    obtain ⟨e, he, rfl⟩ := Option.map_eq_some_iff.1 h
    have hthrow := scopeExit?_ne_throw he
    cases stuck <;> cases throws <;> cases viaTest <;> simp [he, hthrow]
  next => cases h

theorem now_at {viaTest stuck : Bool} {up : List Shape} {p : Prospect}
    (h : prospectAt false viaTest stuck up = some p) : p.now ≠ .throw := by
  unfold prospectAt at h
  split at h
  next =>
    obtain ⟨e, he, rfl⟩ := Option.map_eq_some_iff.1 h
    exact scopeExit?_ne_throw he
  next => cases h

theorem now_throws {throws viaTest stuck : Bool} {up : List Shape} {p : Prospect}
    (h : prospectAt throws viaTest stuck up = some p) (hp : p.now = .throw) : throws = true := by
  cases throws with
  | true => rfl
  | false => exact (now_at h hp).elim

/-- In a nest of conditionals, the last of which has been passed. -/
theorem later_nested (via : Bool) {typed viaTest stuck : Bool} {w : List Shape} {p : Prospect}
    (h : prospect? (.nested typed viaTest stuck) w = some p) :
    p.later = if stuck || isStuck (.conditional typed via :: w) then none
      else if p.now = .throw ∧ (viaTest || inTest w) = true then scopeExit? w else some p.now := by
  induction w generalizing via typed viaTest stuck with
  | nil => cases h
  | cons x w ih =>
      cases x with
      | conditional typed' viaTest' =>
          rw [prospect?] at h
          rw [ih viaTest' h, isStuck_cons rfl rfl, inTest_cons rfl]
          simp [Shape.isUntyped, Shape.isTest, scopeExit?, or_assoc, and_comm]
      | lambda =>
          cases h
          rw [isStuck_of_not_inline rfl]
          simp
      | stmt s =>
          simp only [prospect?] at h
          split at h
          next =>
            rw [later_at h, isStuck_of_not_inline rfl, inTest_of_not_inline rfl, Bool.or_false,
              Bool.or_false]
            by_cases hp : p.now = .throw
            · simp [hp, now_throws h hp, scopeExit?]
            · simp [hp]
          next => cases h
      | assignment =>
          cases w with
          | nil => cases h
          | cons y w =>
              cases y with
              | stmt s =>
                  simp only [prospect?] at h
                  split at h
                  next =>
                    rw [later_at h, isStuck_cons rfl rfl, isStuck_of_not_inline rfl]
                    simp [now_at h, Shape.isTest]
                  next => cases h
              | _ => cases h
      | _ => cases h

/-- The fate of an accepted site, read off what is above it. -/
theorem later_walking {w : List Shape} {p : Prospect} (h : prospect? .walking w = some p) :
    p.later = if isStuck w then none else exitAfter w p.now := by
  induction w with
  | nil => cases h
  | cons x w ih =>
      cases x with
      | operand | assignment | switchExpr =>
          rw [ih h, isStuck_passed rfl rfl, exitAfter, exitAfter, inTest_cons rfl]
          simp [Shape.isTest, scopeExit?]
      | conditional typed viaTest =>
          rw [later_nested viaTest h, exitAfter, inTest_cons rfl]
          simp [Shape.isTest, scopeExit?]
      | lambda =>
          cases h
          simp [exitAfter, isStuck, Shape.isInline, isStuckIn]
      | stmt s =>
          simp only [prospect?] at h
          split at h
          next =>
            rw [later_at h, exitAfter, inTest_of_not_inline rfl]
            simp [isStuck, Shape.isInline, isStuckIn]
          next => cases h
      | _ => cases h

theorem scopeExit?_of_prospect {g : Gait} {w : List Shape} {p : Prospect}
    (h : prospect? g w = some p) : (scopeExit? w).isSome = true := by
  have hat {throws viaTest stuck : Bool} {up : List Shape}
      (h : prospectAt throws viaTest stuck up = some p) : (scopeExit? up).isSome = true := by
    unfold prospectAt at h
    split at h
    next =>
      obtain ⟨e, he, _⟩ := Option.map_eq_some_iff.1 h
      simp [he]
    next => cases h
  fun_induction prospect? g w with
  | case1 | case8 | case12 | case14 | case15 => cases h
  | case2 _ ih | case3 _ ih | case4 _ ih => exact ih h
  | case5 _ _ _ ih => exact ih h
  | case9 _ _ _ _ _ _ ih => exact ih h
  | case6 | case10 => rfl
  | case7 | case11 | case13 => simpa [scopeExit?] using hat h

/-! ## Sites by shape -/

theorem ways_sites (o : Options) (root : Node) :
    ways o root = (sites o root).map fun x => shapes (root.spine x.path) := by
  simp [ways, located]

theorem verdict_exit (root : Node) (x : Site) :
    (place root x.path x.span).verdict.exit? =
      (prospect? .walking (shapes (root.spine x.path))).map (·.now) :=
  climb_exit ..

theorem accepted_iff {o : Options} {root : Node} : Accepted o root ↔ Placeable o root := by
  simp only [Accepted, placements, Placeable, ways_sites, List.forall_mem_map]
  refine forall₂_congr fun x _ => ?_
  rw [← Option.isSome_map (f := (·.now)), ← verdict_exit]
  cases (place root x.path x.span).verdict <;> simp [Verdict.exit?]

/-- The fate of an accepted site. -/
theorem fate_site {root : Node} {x : Site} {c : Context}
    (h : (place root x.path x.span).verdict = .accepted c) :
    fate (shapes (root.spine x.path)) =
      if isStuck (shapes (root.spine x.path)) then none
      else exitAfter (shapes (root.spine x.path)) c.exit := by
  have hexit := verdict_exit root x
  rw [h] at hexit
  obtain ⟨p, hp, hnow⟩ := Option.map_eq_some_iff.1 hexit.symm
  rw [fate, hp, Option.bind_some, later_walking hp, hnow]

/-! ## Whole runs -/

/-- The exits of the tests that a run puts in, in the order of the sites they are for. -/
def testExits (o : Options) : Nat -> Work -> Except Defect (List Exit)
  | left, w => do
      match ← step o w with
      | none => return []
      | some change =>
          match left with
          | 0 => throw (.diverged .nowhere 0)
          | left + 1 =>
              let (flags, now) ← settles o w
              return weave flags now (← testExits o left change.work)

/-- Steps that end have put in a test for every site, with the exit of its fate. -/
theorem testExits_takes {o : Options} (ho : o.Apart) {k left : Nat} {w w' : Work}
    (h : Takes o k w w') (hend : step o w' = .ok none) (hleft : k ≤ left) :
    ∃ exits, testExits o left w = .ok exits ∧ exits.map some = fates o w.root := by
  induction h generalizing left with
  | none w =>
      refine ⟨[], ?_, ?_⟩
      · unfold testExits
        simp [hend, Bind.bind, Except.bind, pure, Except.pure]
      · simp [fates, isLive_eq_false.1 (step_none hend)]
  | @more k w w' change hone _ ih =>
      obtain ⟨left, rfl⟩ : ∃ m, left = m + 1 := ⟨left - 1, by omega⟩
      obtain ⟨hplace, ⟨flags, now⟩, hsettles, hstepped⟩ := step_some hone
      obtain ⟨later, hlater, hfates⟩ := ih hend (Nat.le_of_succ_le_succ hleft)
      refine ⟨weave flags now later, ?_, ?_⟩
      · unfold testExits
        simp [hone, hsettles, hlater, Bind.bind, Except.bind, pure, Except.pure]
      · rw [map_weave, hfates, (hstepped.remains ho).weave_fates hplace]

/-- An expansion that gives a unit has ended its steps. -/
theorem expand_takes {o : Options} {u v : CompilationUnit} {report : Report}
    (h : expand o u = .ok report) (hunit : report.unit? = some v) :
    ∃ k w, Takes o k (start o u) w ∧ step o w = .ok none ∧ w.root = .unit v ∧
      k ≤ stepLimit o (siteCount o (.unit u)) ∧ Admitted o (.unit u) := by
  have hexpanded := expand_spec o u
  rw [h] at hexpanded
  cases hexpanded with
  | rejected _ _ _ hnone =>
      rw [hnone] at hunit
      cases hunit
  | finished hadmitted hrun hroot _ hsome =>
      rw [hsome] at hunit
      cases hunit
      obtain ⟨w, htakes, hend, hw, hle⟩ := run_ok hrun
      exact ⟨_, w, htakes, hend, hw ▸ hroot, hle, hadmitted⟩

/-- No site of a tree is in the way of its own lifting. -/
def Unstuck (o : Options) (root : Node) : Prop :=
  ∀ x ∈ sites o root, isStuck (shapes (root.spine x.path)) = false

instance (o : Options) (root : Node) : Decidable (Unstuck o root) :=
  inferInstanceAs (Decidable (∀ x ∈ sites o root, isStuck (shapes (root.spine x.path)) = false))

/-- The fates of accepted sites are all known exactly if none is stuck. -/
theorem unstuck_iff {o : Options} {root : Node} (h : Accepted o root) :
    Unstuck o root ↔ ∀ f ∈ fates o root, f ≠ none := by
  simp only [Unstuck, fates, ways_sites, List.map_map, List.forall_mem_map, Function.comp_apply]
  refine forall₂_congr fun x hx => ?_
  have hverdict := verdict_exit root x
  obtain ⟨c, hc⟩ := h (x, place root x.path x.span) (List.mem_map_of_mem hx)
  rw [hc] at hverdict
  obtain ⟨p, hp, _⟩ := Option.map_eq_some_iff.1 hverdict.symm
  have hscope := scopeExit?_of_prospect hp
  rw [fate_site hc]
  cases isStuck (shapes (root.spine x.path)) with
  | true => simp
  | false =>
      simp only [exitAfter, Bool.false_eq_true, if_false]
      split
      next => simpa [Option.isSome_iff_ne_none] using hscope
      next => simp

/--
The exit of each test is that of its site's placement in the tree as it was given, unless the
site is in the test of a conditional that is thrown: there the scope is left.
-/
theorem exits_as_placed {s : Settings} {r : Registry} (h : s.check = .ok r)
    {u v : CompilationUnit} {report : Report} (hexpand : expand (s.options r) u = .ok report)
    (hunit : report.unit? = some v) :
    ∃ exits, testExits (s.options r) (stepLimit (s.options r) (siteCount (s.options r) (.unit u)))
        (start (s.options r) u) = .ok exits ∧
      List.Forall₂ (fun x e => ∃ c, x.2.verdict = .accepted c ∧
          some e = exitAfter (shapes ((Node.unit u).spine x.1.path)) c.exit ∧
          (e ≠ c.exit ↔
            c.exit = .throw ∧ inTest (shapes ((Node.unit u).spine x.1.path)) = true))
        (placements (s.options r) (.unit u)) exits := by
  obtain ⟨k, w, htakes, hend, _, hle, hadmitted⟩ := expand_takes hexpand hunit
  obtain ⟨exits, hexits, hfates⟩ := testExits_takes (s.options_apart h) htakes hend hle
  refine ⟨exits, hexits, ?_⟩
  have haccepted := admitted_iff.1 hadmitted
  -- site by site, the exit is the fate
  have hsites : List.Forall₂ (fun x e => fate (shapes ((Node.unit u).spine x.path)) = some e)
      (sites (s.options r) (.unit u)) exits := by
    have heq : List.Forall₂ (· = ·) (fates (s.options r) (.unit u)) (exits.map some) :=
      List.forall₂_eq_eq_eq ▸ hfates.symm
    rwa [fates, ways_sites, List.map_map, List.forall₂_map_left_iff,
      List.forall₂_map_right_iff] at heq
  rw [placements, List.forall₂_map_left_iff]
  have hboth := List.forall₂_and_left (p := fun x =>
    ∃ c, (place (.unit u) x.path x.span).verdict = .accepted c) _ _ |>.2
      ⟨fun x hx => haccepted _ (List.mem_map_of_mem hx), hsites⟩
  refine hboth.imp ?_
  rintro x e ⟨⟨c, hc⟩, hfate⟩
  rw [fate_site hc] at hfate
  split at hfate
  next => cases hfate
  next =>
    refine ⟨c, hc, hfate.symm, ?_⟩
    unfold exitAfter at hfate
    split at hfate
    next hthrown => exact iff_of_true (hthrown.1 ▸ scopeExit?_ne_throw hfate) hthrown
    next hplain =>
      cases hfate
      exact iff_of_false (fun hne => hne rfl) hplain

/-- A unit with the method `m() { throw f().unwrap() ? a : b; }`. -/
def thrownUnit : CompilationUnit where
  file := "Thrown.java"
  methods := [{
    name := "m"
    returns := "Either<String, Integer>"
    body := some (.mk .nowhere [.throw .nowhere (.conditional .nowhere
      (.call .nowhere (.call .nowhere .missing "f" [] "Either<String, Boolean>") "unwrap" []
        "boolean")
      (.ident .nowhere "a" "Exception") (.ident .nowhere "b" "Exception") "Exception")]) }]

/-- The site in the test is placed to throw, and its test returns. -/
theorem exits_as_placed_thrownUnit :
    ∃ report v exits, expand (({} : Settings).options .standard) thrownUnit = .ok report ∧
      report.unit? = some v ∧
      testExits (({} : Settings).options .standard) (stepLimit (({} : Settings).options .standard)
        (siteCount (({} : Settings).options .standard) (.unit thrownUnit)))
        (start (({} : Settings).options .standard) thrownUnit) = .ok exits ∧
      List.Forall₂ (fun x e => ∃ c, x.2.verdict = .accepted c ∧ c.exit = .throw ∧ e = .ret)
        (placements (({} : Settings).options .standard) (.unit thrownUnit)) exits := by
  have hgiven : ((expand (({} : Settings).options .standard) thrownUnit).toOption.bind
      Report.unit?).isSome = true := by decide +kernel
  cases hreport : expand (({} : Settings).options .standard) thrownUnit with
  | error d =>
      rw [hreport] at hgiven
      cases hgiven
  | ok report =>
      rw [hreport] at hgiven
      obtain ⟨v, hv⟩ := Option.isSome_iff_exists.1 hgiven
      obtain ⟨exits, hexits, hall⟩ := exits_as_placed Settings.check_default hreport hv
      refine ⟨report, v, exits, rfl, hv, hexits, ?_⟩
      have hplaced : ∀ x ∈ placements (({} : Settings).options .standard) (.unit thrownUnit),
          x.2.verdict.exit? = some .throw ∧
            scopeExit? (shapes ((Node.unit thrownUnit).spine x.1.path)) = some .ret ∧
            inTest (shapes ((Node.unit thrownUnit).spine x.1.path)) = true := by decide +kernel
      refine ((List.forall₂_and_left _ _).2 ⟨hplaced, hall⟩).imp ?_
      rintro x e ⟨⟨hexit, hscope, htest⟩, c, hc, he, _⟩
      rw [hc] at hexit
      have hthrow : c.exit = .throw := Option.some.inj hexit
      rw [exitAfter, if_pos ⟨hthrow, htest⟩, hscope] at he
      exact ⟨c, hc, hthrow, Option.some.inj he⟩

end EarlyExit.Expansion
