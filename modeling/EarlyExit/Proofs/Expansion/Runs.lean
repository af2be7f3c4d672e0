import EarlyExit.Expansion.Expand
import EarlyExit.Proofs.Expansion.Move

/-!
# Runs

A run takes steps until no site is left.  `Takes` is the sequence of steps as such; a
run that ends well is one that arrives at a tree without sites, and a run that fails
has arrived at a tree where the step fails, or has used up its steps.
-/

namespace EarlyExit.Expansion

/-- So many steps lead from one tree under expansion to another. -/
inductive Takes (o : Options) : Nat -> Work -> Work -> Prop
  | none (w : Work) : Takes o 0 w w
  | more {k : Nat} {w w' : Work} {change : Change} (h : step o w = .ok (some change))
      (rest : Takes o k change.work w') : Takes o (k + 1) w w'

theorem run_ok {o : Options} {limit left : Nat} {w : Work} {r : Run}
    (h : run o limit left w = .ok r) :
    ∃ w', Takes o r.steps w w' ∧ step o w' = .ok none ∧ r.root = w'.root ∧ r.steps ≤ left := by
  induction left generalizing w r with
  | zero =>
      unfold run at h
      cases hone : step o w with
      | error d => simp [hone, Bind.bind, Except.bind] at h
      | ok change? =>
          cases change? with
          | none =>
              simp only [hone, Bind.bind, Except.bind, pure, Except.pure, Except.ok.injEq] at h
              subst h
              exact ⟨w, .none w, hone, rfl, Nat.le_refl 0⟩
          | some change =>
              simp only [hone, Bind.bind, Except.bind] at h
              cases h
  | succ left ih =>
      unfold run at h
      cases hone : step o w with
      | error d => simp [hone, Bind.bind, Except.bind] at h
      | ok change? =>
          cases change? with
          | none =>
              simp only [hone, Bind.bind, Except.bind, pure, Except.pure, Except.ok.injEq] at h
              subst h
              exact ⟨w, .none w, hone, rfl, Nat.zero_le _⟩
          | some change =>
              simp only [hone, Bind.bind, Except.bind] at h
              split at h
              · cases h
              next rest hrest =>
                cases h
                obtain ⟨w', htakes, hend, hroot, hle⟩ := ih hrest
                exact ⟨w', .more hone htakes, hend, hroot, Nat.succ_le_succ hle⟩

theorem run_error {o : Options} {limit left : Nat} {w : Work} {d : Defect}
    (h : run o limit left w = .error d) :
    ∃ k w', Takes o k w w' ∧ (step o w' = .error d ∨
      (k = left ∧ d = .diverged .nowhere (limit + 1) ∧ ∃ change, step o w' = .ok (some change))) := by
  induction left generalizing w with
  | zero =>
      unfold run at h
      cases hone : step o w with
      | error d' =>
          simp only [hone, Bind.bind, Except.bind] at h
          cases h
          exact ⟨0, w, .none w, .inl hone⟩
      | ok change? =>
          cases change? with
          | none => simp [hone, Bind.bind, Except.bind, pure, Except.pure] at h
          | some change =>
              simp only [hone, Bind.bind, Except.bind] at h
              cases h
              exact ⟨0, w, .none w, .inr ⟨rfl, rfl, change, hone⟩⟩
  | succ left ih =>
      unfold run at h
      cases hone : step o w with
      | error d' =>
          simp only [hone, Bind.bind, Except.bind] at h
          cases h
          exact ⟨0, w, .none w, .inl hone⟩
      | ok change? =>
          cases change? with
          | none => simp [hone, Bind.bind, Except.bind, pure, Except.pure] at h
          | some change =>
              simp only [hone, Bind.bind, Except.bind] at h
              split at h
              next d' hrest =>
                cases h
                obtain ⟨k, w', htakes, hend⟩ := ih hrest
                refine ⟨k + 1, w', .more hone htakes, ?_⟩
                rcases hend with hend | ⟨rfl, hd, hmore⟩
                · exact .inl hend
                · exact .inr ⟨rfl, hd, hmore⟩
              next => cases h

/-! ## Failures of a step -/

/-- Whether a defect is about the course of a run and not about a node. -/
def aboutRun : Defect -> Bool
  | .diverged .. | .lateRejection .. => true
  | _ => false

def Accepted (o : Options) (root : Node) : Prop :=
  ∀ x ∈ placements o root, ∃ c, x.2.verdict = .accepted c

instance (v : Verdict) : Decidable (∃ c, v = .accepted c) :=
  match v with
  | .accepted c => isTrue ⟨c, rfl⟩
  | .rejected .. => isFalse fun ⟨_, h⟩ => nomatch h
  | .failed _ => isFalse fun ⟨_, h⟩ => nomatch h

instance (o : Options) (root : Node) : Decidable (Accepted o root) :=
  inferInstanceAs (Decidable (∀ x ∈ placements o root, ∃ c, x.2.verdict = .accepted c))

theorem judge_failed {depth : Nat} {chain : List Path} {up : Above} {s : Stmt}
    {rest : List Above} {place : Place} {d : Defect}
    (h : (judge depth chain up s rest place).verdict = .failed d) : aboutRun d = false := by
  unfold judge at h
  repeat' split at h
  all_goals first
    | cases h; rfl
    | cases h

theorem inConditional_failed {depth : Nat} {chain : List Path} {up : Above} {rest : List Above}
    {d : Defect} (h : (inConditional depth chain up rest).verdict = .failed d) :
    aboutRun d = false := by
  unfold inConditional at h
  obtain ⟨inner, top, outer, hnest⟩ : ∃ inner top outer, nest up rest = (inner, top, outer) :=
    ⟨_, _, _, rfl⟩
  rw [hnest] at h
  dsimp only at h
  repeat' split at h
  all_goals first
    | exact judge_failed h
    | cases h

theorem climb_failed {span : Span} {depth : Nat} {chain : List Path} {up : List Above}
    {d : Defect} (h : (climb span depth chain up).verdict = .failed d) :
    aboutRun d = false := by
  induction up generalizing chain with
  | nil =>
      cases h
      rfl
  | cons a rest ih =>
      unfold climb at h
      dsimp only at h
      repeat' split at h
      all_goals first
        | exact ih h
        | exact judge_failed h
        | exact inConditional_failed h
        | cases h

/-- Tasks cannot be made of sites that are not accepted. -/
theorem tasks_error {o : Options} {root : Node} {d : Defect}
    (h : tasks (placements o root) = .error d) :
    ¬Accepted o root ∧ (aboutRun d = false ∨ ∃ span, d = .lateRejection span) := by
  unfold placements at h
  unfold Accepted placements
  generalize sites o root = found at h ⊢
  induction found with
  | nil => cases h
  | cons s rest ih =>
      rw [List.map_cons, tasks] at h
      split at h
      next hverdict =>
        cases h
        refine ⟨fun hall => ?_, .inl (climb_failed hverdict)⟩
        obtain ⟨c, hc⟩ := hall (s, place root s.path s.span) List.mem_cons_self
        rw [hverdict] at hc
        cases hc
      next hverdict =>
        cases h
        refine ⟨fun hall => ?_, .inr ⟨_, rfl⟩⟩
        obtain ⟨c, hc⟩ := hall (s, place root s.path s.span) List.mem_cons_self
        rw [hverdict] at hc
        cases hc
      next =>
        split at h
        next => cases h
        next hrest =>
          cases h
          obtain ⟨hnot, hd⟩ := ih hrest
          exact ⟨fun hall => hnot fun x hx => hall x (List.mem_cons_of_mem _ hx), hd⟩

theorem bind_error {x : Except ε α} {f : α -> Except ε β} {e : ε} (h : (x >>= f) = .error e) :
    x = .error e ∨ ∃ a, x = .ok a ∧ f a = .error e := by
  cases x with
  | error e' =>
      cases h
      exact .inl rfl
  | ok a => exact .inr ⟨a, rfl, h⟩

theorem map_error {x : Except ε α} {f : α -> β} {e : ε} (h : f <$> x = .error e) :
    x = .error e := by
  cases x <;> cases h
  rfl

theorem putAt_error {root new : Node} {p : Path} {span : Span} {d : Defect}
    (h : putAt root p span new = .error d) : aboutRun d = false := by
  unfold putAt at h
  split at h <;> cases h
  rfl

theorem spliceInto_error {parent : Node} {slot : Slot} {s : Stmt} {new : List Stmt} {d : Defect}
    (h : spliceInto parent slot s new = .error d) : aboutRun d = false := by
  unfold spliceInto at h
  split at h
  · cases h
  · split at h <;> cases h
    rfl
  · cases h
  · dsimp only at h
    split at h <;> cases h
    rfl

theorem splice_error {root : Node} {anchor : Path} {s : Stmt} {new : List Stmt} {d : Defect}
    (h : splice root anchor s new = .error d) : aboutRun d = false := by
  unfold splice at h
  split at h
  · split at h
    · exact putAt_error h
    next hinto =>
      cases h
      exact spliceInto_error hinto
  · cases h
    rfl

theorem lift_error {ns : Names} {s : Stmt} {c : Conditional} {d : Defect}
    (h : lift ns s c = .error d) : aboutRun d = false := by
  cases s with
  | expr s e => cases e <;> cases h
  | var s name type value =>
      simp only [lift] at h
      generalize (if type.isEmpty then c.valueType else type) = type' at h
      split at h <;> cases h
      rfl
  | branch | switch | sync | forEach =>
      simp only [lift] at h
      split at h <;> cases h
      rfl
  | _ =>
      cases h
      try rfl

theorem wrapAt_error {w : Work} {p : Path} {d : Defect} (h : wrapAt w p = .error d) :
    aboutRun d = false := by
  unfold wrapAt at h
  split at h
  next e _ =>
    rcases bind_error h with hwrap | ⟨e', _, h⟩
    · unfold wrapLambda at hwrap
      split at hwrap
      · split at hwrap <;> cases hwrap
        rfl
      · cases hwrap
        rfl
    · rcases bind_error h with hput | ⟨_, _, h⟩
      · exact putAt_error hput
      · cases h
  next =>
    cases h
    rfl

theorem liftAt_error {w : Work} {anchor p : Path} {d : Defect}
    (h : liftAt w anchor p = .error d) : aboutRun d = false := by
  unfold liftAt at h
  split at h
  next =>
    rcases bind_error h with hlift | ⟨_, _, h⟩
    · exact lift_error hlift
    · rcases bind_error h with hsplice | ⟨_, _, h⟩
      · exact splice_error hsplice
      · cases h
  next =>
    cases h
    rfl

/-- Hoisting out of the anchor of a deepest site does not fail. -/
theorem hoistAnchor_ok {o : Options} (ho : o.Apart) {root : Node} {x : Site} {t : Task}
    {ts : List Task} {anchor : Path} {s : Stmt}
    (hts : List.Forall₂ (Task.Of root) (sites o root) ts) (hx : x ∈ sites o root)
    (ht : t.Of root x) (hplace : t.context.place = .anchored anchor)
    (hdeepest : ∀ u ∈ ts, u.context.depth ≤ t.context.depth)
    (hat : root.at? anchor = some (.stmt s)) (ns : Names) (exit : Exit) :
    ∃ hoisted, hoistAnchor ns s exit (Marks.ofSites anchor ((group anchor ts).map fun t =>
      (t.site.path, t.site.kind, t.chain))) = .ok hoisted := by
  obtain ⟨slot, ha⟩ := Anchor.of_task hx ht hplace hat
  have hdirect := ha.direct hts hx ht hplace hdeepest
  obtain ⟨v, new, ns', hrun, _⟩ :=
    hoistAll_cleared ho ⟨exit, writtenNames s.anchorExpr⟩ s.anchorExpr hdirect ns
  unfold hoistAnchor
  rw [ha.hslot]
  simp only [hoist_eq o _ _ _ (ha.marked hdirect hts), EStateM.run, hrun []]
  exact ⟨_, rfl⟩

/-- A step fails for a site that is not accepted, or because of a node. -/
theorem step_error {o : Options} (ho : o.Apart) {w : Work} {d : Defect}
    (h : step o w = .error d) :
    aboutRun d = false ∨ ¬Accepted o w.root ∧ ∃ span, d = .lateRejection span := by
  unfold step at h
  rcases bind_error h with htasks | ⟨ts, hts, h⟩
  · obtain ⟨hnot, hd⟩ := tasks_error htasks
    exact hd.imp id fun hlate => ⟨hnot, hlate⟩
  · cases ts with
    | nil => cases h
    | cons first rest =>
        have hall := tasks_ok hts
        obtain ⟨x, hx, hof⟩ := forall₂_right hall (deepest_mem first rest)
        left
        dsimp only at h
        split at h
        next => exact wrapAt_error (map_error h)
        next => exact liftAt_error (map_error h)
        next anchor hplace =>
          replace h := map_error h
          unfold hoistAt at h
          split at h
          next s hat =>
            obtain ⟨hoisted, hh⟩ := hoistAnchor_ok ho hall hx hof hplace
              (deepest_le first rest) hat w.names (deepest first rest).context.exit
            rcases bind_error h with herror | ⟨_, _, h⟩
            · rw [hh] at herror
              cases herror
            · rcases bind_error h with hsplice | ⟨_, _, h⟩
              · exact splice_error hsplice
              · cases h
          next =>
            cases h
            rfl

/-! ## Expansions -/

theorem firstDefect?_eq_some {o : Options} {root : Node} {d : Defect}
    (h : firstDefect? (placements o root) = some d) : aboutRun d = false := by
  obtain ⟨x, hx, hsome⟩ := List.exists_of_findSome?_eq_some h
  obtain ⟨s, _, rfl⟩ := List.mem_map.1 hx
  dsimp only at hsome
  split at hsome
  next hverdict =>
    cases hsome
    exact climb_failed hverdict
  next => cases hsome

def start (o : Options) (u : CompilationUnit) : Work :=
  ⟨.ofTree o.stem (.unit u), .unit u⟩

/-- No site of a tree is rejected, and none is in a place where it cannot be. -/
structure Admitted (o : Options) (root : Node) : Prop where
  fit : firstDefect? (placements o root) = none
  unrejected : rejections (placements o root) = []

theorem firstDefect?_eq_none {ps : List (Site × Placement)} :
    firstDefect? ps = none ↔ ∀ x ∈ ps, ∀ d, x.2.verdict ≠ .failed d := by
  rw [firstDefect?, List.findSome?_eq_none_iff]
  refine forall₂_congr fun x _ => ?_
  cases x.2.verdict <;> simp

theorem rejections_eq_nil {ps : List (Site × Placement)} :
    rejections ps = [] ↔ ∀ x ∈ ps, ∀ reason node, x.2.verdict ≠ .rejected reason node := by
  rw [rejections, Diagnostic.sort, ← List.length_eq_zero_iff, List.length_mergeSort,
    List.length_eq_zero_iff, List.filterMap_eq_nil_iff]
  refine forall₂_congr fun x _ => ?_
  cases x.2.verdict <;> simp

theorem admitted_iff {o : Options} {root : Node} : Admitted o root ↔ Accepted o root := by
  constructor
  · intro h x hx
    cases hverdict : x.2.verdict with
    | accepted c => exact ⟨c, rfl⟩
    | failed d => exact (firstDefect?_eq_none.1 h.fit x hx d hverdict).elim
    | rejected reason node =>
        exact (rejections_eq_nil.1 h.unrejected x hx reason node hverdict).elim
  · intro h
    refine ⟨firstDefect?_eq_none.2 fun x hx d hd => ?_,
      rejections_eq_nil.2 fun x hx reason node hr => ?_⟩
    · obtain ⟨c, hc⟩ := h x hx
      rw [hd] at hc
      cases hc
    · obtain ⟨c, hc⟩ := h x hx
      rw [hr] at hc
      cases hc

/-- All that an expansion can come to. -/
inductive Expanded (o : Options) (u : CompilationUnit) : Except Defect Report -> Prop
  | misfit {d : Defect} (h : firstDefect? (placements o (.unit u)) = some d) :
      Expanded o u (.error d)
  | rejected {report : Report} (hfit : firstDefect? (placements o (.unit u)) = none)
      (h : rejections (placements o (.unit u)) ≠ []) (hsteps : report.steps = 0)
      (hunit : report.unit? = none) : Expanded o u (.ok report)
  | stopped {d : Defect} (h : Admitted o (.unit u))
      (hrun : run o (stepLimit o (siteCount o (.unit u))) (stepLimit o (siteCount o (.unit u)))
        (start o u) = .error d) : Expanded o u (.error d)
  | finished {r : Run} {v : CompilationUnit} {report : Report} (h : Admitted o (.unit u))
      (hrun : run o (stepLimit o (siteCount o (.unit u))) (stepLimit o (siteCount o (.unit u)))
        (start o u) = .ok r) (hroot : r.root = .unit v) (hsteps : report.steps = r.steps)
      (hunit : report.unit? = some v) : Expanded o u (.ok report)
  | lost (h : Admitted o (.unit u)) :
      Expanded o u (.error (.inconsistentTree .nowhere "place not found"))

theorem expand_spec (o : Options) (u : CompilationUnit) : Expanded o u (expand o u) := by
  have hcount : (placements o (.unit u)).length = siteCount o (.unit u) := by
    simp [placements, siteCount]
  unfold expand
  simp only [hcount]
  cases hfirst : firstDefect? (placements o (.unit u)) with
  | some d => exact .misfit hfirst
  | none =>
      simp only
      split
      next hsome => exact .rejected hfirst (by simpa using hsome) rfl rfl
      next hnone =>
        have hadmitted : Admitted o (.unit u) := ⟨hfirst, by simpa using hnone⟩
        cases hrun : run o (stepLimit o (siteCount o (.unit u)))
            (stepLimit o (siteCount o (.unit u))) (start o u) with
        | error d =>
            have hrun' := hrun
            unfold start at hrun'
            simp only [hrun', Bind.bind, Except.bind]
            exact .stopped hadmitted hrun
        | ok r =>
            have hrun' := hrun
            unfold start at hrun'
            simp only [hrun', Bind.bind, Except.bind]
            split
            next v hroot => exact .finished hadmitted hrun hroot rfl rfl
            next => exact .lost hadmitted

end EarlyExit.Expansion
