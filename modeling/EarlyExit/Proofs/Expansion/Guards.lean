import EarlyExit.Proofs.Expansion.Temporaries

/-!
# One test for each site

A site becomes a temporary for the container and, right behind it, a test that exits in
the alternate state.  The tests over new names in an expanded unit are as many as the
sites of the unit, of the same kinds, and the success value of each temporary is taken
out once.
-/

namespace EarlyExit.Expansion

open Node

/-! ## Tests -/

/-- The expression makes a container of the kind with the alternate state of a variable. -/
def rebuilds (kind : Kind) (x : String) : Expr -> Bool
  | .call _ (.ident _ className _) factory [] _ =>
      className = kind.name && factory = kind.alternateFactory && kind.alternateAccessor.isEmpty
  | .call _ (.ident _ className _) factory [value] _ =>
      className = kind.name && factory = kind.alternateFactory &&
        !kind.alternateAccessor.isEmpty && callsMember x kind.alternateAccessor (.expr value)
  | _ => false

/-- The statement leaves with the alternate state of a variable. -/
def leavesWith (kind : Kind) (x : String) : Exit -> Stmt -> Bool
  | .ret, .ret _ e | .throw, .throw _ e | .yield, .yield _ e _ => rebuilds kind x e
  | _, _ => false

/-- A declaration and the statement behind it, in a list of statements. -/
structure GuardPlace where
  /-- The node that lists the statements. -/
  path : Path
  /-- The place of the declaration in the list. -/
  index : Nat
  span : Span
  exit : Exit
  kind : Kind
  name : String

namespace GuardPlace

/-- The statements are a declaration and a test of its variable that leaves. -/
def isPair (g : GuardPlace) : Stmt -> Stmt -> Bool
  | .var s x _ _, .branch _ test (.block (.mk _ [leave])) .missing =>
      s = g.span && x = g.name && callsMember x g.kind.predicate (.expr test) &&
        leavesWith g.kind x g.exit leave
  | _, _ => false

def standsIn (g : GuardPlace) (root : Node) : Bool :=
  match root.at? g.path with
  | some owner =>
      match owner.row[g.index]?, owner.row[g.index + 1]? with
      | some s, some t => g.isPair s t
      | _, _ => false
  | none => false

theorem standsIn_iff {g : GuardPlace} {root : Node} : g.standsIn root = true ↔
    ∃ owner s t, root.at? g.path = some owner ∧ owner.row[g.index]? = some s ∧
      owner.row[g.index + 1]? = some t ∧ g.isPair s t = true := by
  unfold standsIn
  cases root.at? g.path with
  | none => simp
  | some owner =>
      simp only [Option.some.injEq, exists_and_left, exists_eq_left']
      generalize owner.row[g.index]? = first
      generalize owner.row[g.index + 1]? = second
      cases first <;> cases second <;> simp

end GuardPlace

/--
The tests over new names in an expanded unit are one for each site of the unit, and the
success value of each is taken out once.
-/
def GuardsMatch (o : Options) (u v : CompilationUnit) : Prop :=
  ∃ guards : List GuardPlace,
    (∀ g, g ∈ guards ↔ g.standsIn (.unit v) = true ∧ g.kind ∈ o.registry.kinds ∧
      g.name ∉ usedNames (.unit u)) ∧
    guards.Nodup ∧
    (guards.map fun g => (g.span, g.kind)).Perm ((sites o (.unit u)).map fun s => (s.span, s.kind)) ∧
    ∀ g ∈ guards, (places (callsMember g.name g.kind.accessor) (.unit v)).length = 1

/-! ## The pair of a temporary -/

theorem rebuilds_reconstruct (kind : Kind) (x type : String) (s : Span) :
    rebuilds kind x (kind.reconstruct (.ident s x type) s) = true := by
  unfold Kind.reconstruct
  split
  next hempty => simp [rebuilds, hempty]
  next hempty => simp [rebuilds, hempty, callsMember, memberCall?]

theorem isPair_statements (g : Guard) (p : Path) (i : Nat) {s t : Stmt}
    (h : g.statements = [s, t]) :
    (GuardPlace.mk p i g.span g.exit g.kind g.name).isPair s t = true := by
  have hleaves : leavesWith g.kind g.name g.exit
      (g.exit.statement (g.kind.reconstruct (.ident g.span g.name g.type) g.span)) = true := by
    cases g.exit <;> exact rebuilds_reconstruct ..
  simp only [Guard.statements, guardStatements, List.cons.injEq, and_true] at h
  obtain ⟨rfl, rfl⟩ := h
  simp [GuardPlace.isPair, hleaves, Kind.guard, callsMember, memberCall?]

theorem leavesWith_exit {kind : Kind} {x : String} {exit exit' : Exit} {e : Expr}
    (h : leavesWith kind x exit (exit'.statement e) = true) : exit = exit' := by
  cases exit <;> cases exit' <;> first | rfl | cases h

/-- Two built-in kinds of which one has the test of the other among its members are equal. -/
theorem eq_of_predicate {k k' : Kind} (hk : k ∈ Kind.builtin) (hk' : k' ∈ Kind.builtin)
    (h : k.predicate ∈ [k'.predicate, k'.alternateAccessor, k'.accessor]) : k = k' := by
  have hall : ∀ k ∈ Kind.builtin, ∀ k' ∈ Kind.builtin,
      k.predicate ∈ [k'.predicate, k'.alternateAccessor, k'.accessor] -> k = k' := by decide
  exact hall k hk k' hk' h

theorem members_count {g : Guard} (h : g.kind ∈ Kind.builtin) :
    (Temp.guard g).members.count g.kind.accessor = 1 := by
  have hall : ∀ k ∈ Kind.builtin, (k.predicate :: ((if k.alternateAccessor.isEmpty then []
      else [k.alternateAccessor]) ++ [k.accessor])).count k.accessor = 1 := by decide
  exact hall g.kind h

theorem sites_temps (ts : List Temp) :
    (ts.flatMap Temp.sites).filterMap Trait.site? =
      (ts.filterMap Temp.guard?).map fun g => (g.span, g.kind) := by
  induction ts with
  | nil => rfl
  | cons t ts ih =>
      rw [List.flatMap_cons, List.filterMap_append, ih]
      cases t <;> rfl

theorem sites_traits (ts : List Temp) :
    (ts.flatMap Temp.traits).filterMap Trait.site? =
      ([] : List (Span × Kind)) := by
  rw [List.filterMap_eq_nil_iff]
  intro trait htrait
  obtain ⟨t, _, ht⟩ := List.mem_flatMap.1 htrait
  rw [t.traits_eq] at ht
  rcases List.mem_cons.1 ht with rfl | ht
  · rfl
  · obtain ⟨_, _, rfl⟩ := List.mem_map.1 ht
    rfl

/-- The sites of the unit are those that the temporaries stand for. -/
theorem Kept.sites {o : Options} {kinds : List String} {begin w : Work} {ts : List Temp}
    (h : Kept o kinds begin ts w) (hdead : isLive o w.root = false) :
    ((ts.filterMap Temp.guard?).map fun g => (g.span, g.kind)).Perm
      ((Expansion.sites o begin.root).map fun s => (s.span, s.kind)) := by
  have hperm := h.census.filterMap Trait.site?
  have hnone : Expansion.sites o w.root = [] := by simpa [isLive] using hdead
  rw [List.filterMap_append, List.filterMap_append, census_sites, census_sites, sites_temps,
    sites_traits, hnone] at hperm
  simpa using hperm

/-- What is declared under a name that the unit does not use is a temporary. -/
theorem Kept.declared {o : Options} {kinds : List String} {begin w : Work} {ts : List Temp}
    (h : Kept o kinds begin ts w) {p : Path} {n : Node} {x : String} (hn : w.root.at? p = some n)
    (hname : declaredName? n = some x) (hx : x ∉ usedNames begin.root) :
    ∃ t ∈ ts, t.name = x := by
  rcases h.mentions _ (declared_mem_mentions (mem_nodes.2 ⟨p, hn⟩) hname) with hcovered | hbrings
  · rcases hcovered with hm | ⟨hfalse, _⟩
    · exact absurd (mem_usedNames.2 ⟨_, hm⟩) hx
    · cases hfalse
  · obtain ⟨t, ht, heq | ⟨hfalse, _⟩⟩ := hbrings
    · exact ⟨t, ht, heq.symm⟩
    · cases hfalse

/-- Every pair over a new name is the one of a temporary, where this is declared. -/
theorem Kept.pair {o : Options} (ho : o.Plain) {begin w : Work} {ts : List Temp}
    (h : Kept o kindNames begin ts w)
    (hspares : begin.names.Spares (usedNames begin.root ++ kindNames))
    (hkinds : ∀ g, .guard g ∈ ts -> g.kind ∈ Kind.builtin) {g : GuardPlace}
    (hstands : g.standsIn w.root = true) (hkind : g.kind ∈ Kind.builtin)
    (hname : g.name ∉ usedNames begin.root) :
    ∃ k, .guard k ∈ ts ∧ g.span = k.span ∧ g.exit = k.exit ∧ g.kind = k.kind ∧ g.name = k.name ∧
      places (declares k.name) w.root = [g.path ++ [.stmt g.index]] := by
  obtain ⟨owner, s, t, howner, hs, ht, hpair⟩ := GuardPlace.standsIn_iff.1 hstands
  unfold GuardPlace.isPair at hpair
  split at hpair
  next span x type e span' test span'' leave =>
    simp only [Bool.and_eq_true, decide_eq_true_eq] at hpair
    obtain ⟨⟨⟨rfl, rfl⟩, hcalls⟩, hleaves⟩ := hpair
    -- the declaration is that of a temporary
    have hdeclaration := get?_of_row hs rfl
    have hat : w.root.at? (g.path ++ [.stmt g.index]) = some (.stmt (.var g.span g.name type e)) :=
      at?_concat_eq_some.2 ⟨owner, howner, hdeclaration⟩
    obtain ⟨temp, htemp, hsame⟩ := h.declared hat rfl hname
    -- whose test is called, so it has one
    have htest : w.root.at? (g.path ++ [.stmt (g.index + 1)] ++ [.test]) = some (.expr test) := by
      refine at?_concat_eq_some.2 ⟨_, at?_concat_eq_some.2 ⟨owner, howner, get?_of_row ht rfl⟩, ?_⟩
      have hfilled : test.isMissing = false := by
        cases test <;> simp_all [callsMember, memberCall?, Expr.isMissing]
      rw [get?_eq_some]
      simp [slots, stmtSlots, single, ofExpr?_of_filled hfilled]
    have hmember : g.kind.predicate ≠ o.sentinel := by
      rw [ho.sentinel]
      have hall : ∀ k ∈ Kind.builtin, k.predicate ≠ "unwrap" := by decide
      exact hall g.kind hkind
    have hcount := h.calls hspares htemp hmember
    rw [hsame] at hcount
    have hcalled : g.kind.predicate ∈ temp.members := by
      rw [← List.count_pos_iff, ← hcount]
      exact List.length_pos_of_mem (mem_places.2 ⟨_, htest, hcalls⟩)
    cases temp with
    | plain => cases hcalled
    | guard k =>
        have hsame : k.name = g.name := hsame
        have hsamekind : g.kind = k.kind := by
          refine eq_of_predicate hkind (hkinds k htemp) ?_
          rw [Temp.members, List.mem_cons, List.mem_append, List.mem_singleton] at hcalled
          rcases hcalled with hpredicate | halternate | haccessor
          · simp [hpredicate]
          · split at halternate
            · cases halternate
            · simp [List.mem_singleton.1 halternate]
          · simp [haccessor]
        -- the pair stands where the statements of the temporary stand
        obtain ⟨p, i, owner', howner', ⟨r, hrow⟩, hplaces⟩ := h.declaration hspares htemp
        have hplace : g.path ++ [.stmt g.index] ∈ places (declares k.name) w.root :=
          mem_places.2 ⟨_, hat, by simpa [declares, declaredName?] using hsame.symm⟩
        rw [show (Temp.guard k).name = k.name from rfl] at hplaces
        rw [hplaces, List.mem_singleton] at hplace
        obtain ⟨rfl, hslot⟩ := List.append_inj' hplace rfl
        cases hslot
        rw [howner] at howner'
        cases howner'
        have hfirst : (owner.row.drop g.index)[0]? = some (.var g.span g.name type e) := by
          simpa using hs
        have hsecond : (owner.row.drop g.index)[1]? = some (.branch span' test
            (.block (.mk span'' [leave])) .missing) := by
          simpa using ht
        rw [← hrow] at hfirst hsecond
        simp only [Temp.statements, Guard.statements, guardStatements, List.cons_append,
          List.getElem?_cons_zero, List.getElem?_cons_succ, Option.some.injEq, Stmt.var.injEq,
          Stmt.branch.injEq, Stmt.block.injEq, Block.mk.injEq, List.cons.injEq, and_true]
          at hfirst hsecond
        obtain ⟨hspan, _⟩ := hfirst
        obtain ⟨_, _, _, hleave⟩ := hsecond
        rw [← hleave] at hleaves
        exact ⟨k, htemp, hspan.symm, leavesWith_exit hleaves, hsamekind, hsame.symm, hplaces⟩
  next => cases hpair

/--
The expansion of a unit puts in one test for each site, and takes the success value of each
temporary out once, unless a compound assignment repeats a site.
-/
theorem one_guard_per_site {u v : CompilationUnit} {report : Report}
    (h : expand {} u = .ok report) (hunit : report.unit? = some v)
    (hrepeat : ∀ n ∈ (Node.unit u).nodes, repeatsSite {} n = false) : GuardsMatch {} u v := by
  have ho : Options.Plain {} := ⟨rfl, rfl⟩
  obtain ⟨ts, w, hkept, hroot, hdead, hkinds⟩ := expand_kept ho h hunit hrepeat
  have hspares := spares_start {} u
  have hplace : ∀ g : Guard, ∃ p i, Temp.guard g ∈ ts -> ∃ owner, w.root.at? p = some owner ∧
      g.statements <+: owner.row.drop i ∧ places (declares g.name) w.root = [p ++ [.stmt i]] := by
    intro g
    by_cases hg : Temp.guard g ∈ ts
    · obtain ⟨p, i, owner, hdeclaration⟩ := hkept.declaration hspares hg
      exact ⟨p, i, fun _ => ⟨owner, hdeclaration⟩⟩
    · exact ⟨[], 0, fun hmem => absurd hmem hg⟩
  choose path index hplace using hplace
  have hmem {g : Guard} : g ∈ ts.filterMap Temp.guard? ↔ Temp.guard g ∈ ts := by
    rw [List.mem_filterMap]
    constructor
    · rintro ⟨t, ht, hguard⟩
      cases t with
      | guard k =>
          cases hguard
          exact ht
      | plain => cases hguard
    · exact fun hg => ⟨_, hg, rfl⟩
  refine ⟨(ts.filterMap Temp.guard?).map fun g =>
    ⟨path g, index g, g.span, g.exit, g.kind, g.name⟩, ?_, ?_, ?_, ?_⟩
  · intro g
    rw [List.mem_map]
    constructor
    · rintro ⟨k, hk, rfl⟩
      have hk := hmem.1 hk
      obtain ⟨owner, howner, ⟨r, hrow⟩, _⟩ := hplace k hk
      have hfresh := hkept.fresh hspares hk
      refine ⟨GuardPlace.standsIn_iff.2 ⟨owner, _, _, hroot ▸ howner, ?_, ?_,
        isPair_statements k _ _ rfl⟩, hkinds k hk, fun hused => hfresh (List.mem_append_left _ hused)⟩
      · rw [show index k = index k + 0 from rfl, ← List.getElem?_drop, ← hrow]
        rfl
      · rw [← List.getElem?_drop, ← hrow]
        rfl
    · rintro ⟨hstands, hkind, hname⟩
      rw [← hroot] at hstands
      obtain ⟨k, hk, hspan, hexit, hkind', hname', hplaces⟩ :=
        hkept.pair ho hspares hkinds hstands hkind hname
      obtain ⟨_, _, _, hplaces'⟩ := hplace k hk
      rw [hplaces, List.cons.injEq] at hplaces'
      obtain ⟨hpath, hslot⟩ := List.append_inj' hplaces'.1 rfl
      rw [List.cons.injEq, Slot.stmt.injEq] at hslot
      refine ⟨k, hmem.2 hk, ?_⟩
      rw [← hpath, ← hslot.1, ← hspan, ← hexit, ← hkind', ← hname']
  · refine List.Nodup.of_map (fun g : GuardPlace => g.name) ?_
    have hsub : (((ts.filterMap Temp.guard?).map fun g => GuardPlace.mk (path g) (index g) g.span
        g.exit g.kind g.name).map fun g => g.name).Sublist (ts.map Temp.name) := by
      rw [List.map_map]
      clear hkept hkinds hplace hmem
      induction ts with
      | nil => exact .slnil
      | cons t ts ih =>
          cases t with
          | guard g => exact .cons_cons _ ih
          | plain => exact .cons _ ih
    exact hsub.nodup hkept.nodup
  · rw [List.map_map]
    exact hkept.sites (hroot ▸ hdead)
  · intro g hg
    obtain ⟨k, hk, rfl⟩ := List.mem_map.1 hg
    have hk := hmem.1 hk
    have hmember : k.kind.accessor ≠ ({} : Options).sentinel := by
      have hall : ∀ k ∈ Kind.builtin, k.accessor ≠ "unwrap" := by decide
      exact hall k.kind (hkinds k hk)
    have hcalls := hkept.calls hspares hk hmember
    rw [members_count (hkinds k hk), hroot] at hcalls
    exact hcalls

theorem one_guard_per_site_summingUnit :
    ∃ v, expanded? {} summingUnit = some v ∧ GuardsMatch {} summingUnit v := by
  have hsome : (expanded? {} summingUnit).isSome = true := by decide +kernel
  obtain ⟨v, hv⟩ := Option.isSome_iff_exists.1 hsome
  obtain ⟨report, hreport, hunit⟩ := expanded?_eq_some hv
  have hrepeat : (Node.unit summingUnit).nodes.all (fun n => !repeatsSite {} n) = true := by
    decide +kernel
  refine ⟨v, hv, one_guard_per_site hreport hunit fun n hn => ?_⟩
  simpa using List.all_eq_true.1 hrepeat n hn

/-- The test of the site in the target, where the target is evaluated first. -/
def repeatedGuard : GuardPlace where
  path := [.method 0, .body, .stmt 0, .value, .arm 0, .stmt 0]
  index := 0
  span := .nowhere
  exit := .yield
  kind := .either
  name := "$unwrap0"

theorem guard_repeated_repeatingUnit : lambdaFreeTargets (.unit repeatingUnit) = true ∧
    ∃ v, expanded? {} repeatingUnit = some v ∧ ¬ GuardsMatch {} repeatingUnit v := by
  refine ⟨by decide +kernel, ?_⟩
  have htwice : (expanded? {} repeatingUnit).any (fun v => repeatedGuard.standsIn (.unit v) &&
      (places (callsMember "$unwrap0" "get") (.unit v)).length = 2) = true := by decide +kernel
  obtain ⟨v, hv, htwice⟩ := (Option.any_eq_true _ _).1 htwice
  rw [Bool.and_eq_true, decide_eq_true_eq] at htwice
  obtain ⟨hstands, htwice⟩ := htwice
  refine ⟨v, hv, fun ⟨guards, hguards, _, _, honce⟩ => ?_⟩
  have hkind : repeatedGuard.kind ∈ ({} : Options).registry.kinds := by decide
  have hname : repeatedGuard.name ∉ usedNames (.unit repeatingUnit) := by decide +kernel
  have hmem := (hguards repeatedGuard).2 ⟨hstands, hkind, hname⟩
  have hone : (places (callsMember "$unwrap0" "get") (.unit v)).length = 1 :=
    honce repeatedGuard hmem
  omega

end EarlyExit.Expansion
