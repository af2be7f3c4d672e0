import EarlyExit.Proofs.Expansion.Equivariance
import EarlyExit.Proofs.Expansion.Runs

/-!
# A step changes one method

The sites of a unit are those of its methods, and each is placed as if its method were the
whole tree.  So the step of a unit is the step that one of its methods takes by itself.
-/

namespace EarlyExit

def CompilationUnit.withMethod (u : CompilationUnit) (i : Nat) (m : Method) : CompilationUnit :=
  { u with methods := u.methods.set i m }

def CompilationUnit.alone (u : CompilationUnit) (m : Method) : CompilationUnit :=
  { u with methods := [m] }

namespace Node

variable {u : CompilationUnit} {i : Nat} {m : Method}

theorem get?_unit {slot : Slot} {n : Node} :
    (Node.unit u).get? slot = some n ↔
      ∃ i m, u.methods[i]? = some m ∧ slot = .method i ∧ n = .method m := by
  rw [get?_eq_some, slots, mem_listed]
  constructor
  · rintro ⟨i, m, hm, hslot, hn⟩
    exact ⟨i, m, hm, by simpa using hslot, (Option.some.inj hn).symm⟩
  · rintro ⟨i, m, hm, rfl, rfl⟩
    exact ⟨i, m, hm, by simp, rfl⟩

theorem get?_method (h : u.methods[i]? = some m) :
    (Node.unit u).get? (.method i) = some (.method m) :=
  get?_unit.2 ⟨i, m, h, rfl, rfl⟩

theorem at?_method (h : u.methods[i]? = some m) (p : Path) :
    (Node.unit u).at? (.method i :: p) = (Node.method m).at? p := by
  rw [at?, get?_method h]
  rfl

theorem put?_method (h : u.methods[i]? = some m) {new root' : Node} {p : Path}
    (hput : (Node.unit u).put? new (.method i :: p) = some root') :
    ∃ m', (Node.method m).put? new p = some (.method m') ∧ root' = .unit (u.withMethod i m') := by
  obtain ⟨c, c', hc, hbelow, hset⟩ := put?_cons_eq_some.1 hput
  rw [get?_method h] at hc
  cases hc
  cases c' with
  | method m' =>
      obtain ⟨l, hl, rfl⟩ := Option.map_eq_some_iff.1 hset
      obtain ⟨_, rfl⟩ := setEntry_eq_some.1 hl
      exact ⟨m', hbelow, rfl⟩
  | _ => cases hset

end Node

namespace Expansion

open Node

variable {o : Options} {u : CompilationUnit} {i : Nat} {m : Method}

/-! ## Sites of a method -/

def Site.isIn (slot : Slot) (s : Site) : Bool :=
  s.path.head? = some slot

theorem sites_isIn (h : u.methods[i]? = some m) :
    (sites o (.unit u)).filter (Site.isIn (.method i)) =
      (sites o (.method m)).map (Site.under (.method i)) := by
  obtain ⟨l, r, hslots, hne⟩ := slots_split (get?_method h)
  have hnone {x : Slot × Node} (hx : x ∈ l ++ r) :
      ((sites o x.2).map (Site.under x.1)).filter (Site.isIn (.method i)) = [] := by
    simp [List.filter_map, Function.comp_def, Site.isIn, Site.under, hne x hx]
  have hall : ((sites o (.method m)).map (Site.under (.method i))).filter
      (Site.isIn (.method i)) = (sites o (.method m)).map (Site.under (.method i)) := by
    simp [List.filter_map, Function.comp_def, Site.isIn, Site.under]
  rw [sites_eq, hslots]
  simp only [List.flatMap_append, List.flatMap_cons, List.filter_append, List.filter_flatMap]
  rw [List.flatMap_eq_nil_iff.2 fun x hx => hnone (List.mem_append_left r hx),
    List.flatMap_eq_nil_iff.2 fun x hx => hnone (List.mem_append_right l hx), hall]
  simp [siteAt?, siteKind?]

/-- Every site of a unit is in one of its methods. -/
theorem exists_isIn {s : Site} (h : s ∈ sites o (.unit u)) :
    ∃ i m, u.methods[i]? = some m ∧ s.isIn (.method i) := by
  obtain ⟨c, hc, hkind, _⟩ := mem_sites.1 h
  cases hpath : s.path with
  | nil =>
      rw [hpath] at hc
      cases hc
      cases hkind
  | cons slot p =>
      rw [hpath] at hc
      obtain ⟨d, hd, _⟩ := at?_cons_eq_some.1 hc
      obtain ⟨i, m, hm, rfl, _⟩ := get?_unit.1 hd
      exact ⟨i, m, hm, by simp [Site.isIn, hpath]⟩

/-- A site is placed as if its method were the whole tree. -/
theorem place_method (h : u.methods[i]? = some m) {s : Site} (hs : s ∈ sites o (.method m)) :
    place (.unit u) (.method i :: s.path) s.span =
      (place (.method m) s.path s.span).under [.method i] := by
  have hunit : (Node.unit u).at? [.method i] = some (.method m) := by
    rw [at?_method h]
    rfl
  have hspine : (Node.unit u).spine (.method i :: s.path) =
      ((Node.method m).spine s.path).map (Above.moved [.method i] id) ++
        [⟨[], .unit u, .method i⟩] := by
    rw [← List.singleton_append, spine_append hunit]
    congr 1
    · exact List.map_congr_left fun a _ => by simp [Above.under, Above.moved, Node.rename_id]
    · simp [spine, get?_method h]
  -- the way up from a site in a method leads to the method
  have htop : ∃ a ∈ (Node.method m).spine s.path, ∃ m, a.node = .method m := by
    obtain ⟨c, hc, hkind, _⟩ := mem_sites.1 hs
    cases hpath : s.path with
    | nil =>
        rw [hpath] at hc
        cases hc
        cases hkind
    | cons slot p =>
        rw [hpath] at hc
        obtain ⟨d, hd, _⟩ := at?_cons_eq_some.1 hc
        exact ⟨⟨[], .method m, slot⟩, by simp [spine, hd], m, rfl⟩
  have hout := Outside.unit [] u (.method i)
  unfold place
  dsimp only
  rw [hspine, scopeDepth_moved hout]
  exact climb_moved (q := [.method i]) hout s.span _ [] (.inr htop)

/-! ## Tasks of a method -/

def Task.under (slot : Slot) (t : Task) : Task :=
  ⟨t.site.under slot, t.chain.map (slot :: ·), t.context.under [slot]⟩

theorem tasks_filter {sort : Site -> Bool} {l : List (Site × Placement)} {ts : List Task}
    (h : tasks l = .ok ts) :
    tasks (l.filter fun x => sort x.1) = .ok (ts.filter fun t => sort t.site) := by
  induction l generalizing ts with
  | nil =>
      cases h
      rfl
  | cons x rest ih =>
      obtain ⟨site, p⟩ := x
      rw [tasks] at h
      split at h
      next => cases h
      next => cases h
      next context hverdict =>
        split at h
        next us hus =>
          cases h
          cases hsort : sort site with
          | true => simp [hsort, tasks, hverdict, ih hus]
          | false => simpa [hsort] using ih hus
        next => cases h

theorem tasks_under {slot : Slot} {l : List (Site × Placement)} {ts : List Task}
    (h : tasks (l.map fun x => (x.1.under slot, x.2.under [slot])) = .ok ts) :
    ∃ us, tasks l = .ok us ∧ ts = us.map (Task.under slot) := by
  induction l generalizing ts with
  | nil =>
      cases h
      exact ⟨[], rfl, rfl⟩
  | cons x rest ih =>
      obtain ⟨site, chain, statement, verdict⟩ := x
      rw [List.map_cons, tasks] at h
      cases verdict with
      | failed d => cases h
      | rejected => cases h
      | accepted context =>
          simp only [Placement.under, Verdict.under] at h
          split at h
          next us hus =>
            cases h
            obtain ⟨vs, hvs, rfl⟩ := ih hus
            exact ⟨_, by rw [tasks, hvs], rfl⟩
          next => cases h

/-- The tasks of a unit that are in a method are the tasks of the method. -/
theorem tasks_method (h : u.methods[i]? = some m) {ts : List Task}
    (hts : tasks (placements o (.unit u)) = .ok ts) :
    ∃ us, tasks (placements o (.method m)) = .ok us ∧
      (ts.filter fun t => t.site.isIn (.method i)) = us.map (Task.under (.method i)) := by
  refine tasks_under ?_
  rw [← tasks_filter hts]
  unfold placements
  rw [List.filter_map, Function.comp_def]
  dsimp only
  rw [sites_isIn h, List.map_map, List.map_map]
  refine congrArg tasks (List.map_congr_left fun s hs => ?_)
  simp only [Function.comp_apply, Site.under, place_method h hs]

/-! ## The task that is next -/

/-- The next task is the first one of its depth. -/
theorem deepest_find (t : Task) (ts : List Task) :
    (t :: ts).find? (fun x => x.context.depth = (deepest t ts).context.depth) =
      some (deepest t ts) := by
  induction ts generalizing t with
  | nil => simp [deepest]
  | cons u rest ih =>
      rw [deepest]
      split
      next hless =>
        have hle := deepest_le u rest u List.mem_cons_self
        rw [List.find?_cons_of_neg (by simp only [decide_eq_true_eq]; omega)]
        exact ih u
      next hnot =>
        have hle := deepest_le t rest t List.mem_cons_self
        have hfirst := ih t
        by_cases ht : t.context.depth = (deepest t rest).context.depth
        · rw [List.find?_cons_of_pos (by simpa using ht)] at hfirst ⊢
          exact hfirst
        · rw [List.find?_cons_of_neg (by simpa using ht)] at hfirst ⊢
          rw [List.find?_cons_of_neg (by simp only [decide_eq_true_eq]; omega)]
          exact hfirst

/-- The next task is next among the tasks of its sort. -/
theorem deepest_filter {sort : Task -> Bool} {t t' : Task} {ts ts' : List Task}
    (hsort : sort (deepest t ts) = true) (hts : (t :: ts).filter sort = t' :: ts') :
    deepest t' ts' = deepest t ts := by
  have hmem : deepest t ts ∈ t' :: ts' := by
    rw [← hts]
    exact List.mem_filter.2 ⟨deepest_mem t ts, hsort⟩
  have hmem' : deepest t' ts' ∈ t :: ts := by
    have := deepest_mem t' ts'
    rw [← hts] at this
    exact (List.mem_filter.1 this).1
  have hdepth : (deepest t' ts').context.depth = (deepest t ts).context.depth :=
    Nat.le_antisymm (deepest_le t ts _ hmem') (deepest_le t' ts' _ hmem)
  have hfind := deepest_find t' ts'
  rw [hdepth, ← hts, List.find?_filter] at hfind
  obtain ⟨-, before, after, hsplit, hbefore⟩ := List.find?_eq_some_iff_append.1 (deepest_find t ts)
  have hsame : (t :: ts).find? (fun x => decide (sort x = true ∧
      decide (x.context.depth = (deepest t ts).context.depth) = true)) = some (deepest t ts) := by
    refine List.find?_eq_some_iff_append.2 ⟨by simp [hsort], before, after, hsplit, fun x hx => ?_⟩
    simpa using .inr (by simpa using hbefore x hx)
  exact Option.some.inj (hfind.symm.trans hsame)

theorem deepest_under (slot : Slot) (t : Task) (ts : List Task) :
    deepest (t.under slot) (ts.map (Task.under slot)) = (deepest t ts).under slot := by
  induction ts generalizing t with
  | nil => rfl
  | cons u rest ih =>
      rw [List.map_cons, deepest, deepest, ih, ih, apply_ite (Task.under slot)]
      rfl

/-! ## A step in a method -/

/-- The change of a unit is one of a method in it. -/
def Within (u : CompilationUnit) (i : Nat) (x y : Except Defect Change) : Prop :=
  ∀ c, x = .ok c -> ∃ m', y = .ok ⟨⟨c.work.names, .method m'⟩, c.event⟩ ∧
    c.work.root = .unit (u.withMethod i m')

theorem putAt_method (h : u.methods[i]? = some m) {p : Path} {span : Span} {new root' : Node}
    (hput : putAt (.unit u) (.method i :: p) span new = .ok root') :
    ∃ m', putAt (.method m) p span new = .ok (.method m') ∧ root' = .unit (u.withMethod i m') := by
  unfold putAt at hput
  split at hput
  next n hn =>
    cases hput
    obtain ⟨m', hm', rfl⟩ := put?_method h hn
    exact ⟨m', by rw [putAt, hm'], rfl⟩
  next => cases hput

theorem splice_method (h : u.methods[i]? = some m) {p : Path} {s : Stmt} {new : List Stmt}
    {root' : Node} (hsplice : splice (.unit u) (.method i :: p) s new = .ok root') :
    ∃ m', splice (.method m) p s new = .ok (.method m') ∧ root' = .unit (u.withMethod i m') := by
  cases p with
  | nil =>
      -- a method is no statement
      simp [splice, spliceInto, at?, replaceChild, get?_method h, isOperand] at hsplice
  | cons slot rest =>
      unfold splice at hsplice
      rw [List.getLast?_cons_cons, List.dropLast_cons_cons, at?_method h] at hsplice
      split at hsplice
      next last parent hlast hparent =>
        split at hsplice
        next changed hinto =>
          obtain ⟨m', hm', rfl⟩ := putAt_method h hsplice
          refine ⟨m', ?_, rfl⟩
          simp only [splice, hlast, hparent, hinto]
          exact hm'
        next => cases hsplice
      next => cases hsplice

theorem wrapAt_method (h : u.methods[i]? = some m) (ns : Names) (p : Path) :
    Within u i (wrapAt ⟨ns, .unit u⟩ (.method i :: p)) (wrapAt ⟨ns, .method m⟩ p) := by
  intro c hc
  unfold wrapAt at hc ⊢
  rw [at?_method h] at hc
  split at hc
  next e hat =>
    obtain ⟨e', hwrap, hc⟩ := bind_ok hc
    obtain ⟨root', hput, hc⟩ := bind_ok hc
    cases hc
    obtain ⟨m', hm', rfl⟩ := putAt_method h hput
    refine ⟨m', ?_, rfl⟩
    simp only [hat, hwrap, hm', Bind.bind, Except.bind]
    rfl
  next => cases hc

theorem liftAt_method (h : u.methods[i]? = some m) (ns : Names) (anchor p : Path) :
    Within u i (liftAt ⟨ns, .unit u⟩ (.method i :: anchor) (.method i :: p))
      (liftAt ⟨ns, .method m⟩ anchor p) := by
  intro c hc
  unfold liftAt at hc ⊢
  simp only [at?_method h] at hc
  split at hc
  next s cond hat hcond =>
    obtain ⟨⟨new, names⟩, hlift, hc⟩ := bind_ok hc
    obtain ⟨root', hsplice, hc⟩ := bind_ok hc
    cases hc
    obtain ⟨m', hm', rfl⟩ := splice_method h hsplice
    refine ⟨m', ?_, rfl⟩
    simp only [hat, hcond, hlift, hm', Bind.bind, Except.bind]
    rfl
  next => cases hc

theorem ofSites_under (slot : Slot) (anchor : Path) (l : List (Path × Kind × List Path)) :
    Marks.ofSites (slot :: anchor) (l.map fun x => (slot :: x.1, x.2.1, x.2.2.map (slot :: ·))) =
      Marks.ofSites anchor l := by
  have hbelow (p : Path) : Path.below? (slot :: anchor) (slot :: p) = Path.below? anchor p := by
    simp [Path.below?]
  simp only [Marks.ofSites, List.flatMap_map, List.filterMap_map, Function.comp_def, hbelow,
    List.filterMap_flatMap, List.filterMap_cons]

theorem hoistAt_method (h : u.methods[i]? = some m) (ns : Names) (anchor : Path) (exit : Exit)
    (ts : List Task) :
    Within u i (hoistAt ⟨ns, .unit u⟩ (.method i :: anchor) exit (ts.map (Task.under (.method i))))
      (hoistAt ⟨ns, .method m⟩ anchor exit ts) := by
  intro c hc
  unfold hoistAt at hc ⊢
  have hmarks : Marks.ofSites (.method i :: anchor) ((ts.map (Task.under (.method i))).map fun t =>
      (t.site.path, t.site.kind, t.chain)) =
        Marks.ofSites anchor (ts.map fun t => (t.site.path, t.site.kind, t.chain)) := by
    rw [← ofSites_under (.method i) anchor, List.map_map, List.map_map]
    rfl
  simp only [at?_method h, hmarks, List.length_map] at hc
  split at hc
  next s hat =>
    obtain ⟨hoisted, hhoist, hc⟩ := bind_ok hc
    obtain ⟨root', hsplice, hc⟩ := bind_ok hc
    cases hc
    obtain ⟨m', hm', rfl⟩ := splice_method h hsplice
    refine ⟨m', ?_, rfl⟩
    simp only [hat, hhoist, hm', Bind.bind, Except.bind]
    rfl
  next => cases hc

/-- Every task of a unit is a task of one of its methods. -/
theorem exists_task_method {ts : List Task} (hts : tasks (placements o (.unit u)) = .ok ts)
    {t : Task} (ht : t ∈ ts) :
    ∃ i m us, u.methods[i]? = some m ∧ tasks (placements o (.method m)) = .ok us ∧
      (ts.filter fun t => t.site.isIn (.method i)) = us.map (Task.under (.method i)) ∧
      t.site.isIn (.method i) = true ∧ ∃ v ∈ us, v.under (.method i) = t := by
  obtain ⟨x, hx, hof⟩ := forall₂_right (tasks_ok hts) ht
  obtain ⟨i, m, hm, hin⟩ := exists_isIn hx
  rw [← hof.site] at hin
  obtain ⟨us, hus, hfilter⟩ := tasks_method hm hts
  have hmem : t ∈ us.map (Task.under (.method i)) := hfilter ▸ List.mem_filter.2 ⟨ht, hin⟩
  exact ⟨i, m, us, hm, hus, hfilter, hin, List.mem_map.1 hmem⟩

theorem anchored_under {slot : Slot} {place : Place} {anchor : Path} :
    (place.under [slot] == .anchored (slot :: anchor)) = (place == .anchored anchor) := by
  rw [Bool.eq_iff_iff, beq_iff_eq, beq_iff_eq]
  cases place <;> simp [Place.under]

/-- The tasks at an anchor in a method are tasks of the method. -/
theorem group_method {anchor : Path} {ts us : List Task}
    (hts : tasks (placements o (.unit u)) = .ok ts)
    (hus : (ts.filter fun t => t.site.isIn (.method i)) = us.map (Task.under (.method i))) :
    group (.method i :: anchor) ts = (group anchor us).map (Task.under (.method i)) := by
  have hin : ∀ t ∈ ts, (t.context.place == .anchored (.method i :: anchor)) =
      ((t.context.place == .anchored (.method i :: anchor)) && t.site.isIn (.method i)) := by
    intro t ht
    rw [Bool.eq_iff_iff, Bool.and_eq_true]
    refine ⟨fun hplace => ⟨hplace, ?_⟩, And.left⟩
    -- the place is below the method that the site is in
    obtain ⟨j, m, _, _, _, _, hj, v, _, rfl⟩ := exists_task_method hts ht
    rw [beq_iff_eq] at hplace
    have heq : Slot.method j = .method i := by
      simp only [Task.under, Context.under] at hplace
      cases hv : v.context.place <;> simp_all [Place.under]
    rwa [← heq]
  unfold group
  rw [List.filter_congr hin, ← List.filter_filter, hus, List.filter_map]
  refine congrArg _ (List.filter_congr fun t _ => ?_)
  exact anchored_under

/-- A step of a unit is a step of one of its methods. -/
theorem step_method {ns : Names} {c : Change} (h : step o ⟨ns, .unit u⟩ = .ok (some c)) :
    ∃ i m m', u.methods[i]? = some m ∧
      step o ⟨ns, .method m⟩ = .ok (some ⟨⟨c.work.names, .method m'⟩, c.event⟩) ∧
      c.work.root = .unit (u.withMethod i m') := by
  unfold step at h
  obtain ⟨ts, hts, h⟩ := bind_ok h
  cases ts with
  | nil => cases h
  | cons first rest =>
      obtain ⟨i, m, us, hm, hus, hfilter, hin, v, hv, hunder⟩ :=
        exists_task_method hts (deepest_mem first rest)
      cases us with
      | nil => cases hv
      | cons first' rest' =>
          -- the task that is next in the unit is next in its method
          have hnext : (deepest first' rest').under (.method i) = deepest first rest := by
            rw [← deepest_under]
            exact deepest_filter hin (by rw [hfilter, List.map_cons])
          have hgo {x y : Except Defect Change} (hxy : Within u i x y)
              (hx : some <$> x = .ok (some c)) :
              ∃ m', some <$> y = .ok (some ⟨⟨c.work.names, .method m'⟩, c.event⟩) ∧
                c.work.root = .unit (u.withMethod i m') := by
            obtain ⟨_, hc, heq⟩ := map_ok hx
            cases heq
            obtain ⟨m', hm', hroot⟩ := hxy c hc
            exact ⟨m', by rw [hm']; rfl, hroot⟩
          suffices hone : ∃ m', step o ⟨ns, .method m⟩ =
              .ok (some ⟨⟨c.work.names, .method m'⟩, c.event⟩) ∧
                c.work.root = .unit (u.withMethod i m') by
            obtain ⟨m', hm', hroot⟩ := hone
            exact ⟨i, m, m', hm, hm', hroot⟩
          unfold step
          simp only [hus, Bind.bind, Except.bind]
          dsimp only at h
          rw [← hnext] at h
          simp only [Task.under, Context.under] at h
          cases hplace : (deepest first' rest').context.place with
          | wrapped p =>
              simp only [hplace, Place.under] at h ⊢
              exact hgo (wrapAt_method hm ns p) h
          | lifted anchor p =>
              simp only [hplace, Place.under] at h ⊢
              exact hgo (liftAt_method hm ns anchor p) h
          | anchored anchor =>
              simp only [hplace, Place.under] at h ⊢
              simp only [List.singleton_append] at h
              rw [group_method hts hfilter] at h
              exact hgo (hoistAt_method hm ns anchor _ _) h

end Expansion

end EarlyExit
