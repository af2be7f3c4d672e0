import EarlyExit.Proofs.Expansion.Exits
import EarlyExit.Proofs.Expansion.Rows
import EarlyExit.Proofs.Expansion.Scope
import EarlyExit.Proofs.Expansion.Steady

/-!
# The temporaries of a run

What is known of all temporaries that have been put in so far: how they changed the
census, that their statements still stand together, that no other name has come in, and
that nothing uses them outside the reach of their declarations.  A step keeps all of it
and adds its own temporaries, and so does a run.
-/

namespace EarlyExit.Expansion

open Node

/-! ## Places -/

def places (sort : Node -> Bool) (root : Node) : List Path :=
  (root.walk.filter fun y => sort y.2).map (·.1)

theorem mem_places {sort : Node -> Bool} {root : Node} {p : Path} :
    p ∈ places sort root ↔ ∃ n, root.at? p = some n ∧ sort n = true := by
  simp [places, mem_walk]

theorem length_places (sort : Node -> Bool) (root : Node) :
    (places sort root).length = root.nodes.countP sort := by
  simp [places, nodes, List.countP_eq_length_filter, List.filter_map, Function.comp_def]

def declares (x : String) (n : Node) : Bool :=
  declaredName? n = some x

def callsMember (x member : String) (n : Node) : Bool :=
  memberCall? n = some (x, member)

section Count

variable {o : Options} {old : List String}

/-- What every node of a sort gives once is counted by their places. -/
theorem count_gather {g : Node -> List Trait} {trait : Trait} {sort : Node -> Bool}
    (h : ∀ c, (g c).count trait = if sort c then 1 else 0) (n : Node) :
    (gather g n).count trait = (places sort n).length := by
  rw [length_places, gather]
  induction n.nodes with
  | nil => rfl
  | cons c rest ih =>
      rw [List.flatMap_cons, List.count_append, List.countP_cons, ih, h c]
      omega

theorem count_declared {x : String} (hx : x ∉ old) (n : Node) :
    (census o old n).count (.declared x) = (places (declares x) n).length := by
  refine count_gather (fun c => ?_) n
  have hmember {l : List (String × String)} :
      (l.map fun y => Trait.member y.1 y.2).count (.declared x) = 0 := by
    simp [List.count_eq_zero]
  have hsite {l : List Kind} : (l.map (Trait.site c.span)).count (.declared x) = 0 := by
    simp [List.count_eq_zero]
  rw [traits, List.count_append, List.count_append, hmember, hsite]
  unfold declares
  cases hname : declaredName? c with
  | none => simp
  | some y =>
      by_cases hy : y ∈ old
      · have hne : y ≠ x := by
          rintro rfl
          exact hx hy
        simp [Option.filter, hy, hne]
      · simp [Option.filter, hy, List.count_singleton]

theorem count_member {x member : String} (hx : x ∉ old) (hmember : member ≠ o.sentinel) (n : Node) :
    (census o old n).count (.member x member) = (places (callsMember x member) n).length := by
  refine count_gather (fun c => ?_) n
  have hdeclared {l : List String} : (l.map Trait.declared).count (.member x member) = 0 := by
    simp [List.count_eq_zero]
  have hsite {l : List Kind} : (l.map (Trait.site c.span)).count (.member x member) = 0 := by
    simp [List.count_eq_zero]
  rw [traits, List.count_append, List.count_append, hdeclared, hsite]
  unfold callsMember
  cases hcall : memberCall? c with
  | none => simp
  | some y =>
      obtain ⟨y, other⟩ := y
      by_cases hy : y ∉ old ∧ other ≠ o.sentinel
      · simp [Option.filter, hy, List.count_singleton]
      · have hne : ¬(y = x ∧ other = member) := by
          rintro ⟨rfl, rfl⟩
          exact hy ⟨hx, hmember⟩
        have hfilter : (some (y, other)).filter
            (fun z => decide (z.1 ∉ old ∧ z.2 ≠ o.sentinel)) = none := by
          simp [Option.filter, hy]
        rw [hfilter]
        simp [hne]

def Temp.members : Temp -> List String
  | guard g => g.kind.predicate :: ((if g.kind.alternateAccessor.isEmpty then []
      else [g.kind.alternateAccessor]) ++ [g.kind.accessor])
  | plain .. => []

theorem Temp.traits_eq (t : Temp) :
    t.traits = .declared t.name :: t.members.map (.member t.name) := by
  cases t with
  | guard g =>
      simp only [traits, members, name]
      split <;> rfl
  | plain => rfl

theorem count_names (ts : List Temp) (x : String) :
    (ts.flatMap Temp.traits).count (.declared x) = (ts.map Temp.name).count x := by
  induction ts with
  | nil => rfl
  | cons t ts ih =>
      have hmembers : (t.members.map (Trait.member t.name)).count (.declared x) = 0 := by
        simp [List.count_eq_zero]
      rw [List.flatMap_cons, List.count_append, ih, t.traits_eq, List.count_cons, hmembers,
        List.map_cons, List.count_cons]
      simp [Nat.add_comm]

/-- A member is called on a temporary as often as its code calls it. -/
theorem count_members {ts : List Temp} (hnodup : (ts.map Temp.name).Nodup) {t : Temp} (ht : t ∈ ts)
    (member : String) :
    (ts.flatMap Temp.traits).count (.member t.name member) = t.members.count member := by
  have hself : t.traits.count (.member t.name member) = t.members.count member := by
    rw [t.traits_eq, List.count_cons, List.count_map_of_injective _ _ (by
      intro a b h
      cases h
      rfl)]
    simp
  have hother {u : Temp} (hu : u.name ≠ t.name) : u.traits.count (.member t.name member) = 0 := by
    rw [u.traits_eq, List.count_eq_zero]
    simp [hu]
  have hothers {us : List Temp} (hus : ∀ u ∈ us, u.name ≠ t.name) :
      (us.flatMap Temp.traits).count (.member t.name member) = 0 := by
    rw [List.count_eq_zero, List.mem_flatMap]
    rintro ⟨u, hu, hmem⟩
    exact List.count_eq_zero.1 (hother (hus u hu)) hmem
  obtain ⟨pre, post, rfl⟩ := List.append_of_mem ht
  rw [List.map_append, List.map_cons, List.nodup_append, List.nodup_cons] at hnodup
  have hpre : ∀ u ∈ pre, u.name ≠ t.name := fun u hu =>
    hnodup.2.2 _ (List.mem_map_of_mem hu) _ List.mem_cons_self
  have hpost : ∀ u ∈ post, u.name ≠ t.name := by
    intro u hu heq
    exact hnodup.2.1.1 (heq ▸ List.mem_map_of_mem hu)
  rw [List.flatMap_append, List.flatMap_cons, List.count_append, List.count_append, hself,
    hothers hpre, hothers hpost]
  omega

theorem count_sites (ts : List Temp) (x : String) :
    (ts.flatMap Temp.sites).count (.declared x) = 0 := by
  rw [List.count_eq_zero, List.mem_flatMap]
  rintro ⟨t, _, ht⟩
  cases t <;> simp [Temp.sites] at ht

/-- Nothing is declared in a tree whose names are all old. -/
theorem places_old {root : Node} {x : String} (hx : x ∉ usedNames root) :
    places (declares x) root = [] := by
  rw [List.eq_nil_iff_forall_not_mem]
  intro p hp
  obtain ⟨n, hn, hname⟩ := mem_places.1 hp
  have hmem := declared_mem_mentions (mem_nodes.2 ⟨p, hn⟩) (by simpa [declares] using hname)
  exact hx (mem_usedNames.2 ⟨_, hmem⟩)

end Count

/-- The variable that a member is called on is used. -/
theorem member_used {n c : Node} (hc : c ∈ n.nodes) {x member : String}
    (h : memberCall? c = some (x, member)) : x ∈ usedNames n := by
  obtain ⟨p, hp⟩ := mem_nodes.1 hc
  refine List.mem_filterMap.2 ?_
  unfold memberCall? at h
  split at h
  next s s' y type member' result =>
    cases h
    refine ⟨.expr (.ident s' x type), mem_nodes.2 ⟨p ++ [.receiver], ?_⟩, rfl⟩
    exact at?_concat_eq_some.2 ⟨_, hp, get?_receiver s (.ident s' x type) member [] result⟩
  next => cases h

/-- A statement of a list, reached by its slot. -/
theorem get?_of_row {n : Node} {i : Nat} {s : Stmt} (h : n.row[i]? = some s)
    (hfilled : s.isMissing = false) : n.get? (.stmt i) = some (.stmt s) := by
  have hlisted {l : List Stmt} (h : l[i]? = some s) :
      (Slot.stmt i, Node.stmt s) ∈ listed .stmt ofStmt? 0 l :=
    mem_listed.2 ⟨i, s, h, by simp, ofStmt?_of_filled hfilled⟩
  rw [get?_eq_some]
  cases n with
  | stmt t =>
      cases t with
      | block b => exact hlisted h
      | _ => simp [row] at h
  | arm c => exact List.mem_append_right _ (hlisted h)
  | _ => simp [row] at h

/-! ## What a run keeps -/

section Kept

variable {o : Options} {kinds : List String} {begin : Work}

/-- What is known after so many temporaries, from the start of a run on. -/
structure Kept (o : Options) (kinds : List String) (begin : Work) (ts : List Temp) (w : Work) :
    Prop where
  names : ts.map Temp.name = begin.names.several ts.length
  later : w.names = begin.names.later ts.length
  census : (census o (usedNames begin.root ++ kinds) w.root ++ ts.flatMap Temp.sites).Perm
    (census o (usedNames begin.root ++ kinds) begin.root ++ ts.flatMap Temp.traits)
  steady : Everywhere (Steady o (usedNames begin.root ++ kinds)) w.root
  shows : ∀ t ∈ ts, Shows t.statements w.root ∧ ∀ s ∈ t.statements, isLive o (.stmt s) = false
  mentions : ∀ m ∈ mentions w.root,
    Covered (mentions begin.root) m ∨ ∃ t ∈ ts, Brings kinds t.name m
  closed : ∀ t ∈ ts, ¬Opens t.name w.root

namespace Kept

variable {ts us : List Temp} {w w' : Work}

theorem start (hsteady : Everywhere (Steady o (usedNames begin.root ++ kinds)) begin.root) :
    Kept o kinds begin [] begin where
  names := rfl
  later := rfl
  census := by simp
  steady := hsteady
  shows := by simp
  mentions m hm := .inl (.inl hm)
  closed := by simp

/-- Temporaries have names that nothing in the tree had before. -/
theorem fresh (h : Kept o kinds begin ts w) (hspares : begin.names.Spares (usedNames begin.root ++ kinds))
    {t : Temp} (ht : t ∈ ts) : t.name ∉ usedNames begin.root ++ kinds := by
  have hname : t.name ∈ begin.names.several ts.length := by
    rw [← h.names]
    exact List.mem_map_of_mem ht
  exact hspares.several hname

theorem nodup (h : Kept o kinds begin ts w) : (ts.map Temp.name).Nodup := by
  rw [h.names]
  exact begin.names.several_nodup _

/-- A name that comes later is not used yet. -/
theorem unused (h : Kept o kinds begin ts w)
    (hspares : begin.names.Spares (usedNames begin.root ++ kinds)) {k : Nat} {x : String}
    (hx : x ∈ w.names.several k) : x ∉ usedNames w.root := by
  rw [h.later] at hx
  have hold := (hspares.later ts.length).several hx
  simp only [List.mem_append, not_or] at hold
  have hnodup := begin.names.several_nodup (ts.length + k)
  rw [Names.several_add, ← h.names, List.nodup_append] at hnodup
  intro hused
  obtain ⟨flag, hm⟩ := mem_usedNames.1 hused
  rcases h.mentions _ hm with hcovered | ⟨t, ht, hbrings⟩
  · refine hold.1 (mem_usedNames.2 ?_)
    rcases hcovered with hm | ⟨_, hm⟩
    · exact ⟨_, hm⟩
    · exact ⟨_, hm⟩
  · rcases hbrings with heq | ⟨_, hkind⟩
    · exact hnodup.2.2 _ (List.mem_map_of_mem ht) _ hx heq.symm
    · exact hold.2 hkind

/-- Every temporary is declared once, where its statements stand. -/
theorem declaration (h : Kept o kinds begin ts w)
    (hspares : begin.names.Spares (usedNames begin.root ++ kinds)) {t : Temp} (ht : t ∈ ts) :
    ∃ p i owner, w.root.at? p = some owner ∧ t.statements <+: owner.row.drop i ∧
      places (declares t.name) w.root = [p ++ [.stmt i]] := by
  have hfresh := h.fresh hspares ht
  have hold : t.name ∉ usedNames begin.root := fun hmem => hfresh (List.mem_append_left _ hmem)
  -- the census counts one declaration
  have hone : (places (declares t.name) w.root).length = 1 := by
    have hcount := h.census.count_eq (.declared t.name)
    rw [List.count_append, List.count_append, count_declared hfresh, count_declared hfresh,
      count_sites, count_names, places_old hold,
      List.count_eq_one_of_mem h.nodup (List.mem_map_of_mem ht)] at hcount
    simpa using hcount
  obtain ⟨q, hq⟩ := List.length_eq_one_iff.1 hone
  obtain ⟨owner, howner, l, r, hrow⟩ := (h.shows t ht).1
  obtain ⟨p, hp⟩ := mem_nodes.1 howner
  -- and the first of the statements is a declaration
  obtain ⟨s, rest, hstatements, hfilled, hname⟩ : ∃ s rest, t.statements = s :: rest ∧
      s.isMissing = false ∧ declaredName? (.stmt s) = some t.name := by
    cases t <;> exact ⟨_, _, rfl, rfl, rfl⟩
  have hentry : owner.row[l.length]? = some s := by
    rw [← hrow, hstatements]
    simp
  have hat : w.root.at? (p ++ [.stmt l.length]) = some (.stmt s) :=
    at?_concat_eq_some.2 ⟨owner, hp, get?_of_row hentry hfilled⟩
  have hmem : p ++ [.stmt l.length] ∈ places (declares t.name) w.root :=
    mem_places.2 ⟨_, hat, by simp [declares, hname]⟩
  refine ⟨p, l.length, owner, hp, ?_, ?_⟩
  · rw [← hrow]
    simp
  · rw [hq, List.mem_singleton] at hmem
    rw [hq, hmem]

/-- A member is called on a temporary as often as the code of the temporary says. -/
theorem calls (h : Kept o kinds begin ts w)
    (hspares : begin.names.Spares (usedNames begin.root ++ kinds)) {t : Temp} (ht : t ∈ ts)
    {member : String} (hmember : member ≠ o.sentinel) :
    (places (callsMember t.name member) w.root).length = t.members.count member := by
  have hfresh := h.fresh hspares ht
  have hbegin : (places (callsMember t.name member) begin.root).length = 0 := by
    rw [List.length_eq_zero_iff, List.eq_nil_iff_forall_not_mem]
    intro p hp
    obtain ⟨n, hn, hcall⟩ := mem_places.1 hp
    have hcall : memberCall? n = some (t.name, member) := by simpa [callsMember] using hcall
    exact hfresh (List.mem_append_left _ (member_used (mem_nodes.2 ⟨p, hn⟩) hcall))
  have hsites : (ts.flatMap Temp.sites).count (.member t.name member) = 0 := by
    rw [List.count_eq_zero, List.mem_flatMap]
    rintro ⟨u, _, hu⟩
    cases u <;> simp [Temp.sites] at hu
  have hcount := h.census.count_eq (.member t.name member)
  rw [List.count_append, List.count_append, count_member hfresh hmember,
    count_member hfresh hmember, hsites, hbegin, count_members h.nodup ht] at hcount
  omega

/-- The declaration of a temporary has no site. -/
theorem declaration_dead (h : Kept o kinds begin ts w)
    (hspares : begin.names.Spares (usedNames begin.root ++ kinds)) {t : Temp} (ht : t ∈ ts)
    {p : Path} {s : Stmt} (hat : w.root.at? p = some (.stmt s))
    (hname : declaredName? (.stmt s) = some t.name) : isLive o (.stmt s) = false := by
  obtain ⟨q, i, owner, hq, ⟨r, hrow⟩, hplaces⟩ := h.declaration hspares ht
  have hmem : p ∈ places (declares t.name) w.root :=
    mem_places.2 ⟨_, hat, by simp [declares, hname]⟩
  rw [hplaces, List.mem_singleton] at hmem
  subst hmem
  obtain ⟨s', rest, hstatements⟩ : ∃ s rest, t.statements = s :: rest := by
    cases t <;> exact ⟨_, _, rfl⟩
  obtain ⟨owner', howner', hget⟩ := at?_concat_eq_some.1 hat
  rw [hq] at howner'
  cases howner'
  have hentry : owner.row[i]? = some s' := by
    have hzero : (owner.row.drop i)[0]? = some s' := by
      rw [← hrow, hstatements]
      simp
    simpa using hzero
  have hlists : owner.row ≠ [] := by
    intro hnil
    simp [hnil] at hentry
  obtain ⟨_, _, hslot, _⟩ | ⟨j, s'', hslot, hs, hj⟩ := get?_row hget hlists
  · cases hslot
  · cases hslot
    cases hs
    rw [hentry] at hj
    cases hj
    exact (h.shows t ht).2 s (by simp [hstatements])

/-- A step keeps what is known, and the same is known of its temporaries. -/
theorem step (ho : o.Apart) (hkinds : Knows o kinds) (h : Kept o kinds begin ts w)
    (hspares : begin.names.Spares (usedNames begin.root ++ kinds)) (hturns : Turns o w us w') :
    Kept o kinds begin (ts ++ us) w' := by
  obtain ⟨hnames, hlater⟩ := hturns.names
  have hspares' : w.names.Spares (usedNames begin.root ++ kinds) := by
    rw [h.later]
    exact hspares.later _
  have hknows : Knows o (usedNames begin.root ++ kinds) := fun type k hk =>
    List.mem_append_right _ (hkinds type k hk)
  obtain ⟨hcensus, hsteady⟩ := hturns.census ho hknows hspares' h.steady
  have hunused {u : Temp} (hu : u ∈ us) : u.name ∉ usedNames w.root := by
    refine h.unused hspares (k := us.length) ?_
    rw [← hnames]
    exact List.mem_map_of_mem hu
  refine ⟨?_, ?_, ?_, hsteady, ?_, ?_, ?_⟩
  · rw [List.map_append, h.names, hnames, List.length_append, Names.several_add, h.later]
  · rw [hlater, h.later, List.length_append, Names.later_add]
  · have hbefore := h.census
    rw [List.perm_iff_count] at hbefore hcensus ⊢
    intro trait
    have h₁ := hbefore trait
    have h₂ := hcensus trait
    simp only [List.flatMap_append, List.count_append] at h₁ h₂ ⊢
    omega
  · intro t ht
    rcases List.mem_append.1 ht with ht | ht
    · obtain ⟨hshows, hdead⟩ := h.shows t ht
      refine ⟨hturns.shows ?_ hdead hshows, hdead⟩
      cases t <;> simp [Temp.statements, Guard.statements, guardStatements]
    · exact hturns.shows_temp ho ht
  · intro m hm
    rcases hturns.mentions hkinds hm with hcovered | ⟨u, hu, hbrings⟩
    · rcases hcovered with hm | ⟨hflag, hm⟩
      · refine (h.mentions m hm).imp_right ?_
        rintro ⟨t, ht, hbrings⟩
        exact ⟨t, List.mem_append_left _ ht, hbrings⟩
      · rcases h.mentions _ hm with hm | ⟨t, ht, hbrings⟩
        · refine .inl (.inr ⟨hflag, ?_⟩)
          rcases hm with hm | ⟨hfalse, _⟩
          · exact hm
          · cases hfalse
        · refine .inr ⟨t, List.mem_append_left _ ht, ?_⟩
          rcases hbrings with heq | ⟨hfalse, _⟩
          · exact .inl heq
          · cases hfalse
    · exact .inr ⟨u, List.mem_append_right _ hu, hbrings⟩
  · intro t ht hopens
    rcases List.mem_append.1 ht with ht | ht
    · have hkind : t.name ∉ kinds := fun hmem =>
        h.fresh hspares ht (List.mem_append_right _ hmem)
      exact h.closed t ht (hturns.opens hkinds hkind
        (fun p s hat hname => h.declaration_dead hspares ht hat hname) hopens)
    · have hkind : t.name ∉ kinds := by
        intro hmem
        have hname : t.name ∈ w.names.several us.length := by
          rw [← hnames]
          exact List.mem_map_of_mem ht
        exact hspares'.several hname (List.mem_append_right _ hmem)
      refine hunused ht (hturns.opens hkinds hkind (fun p s hat hname => ?_) hopens).used
      have hmem := declared_mem_mentions (mem_nodes.2 ⟨p, hat⟩) hname
      exact absurd (mem_usedNames.2 ⟨_, hmem⟩) (hunused ht)

/-- So does a run. -/
theorem run (ho : o.Apart) (hkinds : Knows o kinds)
    (hspares : begin.names.Spares (usedNames begin.root ++ kinds)) (h : Kept o kinds begin ts w)
    (hturns : TurnsAll o w us w') : Kept o kinds begin (ts ++ us) w' := by
  induction hturns generalizing ts with
  | none => simpa using h
  | more hone _ ih =>
      rw [← List.append_assoc]
      exact ih (h.step ho hkinds hspares hone)

end Kept

end Kept

/-! ## Runs with the built-in kinds -/

section Standard

variable {o : Options}

/-- Options that differ from the default ones in the stem of names at most. -/
structure Options.Plain (o : Options) : Prop where
  registry : o.registry = .standard
  sentinel : o.sentinel = "unwrap"

def kindNames : List String :=
  Kind.builtin.map Kind.name

theorem mem_builtin (ho : o.Plain) {type : String} {k : Kind}
    (h : o.registry.lookup type = some k) : k ∈ Kind.builtin := by
  have hclosed : Registry.standard.Closed := by
    unfold Registry.Closed
    decide
  rw [ho.registry] at h
  exact Registry.lookup_mem hclosed h

theorem mem_builtin_of_resolve (ho : o.Plain) {e : Expr} {k : Kind}
    (h : o.registry.resolve e = some k) : k ∈ Kind.builtin := by
  unfold Registry.resolve at h
  split at h
  · cases h
  · exact mem_builtin ho h

theorem apart_plain (ho : o.Plain) : o.Apart := by
  have hmembers : ∀ k ∈ Kind.builtin, "unwrap" ∉ Settings.calledMembers k := by decide
  intro type k hk
  rw [ho.sentinel]
  exact hmembers k (mem_builtin ho hk)

theorem knows_plain (ho : o.Plain) : Knows o kindNames := fun _ _ hk =>
  List.mem_map_of_mem (mem_builtin ho hk)

theorem spares_start (o : Options) (u : CompilationUnit) :
    (start o u).names.Spares (usedNames (.unit u) ++ kindNames) := by
  intro x hx
  rcases List.mem_append.1 hx with hx | hx
  · exact .inl hx
  · obtain ⟨k, hk, rfl⟩ := List.mem_map.1 hx
    exact .inr fun i => Names.name_ne_kind _ i hk

/--
The node is a compound assignment with a site in its value and another one in a part of its
target that is repeated.
-/
def repeatsSite (o : Options) : Node -> Bool
  | .expr (.assign _ target op value) =>
      op.isCompound && isLive o (.expr value) && (repeated target).any fun e => isLive o (.expr e)
  | _ => false

/-- Only sites are counted in a tree all of whose names are old. -/
theorem census_of_old {old : List String} {n : Node} (h : ∀ x ∈ usedNames n, x ∈ old)
    (hdead : isLive o n = false) : census o old n = [] := by
  have htraits : ∀ c ∈ n.nodes, traits o old c = [] := by
    intro c hc
    obtain ⟨p, hp⟩ := mem_nodes.1 hc
    have hsite : siteKind? o c = none := by
      by_contra hsome
      obtain ⟨k, hk⟩ := Option.ne_none_iff_exists'.1 hsome
      have hlive := isLive_of_at hp (isLive_of_site hk)
      rw [hdead] at hlive
      cases hlive
    have hdeclared : (declaredName? c).filter (fun x => decide (x ∉ old)) = none := by
      cases hname : declaredName? c with
      | none => rfl
      | some x =>
          have hx := h x (mem_usedNames.2 ⟨_, declared_mem_mentions hc hname⟩)
          simp [Option.filter, hx]
    have hmember : (memberCall? c).filter
        (fun x => decide (x.1 ∉ old ∧ x.2 ≠ o.sentinel)) = none := by
      cases hcall : memberCall? c with
      | none => rfl
      | some y =>
          obtain ⟨x, member⟩ := y
          have hx : x ∈ old := h x (member_used hc hcall)
          simp [Option.filter, hx]
    rw [traits, hdeclared, hmember, hsite]
    rfl
  rw [census, gather, List.flatMap_eq_nil_iff]
  exact htraits

theorem usedNames_repeated {target e : Expr} (he : e ∈ repeated target) {x : String}
    (hx : x ∈ usedNames (.expr e)) : x ∈ usedNames (.expr target) := by
  have hl := local_used
  rw [usedNames_eq] at hx ⊢
  cases target with
  | ident | lambda => cases he
  | index s array position type =>
      obtain ⟨he, _⟩ := List.mem_filter.1 he
      rw [hl.gather_index, List.mem_append]
      simp only [List.mem_cons, List.not_mem_nil, or_false] at he
      rcases he with rfl | rfl
      · exact .inl hx
      · exact .inr hx
  | field s target name type =>
      obtain ⟨he, _⟩ := List.mem_filter.1 he
      rw [List.mem_singleton.1 he] at hx
      rwa [hl.gather_field]
  | _ =>
      rw [List.mem_singleton.1 he] at hx
      exact hx

theorem steady_start {old : List String} {root : Node} (h : ∀ n ∈ root.nodes, repeatsSite o n = false)
    (hold : ∀ x ∈ usedNames root, x ∈ old) : Everywhere (Steady o old) root := by
  intro n hn
  have hsites := h n hn
  unfold Steady
  split
  next s target op value =>
    intro hcompound hlive e he
    refine census_of_old (fun x hx => hold x ?_) ?_
    · have htarget := usedNames_repeated he hx
      obtain ⟨p, hp⟩ := mem_nodes.1 hn
      rw [usedNames_eq] at htarget ⊢
      have hassign : x ∈ gather usedHere (.expr (.assign s target op value)) := by
        rw [local_used.gather_assign]
        exact List.mem_append_left _ htarget
      obtain ⟨c, hc, hx⟩ := mem_gather.1 hassign
      obtain ⟨q, hq⟩ := mem_nodes.1 hc
      refine mem_gather.2 ⟨c, mem_nodes.2 ⟨p ++ q, ?_⟩, hx⟩
      rw [at?_append, hp]
      exact hq
    · simp only [repeatsSite, hcompound, hlive, Bool.true_and, List.any_eq_false] at hsites
      simpa using hsites e he
  next => trivial

/-- What is known of the temporaries of an expansion that gives a unit. -/
theorem expand_kept (ho : o.Plain) {u v : CompilationUnit} {report : Report}
    (h : expand o u = .ok report) (hunit : report.unit? = some v)
    (hrepeat : ∀ n ∈ (Node.unit u).nodes, repeatsSite o n = false) :
    ∃ ts w, Kept o kindNames (start o u) ts w ∧ w.root = .unit v ∧ isLive o (.unit v) = false ∧
      ∀ g, .guard g ∈ ts -> g.kind ∈ Kind.builtin := by
  obtain ⟨k, w, htakes, hend, hroot, _, _⟩ := expand_takes h hunit
  have hapart := apart_plain ho
  obtain ⟨ts, hturns⟩ := htakes.turns hapart
  have hsteady : Everywhere (Steady o (usedNames (start o u).root ++ kindNames)) (start o u).root :=
    steady_start hrepeat fun x hx => List.mem_append_left _ hx
  have hkept := (Kept.start hsteady).run hapart (knows_plain ho) (spares_start o u) hturns
  refine ⟨ts, w, by simpa using hkept, hroot, ?_, ?_⟩
  · rw [← hroot]
    exact step_none hend
  · intro g hg
    obtain ⟨e, he⟩ := hturns.guard_kind hg
    exact mem_builtin_of_resolve ho he

end Standard

/-! ## Two units -/

/-- Whether no target of an assignment has a lambda in it. -/
def lambdaFreeTargets (root : Node) : Bool :=
  root.nodes.all fun
    | .expr (.assign _ target _ _) => (Node.expr target).nodes.all fun n => !isLambda n
    | _ => true

/-- The site `f().unwrap()`. -/
def siteOf (f : String) : Expr :=
  .call .nowhere (.call .nowhere .missing f [] "Either<String, Integer>") "unwrap" [] "Integer"

/-- A unit with the method `m() { return f().unwrap() + g().unwrap(); }`. -/
def summingUnit : CompilationUnit where
  file := "Summing.java"
  methods := [{
    name := "m"
    returns := "Either<String, Integer>"
    body := some (.mk .nowhere [.ret .nowhere
      (.binary .nowhere (siteOf "f") .add (siteOf "g"))]) }]

/--
A unit with the method `m() { switch (k) { default -> { yield g().unwrap(); } } += f().unwrap(); }`,
whose target is repeated.
-/
def repeatingUnit : CompilationUnit where
  file := "Repeating.java"
  methods := [{
    name := "m"
    returns := "Either<String, Integer>"
    body := some (.mk .nowhere [.expr .nowhere (.assign .nowhere
      (.switch .nowhere (.ident .nowhere "k" "int")
        [.mk .nowhere [] true [.yield .nowhere (siteOf "g") false]] "int")
      .addAssign (siteOf "f"))]) }]

def expanded? (o : Options) (u : CompilationUnit) : Option CompilationUnit :=
  (expand o u).toOption.bind Report.unit?

theorem expanded?_eq_some {o : Options} {u v : CompilationUnit} (h : expanded? o u = some v) :
    ∃ report, expand o u = .ok report ∧ report.unit? = some v := by
  unfold expanded? at h
  cases hreport : expand o u with
  | error d =>
      rw [hreport] at h
      cases h
  | ok report =>
      rw [hreport] at h
      exact ⟨report, rfl, h⟩

end EarlyExit.Expansion
