import EarlyExit.Proofs.Expansion.Temporaries

/-!
# Hygiene of temporaries

The variables that an expansion introduces have names that nothing in the unit has.  Each
is declared once, as an entry of a list of statements, and what else has its name stands in
a later statement of the list.
-/

namespace EarlyExit.Expansion

open Node

def declaredNames (root : Node) : List String :=
  root.nodes.filterMap declaredName?

theorem mem_declaredNames {root : Node} {x : String} :
    x ∈ declaredNames root ↔ (true, x) ∈ mentions root := by
  constructor
  · intro h
    obtain ⟨n, hn, hname⟩ := List.mem_filterMap.1 h
    exact declared_mem_mentions hn hname
  · intro h
    obtain ⟨n, hn, hm⟩ := mem_gather.1 h
    obtain ⟨hused, hdeclared⟩ := mem_mentionsHere.1 hm
    obtain ⟨y, hy⟩ := Option.isSome_iff_exists.1 hdeclared
    rw [usedName?_of_declared hy] at hused
    cases hused
    exact List.mem_filterMap.2 ⟨n, hn, hy⟩

/--
The name is declared once, by an entry of a list of statements, and is used nowhere else
than in later entries of the list.
-/
def ScopedOnce (x : String) (root : Node) : Prop :=
  ∃ p i, places (declares x) root = [p ++ [.stmt i]] ∧
    ∀ q n, root.at? q = some n -> usedName? n = some x ->
      q = p ++ [.stmt i] ∨ ∃ j r, i < j ∧ q = p ++ .stmt j :: r

/-- The variables that the second unit declares beyond the first are new names in their scopes. -/
def Hygienic (stem : String) (u v : CompilationUnit) : Prop :=
  ∃ k, ((Names.ofTree stem (.unit u)).several k).Nodup ∧
    (∀ x ∈ (Names.ofTree stem (.unit u)).several k,
      x ∉ usedNames (.unit u) ∧ ScopedOnce x (.unit v)) ∧
    (∀ x ∈ declaredNames (.unit v),
      x ∈ declaredNames (.unit u) ∨ x ∈ (Names.ofTree stem (.unit u)).several k) ∧
    ∀ x ∈ usedNames (.unit v),
      x ∈ usedNames (.unit u) ∨ x ∈ (Names.ofTree stem (.unit u)).several k ∨ x ∈ kindNames

/-! ## Reach of a declaration -/

/-- A use of a name that is not open has a declaration in front of it or of a node above it. -/
theorem declaration_reaches {x : String} {m n : Node} {q : Path} (hclosed : ¬Opens x m)
    (hq : m.at? q = some n) (hused : usedName? n = some x) (hvar : declaredName? n = none) :
    ∃ p slot r owner ahead d, q = p ++ slot :: r ∧ m.at? p = some owner ∧
      [ahead, slot].Sublist (owner.slots.map (·.1)) ∧ owner.get? ahead = some d ∧
      declaredName? d = some x := by
  induction q generalizing m with
  | nil =>
      cases hq
      exact absurd (.use hused hvar) hclosed
  | cons slot q ih =>
      obtain ⟨c, hget, hat⟩ := at?_cons_eq_some.1 hq
      obtain ⟨l, r, hslots⟩ := List.append_of_mem (get?_eq_some.1 hget)
      by_cases hdeclared : ∃ y ∈ l, declaredName? y.2 = some x
      · obtain ⟨⟨ahead, d⟩, hmem, hname⟩ := hdeclared
        refine ⟨[], slot, q, m, ahead, d, rfl, rfl, ?_, get?_eq_some.2 (by simp [hslots, hmem]), hname⟩
        have hfirst : [ahead].Sublist (l.map (·.1)) :=
          List.singleton_sublist.2 (List.mem_map_of_mem hmem)
        rw [hslots, List.map_append]
        exact hfirst.append (by simp)
      · have hfree : ∀ d ∈ l.map (·.2), declaredName? d ≠ some x := by
          intro d hd hname
          obtain ⟨y, hy, rfl⟩ := List.mem_map.1 hd
          exact hdeclared ⟨y, hy, hname⟩
        have hchildren : m.children = l.map (·.2) ++ c :: r.map (·.2) := by
          simp [children, hslots]
        obtain ⟨p, slot', r', owner, ahead, d, rfl, hp, hrest⟩ :=
          ih (fun hopens => hclosed (.under hchildren hfree hopens)) hat
        exact ⟨slot :: p, slot', r', owner, ahead, d, rfl,
          at?_cons_eq_some.2 ⟨c, hget, hp⟩, hrest⟩

/-- The second slot is a later entry of a list of statements, if the first is an entry. -/
def Behind (ahead slot : Slot) : Prop :=
  ∀ i, ahead = .stmt i -> ∃ j, slot = .stmt j ∧ i < j

theorem behind_listed {α : Type} (view : α -> Option Node) (k : Nat) (l : List α) :
    ((listed .stmt view k l).map (·.1)).Pairwise Behind := by
  induction l generalizing k with
  | nil => exact .nil
  | cons a l ih =>
      unfold listed
      split
      · refine .cons ?_ (ih (k + 1))
        intro b hb i hi
        obtain ⟨⟨slot, n⟩, hmem, rfl⟩ := List.mem_map.1 hb
        obtain ⟨j, _, _, hslot, _⟩ := mem_listed.1 hmem
        cases hi
        exact ⟨k + 1 + j, hslot, by omega⟩
      · exact ih (k + 1)

/-- Behind an entry of a list of statements there are only later entries. -/
theorem behind_slots {owner : Node} (hrow : owner.row ≠ []) :
    (owner.slots.map (·.1)).Pairwise Behind := by
  cases owner with
  | stmt t =>
      cases t with
      | block b => exact behind_listed ofStmt? 0 b.stmts
      | _ => exact absurd rfl hrow
  | arm c =>
      -- labels stand in front of the statements
      have hlabel : ∀ a ∈ (listed .label ofExpr? 0 c.labels).map (·.1), ∀ b, Behind a b := by
        intro a ha b i hi
        obtain ⟨⟨slot, n⟩, hmem, rfl⟩ := List.mem_map.1 ha
        obtain ⟨j, _, _, hslot, _⟩ := mem_listed.1 hmem
        rw [hslot] at hi
        cases hi
      rw [slots, List.map_append, List.pairwise_append]
      refine ⟨?_, behind_listed ofStmt? 0 c.body, fun a ha b _ => hlabel a ha b⟩
      exact List.pairwise_of_forall_mem_list fun a ha b _ => hlabel a ha b
  | _ => exact absurd rfl hrow

/-- Temporaries are declared once and used where the declaration reaches. -/
theorem Kept.scopedOnce {o : Options} {kinds : List String} {begin w : Work} {ts : List Temp}
    (h : Kept o kinds begin ts w)
    (hspares : begin.names.Spares (usedNames begin.root ++ kinds)) {t : Temp} (ht : t ∈ ts) :
    ScopedOnce t.name w.root := by
  obtain ⟨p, i, owner, hp, ⟨rest, hrow⟩, hplaces⟩ := h.declaration hspares ht
  refine ⟨p, i, hplaces, fun q n hq hused => ?_⟩
  have hplace {q : Path} {n : Node} (hq : w.root.at? q = some n)
      (hname : declaredName? n = some t.name) : q = p ++ [.stmt i] := by
    have hmem : q ∈ places (declares t.name) w.root :=
      mem_places.2 ⟨n, hq, by simp [declares, hname]⟩
    rwa [hplaces, List.mem_singleton] at hmem
  cases hvar : declaredName? n with
  | some y =>
      have hsame : usedName? n = some y := usedName?_of_declared hvar
      rw [hused] at hsame
      cases hsame
      exact .inl (hplace hq hvar)
  | none =>
      obtain ⟨p', slot, r, owner', ahead, d, rfl, hp', hsub, hget, hname⟩ :=
        declaration_reaches (h.closed t ht) hq hused hvar
      -- the declaration that reaches the use is the only one
      have hsame := hplace (at?_concat_eq_some.2 ⟨owner', hp', hget⟩) hname
      obtain ⟨rfl, hslot⟩ := List.append_inj' hsame rfl
      rw [List.cons.injEq] at hslot
      obtain ⟨rfl, _⟩ := hslot
      rw [hp] at hp'
      cases hp'
      have hfilled : owner.row ≠ [] := by
        intro hempty
        rw [hempty] at hrow
        cases t <;> simp [Temp.statements, Guard.statements, guardStatements] at hrow
      have hbehind := List.pairwise_iff_forall_sublist.1 (behind_slots hfilled) hsub
      obtain ⟨j, rfl, hlt⟩ := hbehind i rfl
      exact .inr ⟨j, r, hlt, rfl⟩

/-- The expansion of a unit is hygienic, unless a compound assignment repeats a site. -/
theorem expand_hygienic (stem : String) {u v : CompilationUnit} {report : Report}
    (h : expand (.ofTexts "" stem .standard 0) u = .ok report) (hunit : report.unit? = some v)
    (hrepeat : ∀ n ∈ (Node.unit u).nodes, repeatsSite (.ofTexts "" stem .standard 0) n = false) :
    Hygienic (Options.ofTexts "" stem .standard 0).stem u v := by
  have ho : (Options.ofTexts "" stem .standard 0).Plain := ⟨rfl, rfl⟩
  obtain ⟨ts, w, hkept, hroot, _, _⟩ := expand_kept ho h hunit hrepeat
  have hspares := spares_start (.ofTexts "" stem .standard 0) u
  have hnames : ts.map Temp.name = (Names.ofTree _ (.unit u)).several ts.length := hkept.names
  have hmentions := hkept.mentions
  rw [hroot] at hmentions
  refine ⟨ts.length, ?_⟩
  rw [← hnames]
  refine ⟨hkept.nodup, ?_, ?_, ?_⟩
  · intro x hx
    obtain ⟨t, ht, rfl⟩ := List.mem_map.1 hx
    refine ⟨fun hused => hkept.fresh hspares ht (List.mem_append_left _ hused), ?_⟩
    rw [← hroot]
    exact hkept.scopedOnce hspares ht
  · intro x hx
    rcases hmentions _ (mem_declaredNames.1 hx) with hcovered | ⟨t, ht, hbrings⟩
    · rcases hcovered with hm | ⟨hfalse, _⟩
      · exact .inl (mem_declaredNames.2 hm)
      · cases hfalse
    · rcases hbrings with heq | ⟨hfalse, _⟩
      · exact .inr (List.mem_map.2 ⟨t, ht, heq.symm⟩)
      · cases hfalse
  · intro x hx
    obtain ⟨flag, hm⟩ := mem_usedNames.1 hx
    rcases hmentions _ hm with hcovered | ⟨t, ht, hbrings⟩
    · refine .inl (mem_usedNames.2 ?_)
      rcases hcovered with hm | ⟨_, hm⟩
      · exact ⟨_, hm⟩
      · exact ⟨_, hm⟩
    · rcases hbrings with heq | ⟨_, hkind⟩
      · exact .inr (.inl (List.mem_map.2 ⟨t, ht, heq.symm⟩))
      · exact .inr (.inr hkind)

theorem expand_hygienic_summingUnit :
    ∃ v, expanded? (.ofTexts "" "t" .standard 0) summingUnit = some v ∧
      Hygienic "t" summingUnit v := by
  have hsome : (expanded? (.ofTexts "" "t" .standard 0) summingUnit).isSome = true := by
    decide +kernel
  obtain ⟨v, hv⟩ := Option.isSome_iff_exists.1 hsome
  obtain ⟨report, hreport, hunit⟩ := expanded?_eq_some hv
  have hrepeat : (Node.unit summingUnit).nodes.all
      (fun n => !repeatsSite (.ofTexts "" "t" .standard 0) n) = true := by decide +kernel
  refine ⟨v, hv, expand_hygienic "t" hreport hunit fun n hn => ?_⟩
  simpa using List.all_eq_true.1 hrepeat n hn

theorem declared_twice_repeatingUnit : lambdaFreeTargets (.unit repeatingUnit) = true ∧
    ∃ v, expanded? {} repeatingUnit = some v ∧ ¬ Hygienic "$unwrap" repeatingUnit v := by
  refine ⟨by decide +kernel, ?_⟩
  have htwice : (expanded? {} repeatingUnit).any (fun v =>
      (places (declares "$unwrap0") (.unit v)).length = 2 &&
        decide ("$unwrap0" ∈ declaredNames (.unit v))) = true := by decide +kernel
  obtain ⟨v, hv, htwice⟩ := (Option.any_eq_true _ _).1 htwice
  rw [Bool.and_eq_true, decide_eq_true_eq, decide_eq_true_eq] at htwice
  obtain ⟨htwice, hdeclared⟩ := htwice
  refine ⟨v, hv, fun ⟨k, _, hscoped, hnew, _⟩ => ?_⟩
  have hold : "$unwrap0" ∉ declaredNames (.unit repeatingUnit) := by decide +kernel
  obtain ⟨_, p, i, honce, _⟩ := hscoped _ ((hnew _ hdeclared).resolve_left hold)
  rw [honce] at htwice
  cases htwice

end EarlyExit.Expansion
