import EarlyExit.Proofs.Expansion.Locality
import EarlyExit.Proofs.Expansion.Mentions
import EarlyExit.Proofs.Expansion.Temporaries
import Mathlib.Logic.Equiv.Basic

/-!
# Methods are expanded by themselves

The steps of a unit are those its methods take by themselves, in some order, with names from
one supply.  So what becomes of a method in a unit and of the same method alone differs in the
names of temporaries only, and the steps of the methods add up to the steps of the unit.
-/

namespace EarlyExit.Expansion

open Node

/-! ## Names to come -/

namespace Names

/-- The name will not be handed out. -/
def Avoids (ns : Names) (x : String) : Prop :=
  ∀ k, x ∉ ns.several k

theorem Avoids.later {ns : Names} {x : String} (h : ns.Avoids x) (k : Nat) : (ns.later k).Avoids x := by
  intro l hx
  exact h (k + l) (by rw [several_add]; exact List.mem_append_right _ hx)

/-- A name that is handed out is not handed out again. -/
theorem avoids_of_several {ns : Names} {x : String} {k : Nat} (h : x ∈ ns.several k) :
    (ns.later k).Avoids x := by
  intro l hx
  have hnodup := ns.several_nodup (k + l)
  rw [several_add, List.nodup_append] at hnodup
  exact hnodup.2.2 x h x hx rfl

theorem next_add_le_later (ns : Names) (k : Nat) : ns.next + k ≤ (ns.later k).next := by
  induction k generalizing ns with
  | zero => exact Nat.le_refl _
  | succ k ih =>
      have hfirst : ns.next + 1 ≤ ns.fresh.2.next := Nat.succ_le_succ (ns.le_firstFree _ _)
      have hrest : ns.fresh.2.next + k ≤ (ns.later (k + 1)).next := ih ns.fresh.2
      omega

theorem later_injective (ns : Names) {k l : Nat} (h : ns.later k = ns.later l) : k = l := by
  have hle {k l : Nat} (h : ns.later k = ns.later l) : k ≤ l := by
    by_contra hlt
    obtain ⟨d, rfl⟩ := Nat.exists_eq_add_of_lt (Nat.not_le.1 hlt)
    have hless := next_add_le_later (ns.later l) (d + 1)
    rw [← later_add, ← Nat.add_assoc l, h] at hless
    omega
  exact Nat.le_antisymm (hle h) (hle h.symm)

end Names

/-- Two lists of names can be matched by renaming, without touching names that are kept. -/
theorem exists_perm (f : Equiv.Perm String) {kept : String -> Prop} {xs ys : List String}
    (hlength : xs.length = ys.length) (hxs : xs.Nodup) (hys : ys.Nodup)
    (hkept : ∀ x, kept x -> x ∉ xs ∧ f x ∉ ys) :
    ∃ g : Equiv.Perm String, xs.map g = ys ∧ ∀ x, kept x -> g x = f x := by
  induction xs generalizing f kept ys with
  | nil =>
      obtain rfl : ys = [] := List.length_eq_zero_iff.1 hlength.symm
      exact ⟨f, rfl, fun _ _ => rfl⟩
  | cons a xs ih =>
      cases ys with
      | nil => cases hlength
      | cons b ys =>
          obtain ⟨ha, hxs⟩ := List.nodup_cons.1 hxs
          obtain ⟨hb, hys⟩ := List.nodup_cons.1 hys
          let swapped : Equiv.Perm String := f.trans (Equiv.swap (f a) b)
          have hfirst : swapped a = b := by simp [swapped]
          have hrest {x : String} (hx : kept x) : swapped x = f x := by
            obtain ⟨hnot, himage⟩ := hkept x hx
            refine Equiv.swap_apply_of_ne_of_ne (fun heq => hnot ?_) fun heq => himage ?_
            · rw [f.injective heq]
              exact List.mem_cons_self
            · rw [heq]
              exact List.mem_cons_self
          have hkept' : ∀ x, kept x ∨ x = a -> x ∉ xs ∧ swapped x ∉ ys := by
            rintro x (hx | rfl)
            · rw [hrest hx]
              exact ⟨fun h => (hkept x hx).1 (List.mem_cons_of_mem _ h),
                fun h => (hkept x hx).2 (List.mem_cons_of_mem _ h)⟩
            · rw [hfirst]
              exact ⟨ha, hb⟩
          obtain ⟨g, hg, hsame⟩ := ih swapped (Nat.succ.inj hlength) hxs hys hkept'
          refine ⟨g, ?_, fun x hx => (hsame x (.inl hx)).trans (hrest hx)⟩
          rw [List.map_cons, hg, hsame a (.inr rfl), hfirst]

/-! ## Steps of a method -/

section Solo

variable {o : Options} {u : CompilationUnit}

theorem step_names (ho : o.Apart) {w : Work} {c : Change} (h : step o w = .ok (some c)) :
    ∃ k, c.work.names = w.names.later k := by
  obtain ⟨_, _, _, hstepped⟩ := step_some h
  obtain ⟨ts, hturns⟩ := hstepped.turns ho
  exact ⟨_, hturns.names.2⟩

/-- None of the names will be handed out, and none of those the tree uses. -/
def Clean (old : List String) (w : Work) : Prop :=
  ∀ x ∈ usedNames w.root ++ old, w.names.Avoids x

theorem Clean.step (ho : o.Apart) {old : List String} (hkinds : Knows o old) {w : Work} {c : Change}
    (hclean : Clean old w) (h : step o w = .ok (some c)) : Clean old c.work := by
  obtain ⟨_, _, _, hstepped⟩ := step_some h
  obtain ⟨ts, hturns⟩ := hstepped.turns ho
  obtain ⟨hnames, hlater⟩ := hturns.names
  have hold {x : String} (hx : x ∈ usedNames w.root ++ old) : c.work.names.Avoids x := by
    rw [hlater]
    exact (hclean x hx).later _
  intro x hx
  rcases List.mem_append.1 hx with hx | hx
  · obtain ⟨flag, hm⟩ := mem_usedNames.1 hx
    rcases hturns.mentions hkinds hm with hcovered | ⟨t, ht, heq | ⟨_, hkind⟩⟩
    · refine hold (List.mem_append_left _ (mem_usedNames.2 ?_))
      rcases hcovered with hm | ⟨_, hm⟩
      · exact ⟨_, hm⟩
      · exact ⟨_, hm⟩
    · rw [hlater]
      refine Names.avoids_of_several ?_
      rw [← hnames]
      exact List.mem_map.2 ⟨t, ht, heq.symm⟩
    · exact hold (List.mem_append_right _ hkind)
  · exact hold (List.mem_append_right _ hx)

/-- So many steps of a method; between them names may be used up elsewhere. -/
inductive Solo (o : Options) : Nat -> Names -> Method -> Method -> Prop
  | done (ns : Names) (m : Method) : Solo o 0 ns m m
  | skip {n : Nat} {ns : Names} {m m' : Method} (k : Nat) (rest : Solo o n (ns.later k) m m') :
      Solo o n ns m m'
  | more {n : Nat} {ns ns' : Names} {m m₁ m' : Method} {event : Event}
      (h : step o ⟨ns, .method m⟩ = .ok (some ⟨⟨ns', .method m₁⟩, event⟩))
      (rest : Solo o n ns' m₁ m') : Solo o (n + 1) ns m m'

/-- A method without sites takes no step. -/
theorem Solo.eq_of_dead {n : Nat} {ns : Names} {m m' : Method} (h : Solo o n ns m m')
    (hdead : sites o (.method m) = []) : n = 0 ∧ m' = m := by
  induction h with
  | done => exact ⟨rfl, rfl⟩
  | skip _ _ ih => exact ih hdead
  | @more _ ns _ _ _ _ _ h =>
      rw [(step_eq_none (w := ⟨ns, .method _⟩)).2 hdead] at h
      cases h

/-- A method that gets rid of its sites takes a first step. -/
theorem Solo.first {n : Nat} {ns : Names} {m m' : Method} (h : Solo o n ns m m')
    (hlive : sites o (.method m) ≠ []) (hdead : sites o (.method m') = []) :
    ∃ k n' ns' m₁ event, n = n' + 1 ∧
      step o ⟨ns.later k, .method m⟩ = .ok (some ⟨⟨ns', .method m₁⟩, event⟩) ∧
      Solo o n' ns' m₁ m' := by
  induction h with
  | done => exact absurd hdead hlive
  | skip k _ ih =>
      obtain ⟨l, n', ns', m₁, event, hn, hstep, hrest⟩ := ih hlive hdead
      rw [← Names.later_add] at hstep
      exact ⟨k + l, n', ns', m₁, event, hn, hstep, hrest⟩
  | more h rest => exact ⟨0, _, _, _, _, rfl, h, rest⟩

/-- What a method comes to is the same with two supplies of names, but for the names. -/
theorem Solo.unique (ho : o.Apart) {old : List String} (hkinds : Knows o old) {a b : Names}
    {n n' : Nat} {m m₁ m₂ : Method} {f : Equiv.Perm String} (h : Solo o n a m m₁)
    (hdead : sites o (.method m₁) = []) (h' : Solo o n' b (m.rename f) m₂)
    (hdead' : sites o (.method m₂) = []) (hclean : Clean old ⟨a, .method m⟩)
    (hclean' : Clean old ⟨b, .method (m.rename f)⟩) (hf : ∀ x ∈ old, f x = x) :
    n = n' ∧ ∃ g : Equiv.Perm String, (∀ x ∈ old, g x = x) ∧ m₂ = m₁.rename g := by
  induction h generalizing b n' f with
  | done a m =>
      have hsites : sites o (.method (m.rename f)) = [] := by
        rw [← hdead]
        exact sites_rename (f := f) o (.method m)
      obtain ⟨rfl, rfl⟩ := h'.eq_of_dead hsites
      exact ⟨rfl, f, hf, rfl⟩
  | skip k _ ih =>
      exact ih hdead h' (fun x hx => (hclean x hx).later k) hclean' hf
  | @more n a a' m m₁ m' event h _ ih =>
      have hlive : sites o (.method (m.rename f)) ≠ [] := by
        intro hnone
        rw [← rename_method, sites_rename] at hnone
        rw [(step_eq_none (w := ⟨a, .method _⟩)).2 hnone] at h
        cases h
      obtain ⟨l, n'', b', m₂', event', rfl, hstep', hrest'⟩ := h'.first hlive hdead'
      have hkindsFixed {g : Equiv.Perm String} (hg : ∀ x ∈ old, g x = x) :
          ∀ type k, o.registry.lookup type = some k -> g k.name = k.name :=
        fun type k hk => hg _ (hkinds type k hk)
      obtain ⟨k, hk, -⟩ := step_rename f.injective (hkindsFixed hf) h
      have hkept : ∀ x, x ∈ (Node.method m).variableNames ∨ x ∈ old ->
          x ∉ a.several k ∧ f x ∉ (b.later l).several k := by
        rintro x (hx | hx)
        · have himage : f x ∈ (Node.method (m.rename f)).variableNames := by
            rw [← rename_method, variableNames_rename]
            exact List.mem_map_of_mem hx
          exact ⟨hclean x (List.mem_append_left _ (mem_usedNames_of_variable hx)) k,
            (hclean' _ (List.mem_append_left _ (mem_usedNames_of_variable himage))).later l k⟩
        · rw [hf x hx]
          exact ⟨hclean x (List.mem_append_right _ hx) k,
            (hclean' x (List.mem_append_right _ hx)).later l k⟩
      -- a renaming that also matches the names which the two steps draw
      obtain ⟨g, hpaired, hsame⟩ := exists_perm f (by simp only [Names.length_several])
        (a.several_nodup k) ((b.later l).several_nodup k) hkept
      have hg : ∀ x ∈ old, g x = x := fun x hx => (hsame x (.inr hx)).trans (hf x hx)
      have hrenamed : m.rename f = m.rename g := by
        have hcongr := rename_congr (n := .method m) fun x hx => (hsame x (.inl hx)).symm
        exact Node.method.inj hcongr
      obtain ⟨k', hk', hrun⟩ := step_rename g.injective (hkindsFixed hg) h
      obtain rfl : k' = k := a.later_injective (hk'.symm.trans hk)
      have hother := hrun (b.later l) hpaired
      rw [rename_method, ← hrenamed, hstep'] at hother
      have hlater : Clean old ⟨b.later l, .method (m.rename f)⟩ :=
        fun x hx => (hclean' x hx).later l
      have hafter := hlater.step ho hkinds hstep'
      cases hother
      obtain ⟨rfl, hwhole⟩ := ih hdead hrest' (hclean.step ho hkinds h) hafter hg
      exact ⟨rfl, hwhole⟩

/-! ## Steps of a unit -/

/-- Every method of a unit has taken so many steps by itself. -/
structure Split (o : Options) (ns : Names) (u v : CompilationUnit) (count : Nat -> Nat) : Prop where
  length : v.methods.length = u.methods.length
  solo : ∀ i m, u.methods[i]? = some m -> ∃ m', v.methods[i]? = some m' ∧ Solo o (count i) ns m m'

theorem Takes.split (ho : o.Apart) {k : Nat} {ns : Names} {w : Work}
    (h : Takes o k ⟨ns, .unit u⟩ w) :
    ∃ v count, w.root = .unit v ∧ Split o ns u v count ∧
      ∑ i ∈ Finset.range u.methods.length, count i = k := by
  generalize hw : (⟨ns, .unit u⟩ : Work) = w₀ at h
  induction h generalizing ns u with
  | none =>
      subst hw
      exact ⟨u, fun _ => 0, rfl, ⟨rfl, fun i m hm => ⟨m, hm, .done ns m⟩⟩, by simp⟩
  | @more k _ _ c hstep _ ih =>
      subst hw
      obtain ⟨i, m, m₁, hm, hone, hroot⟩ := step_method hstep
      obtain ⟨l, hl⟩ := step_names ho hstep
      have hwork : (⟨ns.later l, .unit (u.withMethod i m₁)⟩ : Work) = c.work := by
        rw [← hl, ← hroot]
      obtain ⟨v, count, hv, hsplit, hsum⟩ := ih hwork
      have hlength : (u.withMethod i m₁).methods.length = u.methods.length := List.length_set
      obtain ⟨hi, -⟩ := List.getElem?_eq_some_iff.1 hm
      refine ⟨v, fun j => count j + if j = i then 1 else 0, hv, ?_, ?_⟩
      · refine ⟨hsplit.length.trans hlength, fun j m' hm' => ?_⟩
        by_cases hj : j = i
        · subst hj
          obtain rfl : m' = m := Option.some.inj (hm'.symm.trans hm)
          obtain ⟨m'', hm'', hsolo⟩ := hsplit.solo j m₁ (by simp [CompilationUnit.withMethod, hi])
          rw [hl] at hone
          exact ⟨m'', hm'', by simpa using .more hone hsolo⟩
        · obtain ⟨m'', hm'', hsolo⟩ := hsplit.solo j m' (by
            simpa [CompilationUnit.withMethod, List.getElem?_set_ne (Ne.symm hj)] using hm')
          exact ⟨m'', hm'', by simpa [hj] using .skip l hsolo⟩
      · rw [hlength] at hsum
        rw [Finset.sum_add_distrib, hsum, Finset.sum_ite_eq', if_pos (Finset.mem_range.2 hi)]

end Solo

/-! ## Expansions -/

section Expansions

variable {u v : CompilationUnit} {report : Report}

theorem clean_method {o : Options} {i : Nat} {m : Method} (h : u.methods[i]? = some m) :
    Clean (usedNames (.method m) ++ kindNames) ⟨(start o u).names, .method m⟩ := by
  have hused : ∀ x ∈ usedNames (.method m), x ∈ usedNames (.unit u) := by
    intro x hx
    obtain ⟨c, hc, hname⟩ := List.mem_filterMap.1 hx
    obtain ⟨p, hp⟩ := mem_nodes.1 hc
    exact List.mem_filterMap.2 ⟨c, mem_nodes.2 ⟨_, (at?_method h p).trans hp⟩, hname⟩
  intro x hx k hdrawn
  refine (spares_start o u).several hdrawn ?_
  simp only [List.mem_append] at hx ⊢
  rcases hx with hx | hx | hx
  · exact .inl (hused x hx)
  · exact .inl (hused x hx)
  · exact .inr hx

/-- The steps of an expansion that ends well, as steps of the methods. -/
theorem expand_split {o : Options} (ho : o.Apart) (h : expand o u = .ok report)
    (hunit : report.unit? = some v) :
    ∃ count, Split o (start o u).names u v count ∧
      ∑ i ∈ Finset.range u.methods.length, count i = report.steps ∧
      ∀ (i : Nat) m, v.methods[i]? = some m -> sites o (.method m) = [] := by
  have hexpanded := expand_spec o u
  rw [h] at hexpanded
  cases hexpanded with
  | rejected _ _ _ hnone =>
      rw [hnone] at hunit
      cases hunit
  | finished _ hrun hroot hsteps hsome =>
      rw [hsome] at hunit
      cases hunit
      obtain ⟨w, htakes, hend, hsame, _⟩ := run_ok hrun
      obtain ⟨v', count, hv', hsplit, hsum⟩ := htakes.split ho
      rw [hroot, hv'] at hsame
      cases hsame
      refine ⟨count, hsplit, hsum.trans hsteps.symm, fun i m hm => ?_⟩
      have hnone := sites_isIn (o := o) hm
      rw [step_eq_none, hv'] at hend
      rw [hend, List.filter_nil] at hnone
      exact List.map_eq_nil_iff.1 hnone.symm

/--
Expanding a unit and its methods one by one.  Each method comes to what it comes to alone, but
for the names of temporaries: the renaming is one to one and fixes every name that the method
uses and the classes of kinds.  A method without sites stays as it is, and the steps of the
methods alone add up to the steps of the unit.
-/
theorem expand_methods (h : expand {} u = .ok report) (hunit : report.unit? = some v) :
    v.methods.length = u.methods.length ∧
      (∀ (i : Nat) m, u.methods[i]? = some m -> ∃ m', v.methods[i]? = some m' ∧
        (sites {} (.method m) = [] -> m' = m) ∧
        ∀ report₁ v₁, expand {} (u.alone m) = .ok report₁ -> report₁.unit? = some v₁ ->
          ∃ m₁, v₁.methods = [m₁] ∧ ∃ f : Equiv.Perm String,
            (∀ x ∈ usedNames (.method m) ++ kindNames, f x = x) ∧ m₁ = m'.rename f) ∧
      ∀ reports : List Report, List.Forall₂ (fun m report₁ => expand {} (u.alone m) = .ok report₁ ∧
        ∃ v₁, report₁.unit? = some v₁) u.methods reports ->
          report.steps = (reports.map Report.steps).sum := by
  have ho : Options.Plain {} := ⟨rfl, rfl⟩
  have hapart := apart_plain ho
  obtain ⟨count, hsplit, hsum, hdead⟩ := expand_split hapart h hunit
  have halone {i : Nat} {m : Method} (hm : u.methods[i]? = some m) {report₁ : Report}
      {v₁ : CompilationUnit} (h₁ : expand {} (u.alone m) = .ok report₁)
      (hunit₁ : report₁.unit? = some v₁) :
      count i = report₁.steps ∧ ∃ m' m₁, v.methods[i]? = some m' ∧ v₁.methods = [m₁] ∧
        ∃ f : Equiv.Perm String,
          (∀ x ∈ usedNames (.method m) ++ kindNames, f x = x) ∧ m₁ = m'.rename f := by
    obtain ⟨count₁, hsplit₁, hsum₁, hdead₁⟩ := expand_split hapart h₁ hunit₁
    have hfirst : (u.alone m).methods[0]? = some m := rfl
    obtain ⟨m', hm', hsolo⟩ := hsplit.solo i m hm
    obtain ⟨m₁, hm₁, hsolo₁⟩ := hsplit₁.solo 0 m hfirst
    have hlist : v₁.methods = [m₁] := by
      obtain ⟨_, hone⟩ := List.length_eq_one_iff.1 hsplit₁.length
      rw [hone] at hm₁ ⊢
      rw [Option.some.inj hm₁]
    have hsame : m.rename (Equiv.refl String) = m := m.rename_id
    rw [← hsame] at hsolo₁
    have hclean₁ := clean_method (o := {}) hfirst
    rw [← hsame] at hclean₁
    obtain ⟨hcount, hrenamed⟩ := hsolo.unique hapart
      (fun type k hk => List.mem_append_right _ (knows_plain ho type k hk)) (hdead i m' hm') hsolo₁
      (hdead₁ 0 m₁ hm₁) (clean_method hm) (by rwa [hsame] at hclean₁ ⊢) fun _ _ => rfl
    refine ⟨?_, m', m₁, hm', hlist, hrenamed⟩
    rw [hcount, ← hsum₁]
    exact (Finset.sum_range_one count₁).symm
  refine ⟨hsplit.length, fun i m hm => ?_, fun reports hreports => ?_⟩
  · obtain ⟨m', hm', hsolo⟩ := hsplit.solo i m hm
    refine ⟨m', hm', fun hnone => (hsolo.eq_of_dead hnone).2, fun report₁ v₁ h₁ hunit₁ => ?_⟩
    obtain ⟨_, m'', m₁, hm'', hlist, hrenamed⟩ := halone hm h₁ hunit₁
    rw [Option.some.inj (hm'.symm.trans hm'')]
    exact ⟨m₁, hlist, hrenamed⟩
  · have hcounts : reports.map Report.steps = (List.range u.methods.length).map count := by
      refine List.ext_getElem (by simp [hreports.length_eq]) fun i hi hi' => ?_
      rw [List.length_map] at hi
      rw [List.length_map, List.length_range] at hi'
      obtain ⟨h₁, v₁, hunit₁⟩ := (List.forall₂_iff_get.1 hreports).2 i hi' hi
      have hcount := (halone (List.getElem?_eq_getElem hi') h₁ hunit₁).1
      simpa using hcount.symm
    rw [hcounts, ← hsum]
    rfl

end Expansions

/-- A method that has both `f().unwrap() + g().unwrap()` to return. -/
def summingMethod : Method where
  name := "sum"
  returns := "Either<String, Integer>"
  body := some (.mk .nowhere [.ret .nowhere (.binary .nowhere (siteOf "f") .add (siteOf "g"))])

/-- A method with the lambda `() -> f().unwrap()`. -/
def suppliedMethod : Method where
  name := "supplied"
  returns := "int"
  body := some (.mk .nowhere
    [.var .nowhere "s" "Supplier" (.lambda .nowhere [] (.value (siteOf "f")))])

def bareMethod : Method where
  name := "bare"

/-- The lambda of the second method is expanded before the first method. -/
def supplyingUnit : CompilationUnit where
  file := "Supplying.java"
  methods := [summingMethod, suppliedMethod, bareMethod]

theorem expand_methods_supplyingUnit : ∃ report v r₀ v₀ r₁ r₂,
    expand {} supplyingUnit = .ok report ∧ report.unit? = some v ∧
      expand {} (supplyingUnit.alone summingMethod) = .ok r₀ ∧ r₀.unit? = some v₀ ∧
      expand {} (supplyingUnit.alone suppliedMethod) = .ok r₁ ∧
      expand {} (supplyingUnit.alone bareMethod) = .ok r₂ ∧
      report.steps = r₀.steps + (r₁.steps + r₂.steps) ∧ v.methods[2]? = some bareMethod ∧
      ∃ m' m₀, v.methods[0]? = some m' ∧ v₀.methods = [m₀] ∧ ∃ f : Equiv.Perm String,
        (∀ x ∈ usedNames (.method summingMethod) ++ kindNames, f x = x) ∧ m₀ = m'.rename f := by
  have hsome : (expanded? {} supplyingUnit).isSome = true := by decide +kernel
  have hsome₀ : (expanded? {} (supplyingUnit.alone summingMethod)).isSome = true := by
    decide +kernel
  have hsome₁ : (expanded? {} (supplyingUnit.alone suppliedMethod)).isSome = true := by
    decide +kernel
  have hsome₂ : (expanded? {} (supplyingUnit.alone bareMethod)).isSome = true := by
    decide +kernel
  obtain ⟨v, hv⟩ := Option.isSome_iff_exists.1 hsome
  obtain ⟨v₀, hv₀⟩ := Option.isSome_iff_exists.1 hsome₀
  obtain ⟨v₁, hv₁⟩ := Option.isSome_iff_exists.1 hsome₁
  obtain ⟨v₂, hv₂⟩ := Option.isSome_iff_exists.1 hsome₂
  obtain ⟨report, hreport, hunit⟩ := expanded?_eq_some hv
  obtain ⟨r₀, hr₀, hunit₀⟩ := expanded?_eq_some hv₀
  obtain ⟨r₁, hr₁, hunit₁⟩ := expanded?_eq_some hv₁
  obtain ⟨r₂, hr₂, hunit₂⟩ := expanded?_eq_some hv₂
  obtain ⟨-, hmethods, hsteps⟩ := expand_methods hreport hunit
  have hsum := hsteps [r₀, r₁, r₂] (.cons ⟨hr₀, v₀, hunit₀⟩ (.cons ⟨hr₁, v₁, hunit₁⟩
    (.cons ⟨hr₂, v₂, hunit₂⟩ .nil)))
  obtain ⟨m', hm', -, hrenamed⟩ := hmethods 0 summingMethod rfl
  obtain ⟨m₀, hm₀, hf⟩ := hrenamed r₀ v₀ hr₀ hunit₀
  obtain ⟨m'', hm'', hbare, -⟩ := hmethods 2 bareMethod rfl
  rw [hbare (List.isEmpty_iff.1 (by decide +kernel))] at hm''
  exact ⟨report, v, r₀, v₀, r₁, r₂, hreport, hunit, hr₀, hunit₀, hr₁, hr₂, hsum, hm'', m', m₀,
    hm', hm₀, hf⟩

end EarlyExit.Expansion
