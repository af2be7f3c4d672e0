import EarlyExit.Proofs.Eval.Logic
import EarlyExit.Proofs.Eval.Scopes

/-!
# Variables that code does not see

Two stores that are the same but for some variables of one scope look the same to code that
does not mention them, wherever it runs.  The comparison also watches variables that can be
seen from that scope: code that shares a scope with it and does not write them leaves them
as they are.
-/

namespace EarlyExit.Eval

open Run

/-- A comparison of stores, as seen from one scope. -/
structure View where
  home : Nat
  /-- The names of `home` that the stores may differ in. -/
  hidden : String -> Bool
  /-- What the second store binds them to. -/
  held : String -> Option Value := fun _ => none
  /-- The scope with those around it. -/
  around : List Nat
  /-- Names that lambdas made in these scopes do not write. -/
  guarded : String -> Prop := fun _ => False
  /-- Those of them that are watched. -/
  kept : String -> Prop := fun _ => False
  kept_guarded : ∀ x, kept x -> guarded x := by intro _ h; exact h
  /-- What is seen under the watched names. -/
  seen : String -> Option Value := fun _ => none

/-- The comparison when the second store binds a name to another value. -/
def View.holding (V : View) (x : String) (v : Value) : View :=
  { V with held := fun y => if y = x then some v else V.held y }

/-- The scopes that code may run in, each with those around it, and the arrays it may reach. -/
structure Known where
  scopes : Nat -> Option (List Nat)
  arrays : Nat -> Prop

namespace Known

def opened (w : Known) (s : Nat) (l : List Nat) : Known where
  scopes t := if t = s then some (s :: l) else w.scopes t
  arrays := w.arrays

def allocated (w : Known) (more : Nat -> Prop) : Known where
  scopes := w.scopes
  arrays r := w.arrays r ∨ more r

end Known

namespace View

variable (V : View)

/-- Whether a scope has a scope in common with `home`. -/
def Kin (l : List Nat) : Prop :=
  ∃ t ∈ l, t ∈ V.around

/--
Code in a scope inside `home` does not mention what is hidden; code in a scope that has a
scope in common with `home` writes no watched variable that can be seen.
-/
def realm : Realm where
  World := Known
  Later w w' := (∀ s l, w.scopes s = some l -> w'.scopes s = some l) ∧
    ∀ r, w.arrays r -> w'.arrays r
  Here w s := ∃ l, w.scopes s = some l
  Reads w s x := ∀ l, w.scopes s = some l -> V.home ∈ l -> V.hidden x = false
  Writes w s x := ∀ l, w.scopes s = some l ->
    (V.home ∈ l -> V.hidden x = false) ∧ (V.Kin l -> V.kept x -> V.seen x = none)
  Captures w s x := ∀ l, w.scopes s = some l ->
    (V.home ∈ l -> V.hidden x = false) ∧ (V.Kin l -> ¬V.guarded x)
  Declares _ s x := (s = V.home -> V.hidden x = false) ∧ (s ∈ V.around -> ¬V.kept x)
  Refers w r := w.arrays r
  refl _ := ⟨fun _ _ h => h, fun _ h => h⟩
  trans h h' := ⟨fun s l hs => h'.1 s l (h.1 s l hs), fun r hr => h'.2 r (h.2 r hr)⟩
  here_later h hs := ⟨_, h.1 _ _ hs.choose_spec⟩
  reads_later h hs hx l hl := by
    obtain ⟨l', hl'⟩ := hs
    rw [h.1 _ _ hl'] at hl
    cases hl
    exact hx _ hl'
  writes_later h hs hx l hl := by
    obtain ⟨l', hl'⟩ := hs
    rw [h.1 _ _ hl'] at hl
    cases hl
    exact hx _ hl'
  captures_later h hs hx l hl := by
    obtain ⟨l', hl'⟩ := hs
    rw [h.1 _ _ hl'] at hl
    cases hl
    exact hx _ hl'
  writes_of_captures _ hx l hl :=
    ⟨(hx l hl).1, fun hkin hkept => absurd (V.kept_guarded _ hkept) ((hx l hl).2 hkin)⟩
  declares_later _ _ hx := hx
  refers_later h hr := h.2 _ hr

/-- The stores compare, and the first is as it is known to be. -/
structure Sees (w : Known) (st st' : Store) : Prop where
  alike : st'.hide V.home V.hidden = st.hide V.home V.hidden
  held : ∀ x, V.hidden x = true -> st'.binding? V.home x = V.held x
  home : V.home < st.scopes.size
  around : st.chain V.home = V.around
  kept : ∀ x, V.kept x -> st.get? V.home x = V.seen x
  scope : ∀ s l, w.scopes s = some l ->
    s < st.scopes.size ∧ st.chain s = l ∧ ∀ t ∈ l, V.realm.Here w t
  binding : ∀ s x v, V.realm.Here w s -> (s = V.home -> V.hidden x = false) ->
    st.binding? s x = some v -> V.realm.Val w v
  array : ∀ r, w.arrays r -> r < st.arrays.size ∧ ∀ v ∈ st.elems r, V.realm.Val w v

variable {V} {w : Known} {st st' : Store}

theorem later_opened {s : Nat} {l : List Nat} (h : w.scopes s = none) :
    V.realm.Later w (w.opened s l) := by
  refine ⟨fun t l' ht => ?_, fun _ hr => hr⟩
  show (if t = s then _ else _) = _
  rw [if_neg, ht]
  rintro rfl
  simp [h] at ht

theorem later_allocated (more : Nat -> Prop) : V.realm.Later w (w.allocated more) :=
  ⟨fun _ _ h => h, fun _ hr => .inl hr⟩

/-! ## Stores that compare -/

namespace Sees

variable (h : V.Sees w st st')

include h

theorem size : st'.scopes.size = st.scopes.size := by
  rw [← Store.size_hide st', h.alike, Store.size_hide]

theorem arrays : st'.arrays = st.arrays :=
  congrArg (fun st => st.arrays) h.alike

theorem closures : st'.closures = st.closures :=
  congrArg (fun st => st.closures) h.alike

theorem calls : st'.calls = st.calls :=
  congrArg (fun st => st.calls) h.alike

theorem depth : st'.depth = st.depth :=
  congrArg (fun st => st.depth) h.alike

theorem memory : st'.memory = st.memory :=
  congrArg (fun st => st.memory) h.alike

theorem chain (s : Nat) : st'.chain s = st.chain s := by
  rw [← Store.chain_hide st', h.alike, Store.chain_hide]

theorem find? {s : Nat} {x : String} (hs : V.realm.Here w s) (hx : V.realm.Reads w s x) :
    st'.find? s x = st.find? s x := by
  obtain ⟨l, hl⟩ := hs
  have hchain : V.home ∈ st.chain s -> V.hidden x = false := by
    rw [(h.scope s l hl).2.1]
    exact hx l hl
  rw [← Store.find?_hide hchain, ← h.alike, Store.find?_hide]
  rw [h.chain]
  exact hchain

theorem fresh : w.scopes st.scopes.size = none := by
  by_contra hne
  obtain ⟨l, hl⟩ := Option.ne_none_iff_exists'.1 hne
  exact Nat.lt_irrefl _ (h.scope _ l hl).1

theorem around_lt {t : Nat} (ht : t ∈ V.around) : t < st.scopes.size := by
  rw [← h.around] at ht
  exact Store.lt_of_mem_chain ht

omit h in
/-- A change to anything but scopes, the same on both sides. -/
theorem beside (h : V.Sees w st st') (st₁ : Store) {st₁' : Store} (hscopes : st₁.scopes = st.scopes)
    (hrest : st₁' = { st₁ with scopes := st'.scopes }) {w' : Known} (hlater : V.realm.Later w w')
    (hsame : w'.scopes = w.scopes)
    (harray : ∀ r, w'.arrays r -> r < st₁.arrays.size ∧ ∀ v ∈ st₁.elems r, V.realm.Val w' v) :
    V.Sees w' st₁ st₁' where
  alike := by
    have hsc := congrArg (fun st => st.scopes) h.alike
    rw [hrest]
    simp only [Store.hide, hscopes] at hsc ⊢
    rw [hsc]
  held x hx := by
    have hscopes' : st₁'.scopes = st'.scopes := by rw [hrest]
    rw [Store.binding?_of_scopes hscopes', h.held x hx]
  home := by rw [hscopes]; exact h.home
  around := by rw [Store.chain_of_scopes hscopes, h.around]
  kept x hx := by rw [Store.get?_of_scopes hscopes, h.kept x hx]
  scope s l hl := by
    rw [hsame] at hl
    obtain ⟨hlt, hchain, hmem⟩ := h.scope s l hl
    rw [hscopes, Store.chain_of_scopes hscopes]
    exact ⟨hlt, hchain, fun t ht => V.realm.here_later hlater (hmem t ht)⟩
  binding s x v hs hx hv := by
    rw [Store.binding?_of_scopes hscopes] at hv
    obtain ⟨l, hl⟩ := hs
    exact (h.binding s x v ⟨l, by rw [← hsame]; exact hl⟩ hx hv).later hlater
  array := harray

/-- A change to the log and the counts only. -/
theorem besideArrays {st₁ st₁' : Store} (hscopes : st₁.scopes = st.scopes)
    (hrest : st₁' = { st₁ with scopes := st'.scopes }) (harrays : st₁.arrays = st.arrays) :
    V.Sees w st₁ st₁' := by
  refine h.beside st₁ hscopes hrest (V.realm.refl w) rfl fun r hr => ?_
  rw [harrays, Store.elems, harrays]
  exact h.array r hr

theorem enter : V.Sees w st.enter st'.enter :=
  h.besideArrays rfl (by
    simp only [Store.enter, h.arrays, h.closures, h.calls, h.depth, h.memory]) rfl

theorem leave : V.Sees w st.leave st'.leave :=
  h.besideArrays rfl (by
    simp only [Store.leave, h.arrays, h.closures, h.calls, h.depth, h.memory]) rfl

/-- A name bound on both sides. -/
theorem define {s : Nat} {x : String} {v : Value} (hx : V.realm.Declares w s x)
    (hv : V.realm.Val w v) : V.Sees w (st.define s x v) (st'.define s x v) where
  alike := by rw [Store.hide_define hx.1, Store.hide_define hx.1, h.alike]
  held y hy := by
    rw [Store.binding?_define, if_neg]
    · exact h.held y hy
    · rintro ⟨hhome, rfl, _⟩
      simp [hx.1 hhome.symm] at hy
  home := by rw [Store.size_define]; exact h.home
  around := by rw [Store.chain_define, h.around]
  kept y hy := by
    rw [Store.get?_define_of_ne, h.kept y hy]
    rw [h.around]
    rintro hs rfl
    exact hx.2 hs hy
  scope t l hl := by
    rw [Store.size_define, Store.chain_define]
    exact h.scope t l hl
  binding t y u ht hy hu := by
    rw [Store.binding?_define] at hu
    split at hu
    · cases hu
      exact hv
    · exact h.binding t y u ht hy hu
  array := h.array

omit h in
/-- A name that is hidden bound on the second side. -/
theorem hold (h : V.Sees w st st') {x : String} (hx : V.hidden x = true) (v : Value) :
    (V.holding x v).Sees w st (st'.define V.home x v) where
  alike := by
    refine Eq.trans ?_ h.alike
    exact Store.hide_define_hidden hx v st'
  held y hy := by
    show (st'.define V.home x v).binding? V.home y = if y = x then some v else V.held y
    have hhome : V.home < st'.scopes.size := by
      rw [h.size]
      exact h.home
    rw [Store.binding?_define, h.held y hy]
    simp [hhome]
  home := h.home
  around := h.around
  kept := h.kept
  scope := h.scope
  binding := h.binding
  array := h.array

omit h in
/-- The stores change places. -/
theorem symm (h : V.Sees w st st') (hkept : ∀ x, V.kept x -> V.hidden x = false) :
    ({ V with held := st.binding? V.home } : View).Sees w st' st where
  alike := h.alike.symm
  held _ _ := rfl
  home := by rw [h.size]; exact h.home
  around := by rw [h.chain, h.around]
  kept x hx := by
    have hhidden : V.hidden x = false := hkept x hx
    rw [← h.kept x hx, Store.get?, Store.get?, ← Store.find?_hide (fun _ => hhidden), h.alike,
      Store.find?_hide fun _ => hhidden]
  scope s l hl := by rw [h.size, h.chain]; exact h.scope s l hl
  binding s x v hs hx hv := h.binding s x v hs hx (by
    rw [← hv, ← Store.binding?_hide hx st, ← h.alike, Store.binding?_hide hx st'])
  array r hr := by
    rw [h.arrays, Store.elems, h.arrays]
    exact h.array r hr

/-- A new scope on both sides. -/
theorem push {outer : Option Nat} {l : List Nat}
    (hchain : (st.push outer).2.chain st.scopes.size = st.scopes.size :: l)
    (hl : ∀ t ∈ l, V.realm.Here w t) :
    V.Sees (w.opened st.scopes.size l) (st.push outer).2 (st'.push outer).2 := by
  have hlater : V.realm.Later w (w.opened st.scopes.size l) := later_opened h.fresh
  constructor
  · rw [Store.hide_push, Store.hide_push, h.alike]
  · intro x hx
    rw [Store.binding?_push]
    exact h.held x hx
  · rw [Store.size_push]
    exact Nat.lt_succ_of_lt h.home
  · rw [Store.chain_push_old st outer h.home, h.around]
  · intro x hx
    rw [Store.get?_push_old st outer h.home, h.kept x hx]
  · intro t l' ht
    rw [Store.size_push]
    by_cases heq : t = st.scopes.size
    · obtain rfl : st.scopes.size :: l = l' := by
        simpa [Known.opened, heq] using ht
      rw [heq]
      refine ⟨Nat.lt_succ_self _, hchain, fun u hu => ?_⟩
      rcases List.mem_cons.1 hu with rfl | hu
      · exact ⟨_, if_pos rfl⟩
      · exact V.realm.here_later hlater (hl u hu)
    · have ht : w.scopes t = some l' := by simpa [Known.opened, heq] using ht
      obtain ⟨hlt, hchain', hmem⟩ := h.scope t l' ht
      rw [Store.chain_push_old st outer hlt]
      exact ⟨Nat.lt_succ_of_lt hlt, hchain', fun u hu => V.realm.here_later hlater (hmem u hu)⟩
  · intro t x v ht hx hv
    rw [Store.binding?_push] at hv
    obtain ⟨l', ht⟩ := ht
    by_cases heq : t = st.scopes.size
    · have hnone : st.scopes[t]? = none := by
        rw [heq]
        exact Array.getElem?_eq_none (Nat.le_refl _)
      simp [Store.binding?, hnone] at hv
    · have ht : w.scopes t = some l' := by simpa [Known.opened, heq] using ht
      exact (h.binding t x v ⟨l', ht⟩ hx hv).later hlater
  · intro r hr
    obtain ⟨hlt, hval⟩ := h.array r hr
    exact ⟨hlt, fun v hv => (hval v hv).later hlater⟩

/-- What can be seen of a new scope inside another. -/
theorem opened {outer : Nat} {l : List Nat} (hl : w.scopes outer = some l) :
    V.realm.Opened w outer (w.opened st.scopes.size l) st.scopes.size := by
  have hself : (w.opened st.scopes.size l).scopes st.scopes.size = some (st.scopes.size :: l) :=
    if_pos rfl
  have hhome {l' : List Nat} (hl' : some (st.scopes.size :: l) = some l') :
      V.home ∈ l' -> V.home ∈ l := by
    cases hl'
    intro hmem
    exact (List.mem_cons.1 hmem).resolve_left (Nat.ne_of_lt h.home)
  have hkin {l' : List Nat} (hl' : some (st.scopes.size :: l) = some l') : V.Kin l' -> V.Kin l := by
    cases hl'
    rintro ⟨t, ht, haround⟩
    refine ⟨t, (List.mem_cons.1 ht).resolve_left ?_, haround⟩
    exact Nat.ne_of_lt (h.around_lt haround)
  constructor
  · exact ⟨_, hself⟩
  · intro x hx l' hl' hmem
    exact hx l hl (hhome (hself.symm.trans hl') hmem)
  · intro x hx l' hl'
    exact ⟨fun hmem => (hx l hl).1 (hhome (hself.symm.trans hl') hmem),
      fun hmem => (hx l hl).2 (hkin (hself.symm.trans hl') hmem)⟩
  · intro x hx l' hl'
    exact ⟨fun hmem => (hx l hl).1 (hhome (hself.symm.trans hl') hmem),
      fun hmem => (hx l hl).2 (hkin (hself.symm.trans hl') hmem)⟩
  · intro x
    exact ⟨fun heq => absurd heq (Nat.ne_of_gt h.home),
      fun hmem => absurd (h.around_lt hmem) (Nat.lt_irrefl _)⟩

/-- A new scope inside no other is for any code. -/
theorem free : V.realm.Free (w.opened st.scopes.size []) st.scopes.size := by
  have hself : (w.opened st.scopes.size []).scopes st.scopes.size = some [st.scopes.size] :=
    if_pos rfl
  have hhome {l' : List Nat} (hl' : (w.opened st.scopes.size []).scopes st.scopes.size = some l') :
      V.home ∉ l' := by
    cases hself.symm.trans hl'
    intro hmem
    exact Nat.ne_of_lt h.home (List.mem_singleton.1 hmem)
  have hkin {l' : List Nat} (hl' : (w.opened st.scopes.size []).scopes st.scopes.size = some l') :
      ¬V.Kin l' := by
    cases hself.symm.trans hl'
    rintro ⟨t, ht, haround⟩
    exact Nat.ne_of_lt (h.around_lt haround) (List.mem_singleton.1 ht)
  constructor
  · exact ⟨_, hself⟩
  · intro x l' hl' hmem
    exact absurd hmem (hhome hl')
  · intro x l' hl'
    exact ⟨fun hmem => absurd hmem (hhome hl'), fun hmem => absurd hmem (hkin hl')⟩
  · intro x l' hl'
    exact ⟨fun hmem => absurd hmem (hhome hl'), fun hmem => absurd hmem (hkin hl')⟩
  · intro x
    exact ⟨fun heq => absurd heq (Nat.ne_of_gt h.home),
      fun hmem => absurd (h.around_lt hmem) (Nat.lt_irrefl _)⟩

end Sees

end View

end EarlyExit.Eval
