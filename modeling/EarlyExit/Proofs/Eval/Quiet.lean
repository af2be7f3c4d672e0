import EarlyExit.Proofs.Eval.Comparison
import EarlyExit.Proofs.Eval.Reach

/-!
# What evaluation leaves alone

Before a part of a statement is evaluated in front of the rest, the code that the store
leads to has to keep away from some variables: from the names to be drawn, which it must not
mention, and from the names that the rest reads, which it must not write.  Such a store is
quiet.  Evaluating an expression without lambdas leaves it quiet, and leaves every variable
alone that the expression does not write itself.
-/

namespace EarlyExit.Eval

open Node Expansion Run

def NoLambda (n : Node) : Prop :=
  Everywhere (fun c => ∀ span ps body, c ≠ .expr (.lambda span ps body)) n

/-- The view from a scope that hides some names and guards others. -/
def watching (names : List String) (guarded : String -> Prop) (home : Nat) (st : Store) : View where
  home
  hidden := names.contains
  held := st.binding? home
  around := st.chain home
  guarded
  kept_guarded _ h := h.elim

/--
A store where the code that a scope leads to does not mention the names there, and writes no
guarded variable of the scope or those around it.
-/
structure Quiet (names : List String) (guarded : String -> Prop) (home : Nat) (st : Store) :
    Prop where
  sound : st.Sound home
  closures : ∀ id ps body o, st.Reaches home (.closure id ps body o) ->
    (watching names guarded home st).Seals (st.chain o) body

variable {names : List String} {guarded : String -> Prop} {home : Nat} {st st₁ : Store}

/-- A store that compares is quiet, if what is hidden there is known. -/
theorem quiet_of_sees {V : View} {w : Known} {st' : Store} (h : V.Sees w st st')
    (hnames : V.hidden = names.contains) (hguarded : V.guarded = guarded)
    (hhome : V.realm.Here w V.home)
    (hhidden : ∀ x v, V.hidden x = true -> st.binding? V.home x = some v -> V.realm.Val w v) :
    Quiet names guarded V.home st where
  sound :=
    { here := h.home
      array := fun r hr => (h.array r (h.reached hhome hhidden hr)).1
      closure := fun id ps body o ho => by
        obtain ⟨⟨l, hl⟩, _⟩ := h.reached hhome hhidden ho
        exact (h.scope o l hl).1 }
  closures id ps body o ho := by
    have hseals := h.seals (h.reached hhome hhidden ho)
    unfold View.Seals View.Kin at hseals ⊢
    simp only [watching, h.around]
    rwa [hnames, hguarded] at hseals

/-- Fewer names to keep away from. -/
theorem Quiet.mono (h : Quiet names guarded home st) {names' : List String}
    (hnames : ∀ x ∈ names', x ∈ names) : Quiet names' guarded home st where
  sound := h.sound
  closures id ps body o ho n hn := (h.closures id ps body o ho n hn).imp fun c hc => by
    have hhidden {x : String} (hx : names.contains x = false) : names'.contains x = false := by
      simp only [List.contains_eq_mem, decide_eq_false_iff_not] at hx ⊢
      exact fun hmem => hx (hnames x hmem)
    exact ⟨fun x hx hhome => hhidden (hc.1 x hx hhome),
      fun x hx => ⟨fun hhome => hhidden ((hc.2 x hx).1 hhome), (hc.2 x hx).2⟩⟩

/-- What the evaluation of an expression from a quiet store leaves alone. -/
structure Evaluated (names : List String) (guarded : String -> Prop) (home : Nat) (d : Expr)
    (st : Store) (ending : Except Stop Value) (st₁ : Store) : Prop where
  chain : st₁.chain home = st.chain home
  get? : ∀ x, guarded x -> x ∉ names -> (x ∈ writtenNames d -> st.get? home x = none) ->
    st₁.get? home x = st.get? home x
  binding? : ∀ x ∈ names, st₁.binding? home x = st.binding? home x
  quiet : Quiet names guarded home st₁
  drawn : ∀ v t, ending = .ok v -> t ∈ names -> Quiet names guarded home (st₁.define home t v)

theorem Quiet.evaluated {m : Machine} {f : Frame} {d : Expr} {ending : Except Stop Value}
    (h : Quiet names guarded f.scope st)
    (hm : ∀ name fn, m.hosts name = some fn -> Confined fn) (hlambda : NoLambda (.expr d))
    (hnames : ∀ x ∈ usedNames (.expr d), x ∉ names)
    (hd : evalFully m f d st = ended ending st₁) (hends : ending ≠ .error .outOfFuel) :
    Evaluated names guarded f.scope d st ending st₁ := by
  let V : View := { watching names guarded f.scope st with
    kept := fun x => guarded x ∧ x ∉ names ∧ (x ∈ writtenNames d -> st.get? f.scope x = none)
    kept_guarded := fun _ hx => hx.1
    seen := st.get? f.scope }
  have hsees : V.Sees (st.known f.scope) st st :=
    View.sees_known h.sound h.closures rfl (fun _ _ => rfl) rfl fun _ _ => rfl
  have hhome : V.realm.Here (st.known f.scope) f.scope := View.home_known h.sound
  have hcode : V.realm.Code (st.known f.scope) f.scope d := by
    refine View.admits_everywhere (fun x hx => ?_) (fun c hc x hx hkept => hkept.2.2 ?_) ?_
    · show names.contains x = false
      simpa using hnames x hx
    · exact List.mem_filterMap.2 ⟨c, hc, hx⟩
    · intro c hc span ps body heq
      exact absurd heq (hlambda c hc span ps body)
  rcases (V.alike_self hm).eval hhome hcode st st hsees with hwants | hrun
  · have hwants : WantsFuel (evalFully m f d st) := hwants
    rw [hd] at hwants
    exact absurd hwants (not_wantsFuel_ended hends)
  obtain ⟨ending', st₂, st₂', w, hleft, hright, _, hlater, hsees', hval⟩ := hrun
  obtain ⟨rfl, rfl⟩ := ended_inj (hd.symm.trans hleft)
  obtain ⟨_, rfl⟩ := ended_inj (hd.symm.trans hright)
  have hhome' := V.realm.here_later hlater hhome
  have hhidden : ∀ x v, V.hidden x = true -> st₁.binding? V.home x = some v -> V.realm.Val w v := by
    intro x v hx hv
    rw [hsees'.held x hx] at hv
    have hreach : st.Reaches f.scope v := .bound (Store.self_mem_chain h.sound.here) hv
    exact (View.val_known h.sound h.closures v hreach).later hlater
  refine ⟨hsees'.around, fun x hg hn hx => hsees'.kept x ⟨hg, hn, hx⟩, fun x hx => ?_,
    quiet_of_sees hsees' rfl rfl hhome' hhidden, fun v t hv ht => ?_⟩
  · exact hsees'.held x (by simpa [V, watching] using hx)
  · subst hv
    have hhide : V.hidden t = true := by simpa [V, watching] using ht
    have hturned := (hsees'.hold hhide v).symm fun x hx => by
      show names.contains x = false
      simpa using hx.2.1
    refine quiet_of_sees hturned rfl rfl hhome' fun x u hx hu => ?_
    have hu : (st₁.define f.scope t v).binding? f.scope x = some u := hu
    rw [Store.binding?_define] at hu
    split at hu
    · cases hu
      exact hval
    · exact hhidden x u hx hu

end EarlyExit.Eval
