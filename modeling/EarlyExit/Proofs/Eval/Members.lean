import EarlyExit.Proofs.Eval.Constructs
import EarlyExit.Proofs.Settings

/-!
# Code over a container

An expansion tests a container, takes its success value out of it and makes it anew, by
the member names that the kind lists.  With settings that pass their check the interpreter
understands these calls as they are meant, as far as the names of the kind are told apart:
it tries them in a fixed order, and the first that fits decides.
-/

namespace EarlyExit.Eval

open Run

variable {m : Machine} {f : Frame} {st : Store} {x name : String} {k : Kind}
  {alternate : Bool} {held : Value}

/-! ## Members -/

theorem containerMember_predicate (k : Kind) (alternate : Bool) (held : Value) (st : Store) :
    containerMember k alternate held k.predicate [] st = .ok (.bool alternate) st := by
  simp only [containerMember]
  rfl

theorem containerMember_accessor (h : k.accessor ≠ k.predicate) (held : Value) (st : Store) :
    containerMember k false held k.accessor [] st = .ok held st := by
  simp only [containerMember, h, if_false]
  rfl

theorem containerMember_alternateAccessor (hnamed : k.alternateAccessor ≠ "")
    (hpredicate : k.alternateAccessor ≠ k.predicate) (haccessor : k.alternateAccessor ≠ k.accessor)
    (held : Value) (st : Store) :
    containerMember k true held k.alternateAccessor [] st = .ok held st := by
  simp [containerMember, hpredicate, haccessor, hnamed]
  rfl

/-- A member without arguments, called on a variable that holds a container. -/
theorem eval_member (hx : st.get? f.scope x = some (.container k alternate held))
    (hname : name ≠ m.sentinel) (n : Nat) (span s : Span) (t type : String) :
    eval m (n + 1) f (.call span (.ident s x t) name [] type) st =
      containerMember k alternate held name [] st := by
  let r : Inner := ⟨n, eval m n, exec m n⟩
  show call m r f span (.ident s x t) name [] st = _
  rw [call_ident]
  show (Option.elim (st.get? f.scope x) _ _ : Run Value) st = _
  rw [hx]
  show callMember m r f span (.container k alternate held) name [] st = _
  rw [callMember_eq]
  show memberCall m r span (.container k alternate held) name [] st = _
  simp only [memberCall, hname, and_false, if_false]

/-- A factory for containers in the alternate state, called on its class. -/
theorem eval_alternateFactory {r : Inner} {args : List Expr} {vs : List Value} {st' : Store}
    (hclass : st.get? f.scope k.name = none) (hkind : m.registry.byName? k.name = some k)
    (hargs : r.evalAll f args st = .ok vs st') (span s : Span) (t : String) :
    call m r f span (.ident s k.name t) k.alternateFactory args st =
      .ok (.alternate k (vs.headD .null)) st' := by
  rw [call_ident]
  show (Option.elim (st.get? f.scope k.name) _ _ : Run Value) st = _
  rw [hclass]
  show callStatic m r f span k.name k.alternateFactory args st = _
  have hvalues : r.evalAll f args st = ended (.ok vs) st' := hargs
  rw [callStatic_eq, bind_ended hvalues]
  simp only [resume, staticCall, hkind, Option.elim_some, if_true]
  rfl

theorem evalAll_single {r : Inner} {e : Expr} {v : Value} {st' : Store}
    (h : r.eval f e st = .ok v st') : r.evalAll f [e] st = .ok [v] st' := by
  show EStateM.bind _ _ st = _
  simp only [EStateM.bind, h]
  rfl

/-- A container made anew by its factory. -/
theorem eval_reconstruct (hx : st.get? f.scope x = some (.container k true held))
    (hclass : st.get? f.scope k.name = none) (hkind : m.registry.byName? k.name = some k)
    (hsentinel : k.alternateAccessor ≠ m.sentinel)
    (hpredicate : k.alternateAccessor ≠ k.predicate) (haccessor : k.alternateAccessor ≠ k.accessor)
    (n : Nat) (span place : Span) (t : String) :
    eval m (n + 2) f (k.reconstruct (.ident place x t) span) st = .ok (.alternate k held) st := by
  let r : Inner := ⟨n + 1, eval m (n + 1), exec m (n + 1)⟩
  show call m r f span (.ident span k.name "") k.alternateFactory _ st = _
  by_cases hnone : k.alternateAccessor = ""
  · have hargs : r.evalAll f [] st = .ok [] st := rfl
    rw [if_pos (String.isEmpty_iff.2 hnone), eval_alternateFactory hclass hkind hargs]
    simp [Value.alternate, hnone]
  · have hread : r.eval f (.call span (.ident place x t) k.alternateAccessor [] "") st =
        .ok held st :=
      (eval_member hx hsentinel n span place t "").trans
        (containerMember_alternateAccessor hnone hpredicate haccessor held st)
    rw [if_neg (mt String.isEmpty_iff.1 hnone),
      eval_alternateFactory hclass hkind (evalAll_single hread)]
    rfl

/-- A container made anew equals what it was made of, unless that holds a value unlike itself. -/
theorem equal_alternate (k : Kind) (held : Value) :
    (Value.alternate k held).equal true (.alternate k held) = true ↔
      k.alternateAccessor = "" ∨ held.equal true held = true := by
  by_cases hnone : k.alternateAccessor = ""
  · simp [Value.alternate, hnone, Value.equal, Value.equalLeaf]
  · simp [Value.alternate, hnone, Value.equal]

/-! ## Validated kinds -/

/--
The guard, the extraction and the reconstruction over a variable that holds a container of
a kind of checked settings.  The guard tells the state whatever the names; the extraction
needs an accessor that is not the test, and the reconstruction an alternate accessor that is
neither of the two.  What is made anew equals an alternate of the held value, except for a held
value that does not equal itself.
-/
theorem members_of_check {s : Settings} {r : Registry} (hs : s.check = .ok r)
    (hregistry : m.registry = r)
    (hsentinel : m.sentinel = s.sentinel ∨ m.sentinel ∉ Settings.calledMembers k)
    (hk : k ∈ r.kinds) (hx : st.get? f.scope x = some (.container k alternate held))
    (hclass : st.get? f.scope k.name = none) (n : Nat) (span place : Span) (t type : String) :
    eval m (n + 1) f (k.guard (.ident place x t) span) st = .ok (.bool alternate) st ∧
      (k.accessor ≠ k.predicate -> alternate = false ->
        eval m (n + 1) f (k.extract (.ident place x t) span type) st = .ok held st) ∧
      (k.alternateAccessor ≠ k.predicate -> k.alternateAccessor ≠ k.accessor -> alternate = true ->
        eval m (n + 2) f (k.reconstruct (.ident place x t) span) st = .ok (.alternate k held) st ∧
          ((Value.alternate k held).equal true (.alternate k held) = true ↔
            k.alternateAccessor = "" ∨ held.equal true held = true)) := by
  obtain ⟨-, -, hconfigured, hmembers⟩ := Settings.check_ok hs
  have howned : r.Owned := Registry.owned_configured hconfigured
  have happart : m.sentinel ∉ Settings.calledMembers k :=
    hsentinel.elim (fun h => h ▸ hmembers k hk) id
  simp only [Settings.calledMembers, List.mem_cons, List.not_mem_nil, or_false, not_or] at happart
  obtain ⟨hpredicate, haccessor, halternate⟩ := happart
  refine ⟨?guard, ?extract, ?reconstruct⟩
  case guard =>
    exact (eval_member hx (Ne.symm hpredicate) n span place t _).trans
      (containerMember_predicate k alternate held st)
  case extract =>
    rintro hnames rfl
    exact (eval_member hx (Ne.symm haccessor) n span place t _).trans
      (containerMember_accessor hnames held st)
  case reconstruct =>
    rintro hpred hacc rfl
    refine ⟨?_, equal_alternate k held⟩
    have hkind : m.registry.byName? k.name = some k := by
      rw [hregistry]
      exact howned.byName?_name hk
    exact eval_reconstruct hx hclass hkind (Ne.symm halternate) hpred hacc n span place t

section Examples

/-- A kind whose test has the name of its accessor. -/
abbrev ambiguousKind : Kind where
  name := "Box"
  predicate := "get"
  accessor := "get"
  alternateFactory := "none"
  successFactory := "some"

abbrev holding (v : Value) : Store :=
  { scopes := #[{ bindings := [("t", v)] }] }

/-- The interpreter of checked settings with one more kind. -/
abbrev boxMachine : Machine where
  unit := { file := "" }
  registry := ⟨Kind.builtin ++ [ambiguousKind], Registry.standard.owners ++ [("Box", ambiguousKind)]⟩

theorem get?_holding (v : Value) : (holding v).get? 0 "t" = some v := by
  simp [Store.get?, Store.find?]

theorem get?_holding_class (v : Value) {name : String} (h : name ≠ "t") :
    (holding v).get? 0 name = none := by
  simp [Store.get?, Store.find?, List.lookup_cons, beq_eq_false_iff_ne.2 h]

abbrev plainMachine : Machine where
  unit := { file := "" }

theorem members_of_check_either :
    eval plainMachine 2 ⟨0⟩ (Kind.either.reconstruct (.ident .nowhere "t" "") .nowhere)
        (holding (.container .either true (.int 7))) =
      .ok (.alternate .either (.int 7)) (holding (.container .either true (.int 7))) := by
  have h := members_of_check (m := plainMachine) (f := ⟨0⟩) (k := .either)
    Settings.check_default rfl (.inl rfl) (by decide) (get?_holding _)
    (get?_holding_class (.container .either true (.int 7)) (by decide)) 0 .nowhere .nowhere "" ""
  exact (h.2.2 (by decide) (by decide) rfl).1

abbrev boxSettings : Settings where
  kinds := [ambiguousKind]

theorem check_boxSettings : boxSettings.check = .ok boxMachine.registry :=
  Settings.check_kinds rfl (by decide)

/--
A test of the name of the accessor answers in its place, so that a success of 7 gives
`false`.  An alternate that holds a value unlike itself is made anew with that value, and the
two containers are not equal.
-/
theorem members_ambiguous :
    boxSettings.check = .ok boxMachine.registry ∧ ambiguousKind ∈ boxMachine.registry.kinds ∧
      eval boxMachine 1 ⟨0⟩ (ambiguousKind.extract (.ident .nowhere "t" "") .nowhere "")
          (holding (.container ambiguousKind false (.int 7))) =
        .ok (.bool false) (holding (.container ambiguousKind false (.int 7))) ∧
      eval plainMachine 2 ⟨0⟩ (Kind.either.reconstruct (.ident .nowhere "t" "") .nowhere)
          (holding (.container .either true (.float (0 / 0)))) =
        .ok (.alternate .either (.float (0 / 0)))
          (holding (.container .either true (.float (0 / 0)))) ∧
      (Value.alternate .either (.float (0 / 0))).equal true (.alternate .either (.float (0 / 0))) =
        false := by
  refine ⟨check_boxSettings, by decide, ?_, ?_, by decide +kernel⟩
  · rw [Kind.extract, eval_member (get?_holding _) (by decide)]
    rfl
  · exact eval_reconstruct (get?_holding _) (get?_holding_class _ (by decide)) rfl (by decide)
      (by decide) (by decide) 0 .nowhere .nowhere ""

end Examples

end EarlyExit.Eval
