import EarlyExit.Proofs.Eval.Limit
import EarlyExit.Proofs.Eval.Scopes

/-!
# What runs keep to

A relation of a store to later ones that every access to the store keeps to, and every
call with the counting around it, relates the stores before and after any run.  So no code
takes a variable away: what a scope binds it binds from then on, inside the scope it was
opened in.  And however a call ends, as many calls are under way as before it.
-/

namespace EarlyExit.Eval

open Run

/-- Every scope is still there with the variables it had. -/
def Grows (st st' : Store) : Prop :=
  ∀ (s : Nat) (sc : Scope), st.scopes[s]? = some sc -> ∃ sc' : Scope,
    st'.scopes[s]? = some sc' ∧ sc'.outer = sc.outer ∧
      ∀ x, (sc.bindings.lookup x).isSome = true -> (sc'.bindings.lookup x).isSome = true

namespace Grows

theorem refl (st : Store) : Grows st st :=
  fun _ sc h => ⟨sc, h, rfl, fun _ hx => hx⟩

theorem trans {st st' st'' : Store} (h : Grows st st') (h' : Grows st' st'') : Grows st st'' := by
  intro s sc hs
  obtain ⟨sc', hs', houter, hkept⟩ := h s sc hs
  obtain ⟨sc'', hs'', houter', hkept'⟩ := h' s sc' hs'
  exact ⟨sc'', hs'', houter'.trans houter, fun x hx => hkept' x (hkept x hx)⟩

theorem of_scopes {st st' : Store} (h : st'.scopes = st.scopes) : Grows st st' := by
  intro s sc hs
  exact ⟨sc, by rw [h, hs], rfl, fun _ hx => hx⟩

theorem define (st : Store) (k : Nat) (x : String) (v : Value) : Grows st (st.define k x v) := by
  intro s sc hs
  rw [Store.scopes_define, hs]
  split
  · refine ⟨_, rfl, rfl, fun y hy => ?_⟩
    simp only [Scope.lookup_bind]
    split
    · rfl
    · exact hy
  · exact ⟨sc, rfl, rfl, fun _ hx => hx⟩

theorem push (st : Store) (outer : Option Nat) : Grows st (st.push outer).2 := by
  intro s sc hs
  have hlt : s < st.scopes.size := (Array.getElem?_eq_some_iff.1 hs).1
  rw [Store.scopes_push, if_neg (by omega)]
  exact ⟨sc, hs, rfl, fun _ hx => hx⟩

theorem chain {st st' : Store} (h : Grows st st') {s : Nat} (hs : s < st.scopes.size) :
    st'.chain s = st.chain s := by
  refine Store.chain_congr fun t ht => ?_
  have hsc := Array.getElem?_eq_getElem (show t < st.scopes.size by omega)
  obtain ⟨sc', hsc', houter, _⟩ := h t _ hsc
  rw [hsc, hsc', Option.map_some, Option.map_some, houter]

/-- A variable that can be seen stays bound. -/
theorem bound {st st' : Store} (h : Grows st st') {s : Nat} {x : String}
    (hx : (st.get? s x).isSome = true) : (st'.get? s x).isSome = true := by
  obtain ⟨t, ht, hbound⟩ := Store.isSome_get?.1 hx
  have hs : s < st.scopes.size := by
    by_contra hge
    simp [Store.chain_none (Array.getElem?_eq_none (Nat.le_of_not_lt hge))] at ht
  refine Store.isSome_get?.2 ⟨t, by rw [h.chain hs]; exact ht, ?_⟩
  obtain ⟨v, hv⟩ := Option.isSome_iff_exists.1 hbound
  obtain ⟨sc, hsc, hlookup⟩ := Option.bind_eq_some_iff.1 hv
  obtain ⟨sc', hsc', _, hkept⟩ := h t sc hsc
  rw [Store.binding?, hsc']
  exact hkept x (by rw [hlookup]; rfl)

end Grows

def storeOf : EStateM.Result Stop Store α -> Store
  | .ok _ st => st
  | .error _ st => st

theorem storeOf_ended (ending : Except Stop α) (st : Store) : storeOf (ended ending st) = st := by
  cases ending <;> rfl

/-! ## Relations of stores to later ones -/

/-- A relation of a store to later ones that accesses to the store keep to. -/
structure Passage where
  Rel : Store -> Store -> Prop
  refl : ∀ st, Rel st st
  trans : ∀ {st st' st''}, Rel st st' -> Rel st' st'' -> Rel st st''
  define : ∀ st k x v, Rel st (st.define k x v)
  push : ∀ st outer, Rel st (st.push outer).2
  /-- Arrays, the count of closures and the log do not matter. -/
  of_scopes : ∀ {st st'}, st'.scopes = st.scopes -> st'.depth = st.depth -> Rel st st'
  /-- What relates the stores before and after a body does so for the call. -/
  counted : ∀ {st st'}, Rel st.enter st' -> Rel st st'.leave

namespace Passage

variable {P : Passage} {α β : Type}

/-- The computation keeps to the relation, however it ends. -/
def Keeps (P : Passage) (x : Run α) : Prop :=
  ∀ st, P.Rel st (storeOf (x st))

theorem Keeps.of_scopes {x : Run α} (h : ∀ st, (storeOf (x st)).scopes = st.scopes ∧
    (storeOf (x st)).depth = st.depth) : P.Keeps x :=
  fun st => P.of_scopes (h st).1 (h st).2

theorem keeps_pure (a : α) : P.Keeps (pure a : Run α) :=
  fun st => P.refl st

theorem keeps_throw (stop : Stop) : P.Keeps (throw stop : Run α) :=
  fun st => P.refl st

theorem Keeps.attempt {x : Run α} (hx : P.Keeps x) {k : Except Stop α -> Run β}
    (hk : ∀ st ending st', x st = ended ending st' -> P.Keeps (k ending)) :
    P.Keeps (x.attempt k) := by
  intro st
  rcases wantsFuel_or_ended (x st) with ⟨st', h⟩ | ⟨ending, st', hends, h⟩
  · have hst := hx st
    rw [h] at hst
    unfold Run.attempt
    rw [h]
    exact hst
  · rw [attempt_ended h hends]
    have hst := hx st
    rw [h, storeOf_ended] at hst
    exact P.trans hst (hk st ending st' h st')

theorem Keeps.bind {x : Run α} (hx : P.Keeps x) {g : α -> Run β} (hg : ∀ a, P.Keeps (g a)) :
    P.Keeps (x >>= g) := by
  rw [bind_eq]
  refine hx.attempt fun _ ending _ _ => ?_
  cases ending with
  | ok a => exact hg a
  | error stop => exact keeps_throw stop

theorem Keeps.counted {x : Run Value} (hx : P.Keeps x) (m : Machine) :
    P.Keeps (Eval.counted m x) := by
  intro st
  by_cases hdepth : st.depth < m.maxDepth
  · obtain ⟨ending, st', h⟩ := exists_ended (x st.enter)
    have hst := hx st.enter
    rw [h, storeOf_ended] at hst
    rw [counted_ended hdepth h, storeOf_ended]
    exact P.counted hst
  · rw [counted_over hdepth, storeOf_ended]
    exact P.refl st

theorem keeps_text (v : Value) : P.Keeps (Run.text v) := by
  intro st
  rw [text_eq, storeOf_ended]
  exact P.refl st

theorem keeps_rebind (f : Frame) (span : Span) (x : String) (v : Value) :
    P.Keeps (rebind f span x v) := by
  intro st
  cases h : st.find? f.scope x with
  | none =>
      rw [rebind_none h, storeOf_ended]
      exact P.refl st
  | some found =>
      rw [rebind_some (t := found.1) (u := found.2) h, storeOf_ended]
      exact P.define st _ x v

theorem keeps_element (a i : Value) : P.Keeps (element a i) := by
  have htext {f : String -> Failure} (v : Value) :
      P.Keeps (do Run.fail (f (← Run.text v)) : Run (Nat × Nat)) :=
    (keeps_text v).bind fun _ => keeps_throw _
  unfold element
  split
  · split
    next ref _ n =>
      intro st
      show P.Rel st (storeOf ((if 0 ≤ n.toInt && n.toInt < (st.elems ref).size then
        (return (ref, n.toInt.toNat) : Run (Nat × Nat)) else Run.raise _ _) st))
      split <;> exact P.refl st
    next => exact htext _
  · exact keeps_throw _
  · exact htext _

theorem keeps_callHost {name : String} {fn : HostFunction} (hfn : ∀ args, P.Keeps (fn args))
    (args : List Value) : P.Keeps (callHost name fn args) := by
  have htexts : P.Keeps (Run.texts args) := fun st => by
    rw [texts_eq, storeOf_ended]
    exact P.refl st
  exact htexts.bind fun texts => Keeps.bind (fun st => P.of_scopes rfl rfl) fun _ => hfn args

/-- Keeping to the relation as a logic of runs. -/
def logic (P : Passage) : Logic .boundless Unit where
  Rel w _ y Q := P.Keeps y ∧ ∀ st a st', y st = .ok a st' -> Q w a
  Hosts fn := ∀ args, P.Keeps (fn args)
  lax := False
  pure h := ⟨keeps_pure _, fun _ _ _ heq => by cases heq; exact h⟩
  stop _ := ⟨keeps_throw _, fun _ _ _ heq => by cases heq⟩
  counted h := ⟨h.1.counted _, fun st v _ heq => by
    obtain ⟨st₁, hy⟩ := eq_ok_of_counted heq
    exact h.2 st.enter v st₁ hy⟩
  below h := h.elim
  attempt := by
    intro α β w x y R k k' Q ⟨hkeeps, hQ⟩ hk
    have hends {st st' : Store} {ending : Except Stop α} (h : y st = ended ending st') :
        Realm.boundless.Ends R w ending := by
      cases ending with
      | ok a => exact hQ st a st' h
      | error stop => exact Realm.boundless_carries w stop
    refine ⟨hkeeps.attempt fun st ending st' h => (hk w ending trivial (hends h)).1, ?_⟩
    intro st b st' heq
    rcases wantsFuel_or_ended (y st) with hwants | ⟨ending, st₁, hending, hy⟩
    · obtain ⟨st₂, h⟩ := attempt_wantsFuel hwants k'
      cases heq.symm.trans h
    · exact (hk w ending trivial (hends hy)).2 st₁ b st'
        ((attempt_ended hy hending k').symm.trans heq)
  text _ := ⟨keeps_text _, fun _ _ _ _ => trivial⟩
  find _ _ := ⟨fun st => P.refl st, fun _ _ _ _ _ _ => Realm.boundless_val _ _⟩
  rebind _ _ _ := ⟨keeps_rebind _ _ _ _, fun _ _ _ _ => trivial⟩
  define _ _ _ := ⟨fun st => P.define st _ _ _, fun _ _ _ _ => trivial⟩
  root := ⟨fun st => P.push st none, fun _ _ _ _ =>
    ⟨trivial, fun _ => trivial, fun _ => trivial, fun _ => trivial, fun _ => trivial⟩⟩
  push _ := ⟨fun st => P.push st _, fun _ _ _ _ =>
    ⟨trivial, fun _ _ => trivial, fun _ _ => trivial, fun _ _ => trivial, fun _ => trivial⟩⟩
  alloc _ := ⟨.of_scopes fun _ => ⟨rfl, rfl⟩, fun _ _ _ _ => Realm.boundless_val _ _⟩
  element _ := ⟨keeps_element _ _, fun _ _ _ _ => trivial⟩
  readElement _ := ⟨fun st => P.refl st, fun _ _ _ _ => Realm.boundless_val _ _⟩
  writeElement _ _ := ⟨.of_scopes fun _ => ⟨rfl, rfl⟩, fun _ _ _ _ => trivial⟩
  size _ := ⟨fun st => P.refl st, fun _ _ _ _ => trivial⟩
  close _ _ := ⟨.of_scopes fun _ => ⟨rfl, rfl⟩, fun _ _ _ _ => Realm.boundless_val _ _⟩
  host hfn _ := ⟨keeps_callHost hfn _, fun _ _ _ _ => Realm.boundless_val _ _⟩

/-- Evaluation keeps to the relation. -/
theorem keeps_evalFully {m : Machine}
    (hm : ∀ name fn, m.hosts name = some fn -> ∀ args, P.Keeps (fn args)) (f : Frame) (e : Expr) :
    P.Keeps (evalFully m f e) := by
  intro st
  by_cases hends : WantsFuel (evalFully m f e st)
  · rw [evalFully, limit_wantsFuel hends]
    exact P.refl st
  · obtain ⟨n, hn⟩ := Steady.ends_of_limit hends
    rw [evalFully, hn]
    exact ((P.logic.alike_inner hm n).eval (w := ()) trivial fun _ _ =>
      (Realm.boundless_runs () f.scope _).1).1 st

/-- A call of a method keeps to the relation. -/
theorem keeps_callMethod {m : Machine}
    (hm : ∀ name fn, m.hosts name = some fn -> ∀ args, P.Keeps (fn args)) (n : Nat)
    (name : String) (args : List Value) : P.Keeps (callMethod m n name args) := by
  unfold callMethod
  split
  · exact ((P.logic.alike_inner hm n).invoke (w := ()) (Realm.boundless_vals () args)).1
  · exact keeps_throw _

end Passage

/-! ## Scopes -/

def growth : Passage where
  Rel := Grows
  refl := .refl
  trans h h' := h.trans h'
  define := .define
  push := .push
  of_scopes h _ := .of_scopes h
  counted h := h

/-! ## Calls under way -/

/-- As many calls are under way. -/
def balance : Passage where
  Rel st st' := st'.depth = st.depth
  refl _ := rfl
  trans h h' := h'.trans h
  define _ _ _ _ := rfl
  push _ _ := rfl
  of_scopes _ h := h
  counted h := by
    show _ - 1 = _
    rw [h]
    rfl

end EarlyExit.Eval
