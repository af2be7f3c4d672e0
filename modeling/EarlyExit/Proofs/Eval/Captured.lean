import EarlyExit.Proofs.Eval.Preserved

/-!
# Closures that share variables with an anchor

Whether a variable is left in place is decided by the assignments that the expression of the
anchor contains.  A closure that was made before and runs while the expression is evaluated may
assign the variable as well.  If no closure within reach does, every variable left in place is
read with the value that it has at its own turn, and hoisting preserves the anchor.
-/

namespace EarlyExit.Eval

open Node Expansion Run

/-! ## Operands evaluated before others -/

section Turns

variable {names : List String} {guarded watched : String -> Prop} {m : Machine} {f : Frame}
  {e d : Expr} {slot : Slot} {p : Path} {st st₁ st₂ : Store}

/-- The node makes no closure, mentions none of the names and writes no watched variable. -/
structure Spared (names : List String) (watched : String -> Prop) (n : Node) : Prop where
  plain : ∀ span ps body, n ≠ .expr (.lambda span ps body)
  used : ∀ x, usedName? n = some x -> x ∉ names
  written : ∀ x, writtenName? n = some x -> ¬watched x

/-- From the first store to the second the watched variables of a scope keep their values. -/
structure Rests (names : List String) (guarded watched : String -> Prop) (home : Nat)
    (st st₁ : Store) : Prop where
  quiet : Quiet names guarded home st₁
  get? : ∀ x, watched x -> guarded x -> x ∉ names -> st₁.get? home x = st.get? home x

theorem Rests.refl {home : Nat} (h : Quiet names guarded home st) :
    Rests names guarded watched home st st :=
  ⟨h, fun _ _ _ _ => rfl⟩

theorem Rests.trans {home : Nat} (h : Rests names guarded watched home st st₁)
    (h' : Rests names guarded watched home st₁ st₂) : Rests names guarded watched home st st₂ :=
  ⟨h'.quiet, fun x hx hg hn => (h'.get? x hx hg hn).trans (h.get? x hx hg hn)⟩

/-- Reading what a compound assignment changes leaves the store as it is. -/
theorem oldValue_store {span : Span} {x : String} {op : Operator} {v : Value}
    (h : oldValue f span x op st = .ok v st₁) : st₁ = st := by
  unfold oldValue at h
  split at h
  · cases hx : st.get? f.scope x with
    | none =>
        rw [lookup_none hx] at h
        cases h
    | some u =>
        rw [lookup_some hx] at h
        cases h
        rfl
  · cases h
    rfl

theorem element_store {a i : Value} {place : Nat × Nat} (h : element a i st = .ok place st₁) :
    st₁ = st := by
  unfold element at h
  split at h
  · split at h
    · rw [get_bind] at h
      split at h
      · cases h
        rfl
      · cases h
    · exact absurd h fail_text_ne_ok
  · cases h
  · exact absurd h fail_text_ne_ok

theorem oldElement_store {a i : Value} {op : Operator} {v : Value}
    (h : oldElement a i op st = .ok v st₁) : st₁ = st := by
  unfold oldElement at h
  split at h
  · obtain ⟨ending, st₂, hplace⟩ := exists_ended (element a i st)
    rw [bind_ended hplace] at h
    cases ending with
    | error stop => cases h
    | ok place =>
        obtain rfl := element_store hplace
        cases h
        rfl
  · cases h
    rfl

variable (hm : ∀ name fn, m.hosts name = some fn -> Confined fn)
include hm

theorem Quiet.rests (h : Quiet names guarded f.scope st) {v : Value}
    (hd : InExpr (Spared names watched) d) (heval : evalFully m f d st = .ok v st₁) :
    Rests names guarded watched f.scope st st₁ := by
  cases hfilled : d.isMissing with
  | true =>
      obtain rfl := Expr.eq_missing hfilled
      cases heval.symm.trans (evalFully_missing st)
  | false =>
      have hspared := (inExpr_iff hfilled).1 hd
      have hnames : ∀ x ∈ usedNames (.expr d), x ∉ names := fun x hx => by
        obtain ⟨n, hn, hname⟩ := List.mem_filterMap.1 hx
        exact (hspared n hn).used x hname
      have hended : evalFully m f d st = ended (.ok v) st₁ := heval
      have hdone := h.evaluated hm (fun n hn => (hspared n hn).plain) hnames hended nofun
      refine ⟨hdone.quiet, fun x hx hg hn => hdone.get? x hg hn fun hwritten => ?_⟩
      obtain ⟨n, hmem, hname⟩ := List.mem_filterMap.1 hwritten
      exact absurd hx ((hspared n hmem).written x hname)

theorem Quiet.rests_all (h : Quiet names guarded f.scope st) {es : List Expr} {vs : List Value}
    (hes : ∀ e ∈ es, InExpr (Spared names watched) e)
    (heval : (fully m).evalAll f es st = .ok vs st₁) :
    Rests names guarded watched f.scope st st₁ := by
  induction es generalizing st vs with
  | nil =>
      cases heval
      exact .refl h
  | cons e rest ih =>
      obtain ⟨ending, st₂, hfirst⟩ := exists_ended ((fully m).eval f e st)
      have heval : ((fully m).eval f e >>= fun v => (fully m).evalAll f rest >>= fun vs =>
        pure (v :: vs)) st = .ok vs st₁ := heval
      rw [bind_ended hfirst] at heval
      cases ending with
      | error stop => cases heval
      | ok v =>
          have hrests := h.rests hm (hes e (by simp)) hfirst
          have heval : ((fully m).evalAll f rest >>= fun vs => pure (v :: vs)) st₂ = .ok vs st₁ :=
            heval
          obtain ⟨ending, st₃, hothers⟩ := exists_ended ((fully m).evalAll f rest st₂)
          rw [bind_ended hothers] at heval
          cases ending with
          | error stop => cases heval
          | ok us =>
              cases heval
              exact hrests.trans (ih hrests.quiet (fun a ha => hes a (by simp [ha])) hothers)

theorem Quiet.rests_callee (h : Quiet names guarded f.scope st) {c : Callee}
    (hd : InExpr (Spared names watched) d) (heval : callee (fully m) f d st = .ok c st₁) :
    Rests names guarded watched f.scope st st₁ := by
  cases d with
  | missing | ident =>
      cases heval
      exact .refl h
  | _ =>
      obtain ⟨ending, st₂, hvalue⟩ := exists_ended ((fully m).eval f _ st)
      have heval := (bind_ended hvalue _).symm.trans heval
      cases ending with
      | error stop => cases heval
      | ok v =>
          cases heval
          exact h.rests hm hd hvalue

/-- What is evaluated before an operand leaves the watched variables as they are. -/
theorem Turn.rests (hturn : Turn m f e st slot d st₁) (h : Quiet names guarded f.scope st)
    (he : InExpr (Spared names watched) e) :
    Rests names guarded watched f.scope st st₁ ∧ InExpr (Spared names watched) d := by
  cases hturn with
  | receiver => exact ⟨.refl h, (everywhere_call.1 ((inExpr_iff rfl).1 he)).2.1⟩
  | arg hcallee harg hvalues =>
      obtain ⟨_, hreceiver, hargs⟩ := everywhere_call.1 ((inExpr_iff rfl).1 he)
      have hrests := h.rests_callee hm hreceiver hcallee
      refine ⟨hrests.trans (hrests.quiet.rests_all hm (fun a ha => ?_) hvalues), ?_⟩
      · exact hargs a (List.mem_of_mem_take ha)
      · exact hargs _ (List.mem_of_getElem? harg)
  | target => exact ⟨.refl h, (everywhere_field.1 ((inExpr_iff rfl).1 he)).2⟩
  | array => exact ⟨.refl h, (everywhere_index.1 ((inExpr_iff rfl).1 he)).2.1⟩
  | position harray =>
      obtain ⟨_, hfirst, hsecond⟩ := everywhere_index.1 ((inExpr_iff rfl).1 he)
      exact ⟨h.rests hm hfirst harray, hsecond⟩
  | dim _ hdim hvalues =>
      obtain ⟨_, hdims, _⟩ := everywhere_newArray.1 ((inExpr_iff rfl).1 he)
      exact ⟨h.rests_all hm (fun a ha => hdims a (List.mem_of_mem_take ha)) hvalues,
        hdims _ (List.mem_of_getElem? hdim)⟩
  | element _ helement hvalues =>
      obtain ⟨_, _, helements⟩ := everywhere_newArray.1 ((inExpr_iff rfl).1 he)
      exact ⟨h.rests_all hm (fun a ha => helements a (List.mem_of_mem_take ha)) hvalues,
        helements _ (List.mem_of_getElem? helement)⟩
  | part harg hvalues =>
      obtain ⟨_, hargs⟩ := everywhere_newObject.1 ((inExpr_iff rfl).1 he)
      exact ⟨h.rests_all hm (fun a ha => hargs a (List.mem_of_mem_take ha)) hvalues,
        hargs _ (List.mem_of_getElem? harg)⟩
  | operand => exact ⟨.refl h, (everywhere_unary.1 ((inExpr_iff rfl).1 he)).2⟩
  | left => exact ⟨.refl h, (everywhere_binary.1 ((inExpr_iff rfl).1 he)).2.1⟩
  | right _ hleft =>
      obtain ⟨_, hfirst, hsecond⟩ := everywhere_binary.1 ((inExpr_iff rfl).1 he)
      exact ⟨h.rests hm hfirst hleft, hsecond⟩
  | assigned hold =>
      obtain rfl := oldValue_store hold
      exact ⟨.refl h, (everywhere_assign.1 ((inExpr_iff rfl).1 he)).2.2⟩
  | amended harray hposition hold =>
      obtain rfl := oldElement_store hold
      obtain ⟨_, htarget, hvalue⟩ := everywhere_assign.1 ((inExpr_iff rfl).1 he)
      obtain ⟨_, hfirst, hsecond⟩ := everywhere_index.1 ((inExpr_iff rfl).1 htarget)
      have hrests := h.rests hm hfirst harray
      exact ⟨hrests.trans (hrests.quiet.rests hm hsecond hposition), hvalue⟩
  | selector => exact ⟨.refl h, (everywhere_switch.1 ((inExpr_iff rfl).1 he)).2.1⟩

theorem Comes.rests (hcomes : Comes m f e st p d st₁) (h : Quiet names guarded f.scope st)
    (he : InExpr (Spared names watched) e) :
    Rests names guarded watched f.scope st st₁ ∧ InExpr (Spared names watched) d := by
  induction hcomes with
  | here => exact ⟨.refl h, he⟩
  | there hturn _ ih =>
      obtain ⟨hrests, hd⟩ := hturn.rests hm h he
      obtain ⟨hrests', hd'⟩ := ih hrests.quiet hd
      exact ⟨hrests.trans hrests', hd'⟩

end Turns

/-! ## Anchors -/

/--
No closure that a scope leads to mentions a name that may be handed out, and none that shares a
scope with it writes what the expression leaves in place.
-/
structure Undisturbed (o : Options) (e : Expr) (ns : Names) (home : Nat) (st : Store) : Prop where
  sound : st.Sound home
  spared : ∀ id ps body outer, st.Reaches home (.closure id ps body outer) ->
    ∀ x ∈ bodySlot .body body, ns.Spares (usedNames x.2)
  steady : ∀ id ps body outer, st.Reaches home (.closure id ps body outer) ->
    (∃ t ∈ st.chain outer, t ∈ st.chain home) -> ∀ x ∈ bodySlot .body body,
    ∀ n ∈ x.2.nodes, ∀ y, InPlace o e y -> writtenName? n ≠ some y

/--
What the expression leaves in place is constant.  A variable that is only read has its first
value at all turns, and the target of a compound assignment keeps the value of its own turn
while the assigned value is evaluated.
-/
structure Constant (o : Options) (m : Machine) (f : Frame) (e : Expr) (st : Store) : Prop where
  read : ∀ p d st₁, Comes m f e st p d st₁ -> ∀ x, InPlace o e x -> x ∉ writtenNames e ->
    st₁.get? f.scope x = st.get? f.scope x
  amended : ∀ p s s' x t op value st₁ v st₂,
    Comes m f e st p (.assign s (.ident s' x t) op value) st₁ -> op.isCompound = true ->
    x ∉ writtenNames value -> evalFully m f value st₁ = .ok v st₂ ->
    st₂.get? f.scope x = st₁.get? f.scope x

section Anchors

variable {o : Options} {root : Node} {anchor : Path} {s : Stmt} {slot : Slot} {ts : List Task}
  {ns : Names} {m : Machine} {f : Frame} {marks : Marks} {e : Expr} {st : Store} {home : Nat}

theorem Undisturbed.quiet (h : Undisturbed o e ns home st) (count : Nat) :
    Quiet (ns.several count) (InPlace o e) home st where
  sound := h.sound
  closures id ps body outer hreach x hx n hn := by
    have hspares := h.spared id ps body outer hreach x hx
    have hvisible {y : String} (hy : y ∈ usedNames x.2) : (ns.several count).contains y = false := by
      simpa using fun hmem => hspares.several hmem hy
    refine ⟨fun y hy _ => hvisible (View.readName_mem hn hy), fun y hy =>
      ⟨fun _ => hvisible (View.writtenName_mem hn hy), fun hkin hplace => ?_⟩⟩
    exact h.steady id ps body outer hreach hkin x hx n hn y hplace hy

/-- A variable left in place is one that the expression mentions, or the class of a kind. -/
theorem InPlace.spares {x : String} (hx : InPlace o e x) (hspares : ns.Spares (usedNames (.expr e)))
    (hclasses : ∀ e k, o.registry.resolve e = some k -> ns.Spares [k.name]) (count : Nat) :
    x ∉ ns.several count := by
  intro hmem
  rcases hx with ⟨_, n, hn, hread⟩ | ⟨n, hn, hamended⟩ | ⟨d, k, hk, rfl⟩
  · exact hspares.several hmem (View.readName_mem hn hread)
  · refine hspares.several hmem (View.writtenName_mem hn ?_)
    unfold amendedName? at hamended
    split at hamended
    · exact (Option.ite_none_right_eq_some.1 hamended).2
    · cases hamended
  · exact (hclasses d k hk).several hmem (List.mem_singleton.2 rfl)

theorem Undisturbed.constant (h : Undisturbed o e ns f.scope st)
    (hm : ∀ name fn, m.hosts name = some fn -> Confined fn) (hplain : NoLambda (.expr e)) :
    Constant o m f e st := by
  have hquiet : Quiet [] (InPlace o e) f.scope st := h.quiet 0
  have hspared : InExpr (Spared [] fun x => x ∉ writtenNames e) e :=
    Everywhere.inExpr fun n hn => ⟨hplain n hn, fun _ _ => List.not_mem_nil, fun x hx hnot =>
      hnot (List.mem_filterMap.2 ⟨n, hn, hx⟩)⟩
  constructor
  · intro p d st₁ hcomes x hx hwritten
    exact (hcomes.rests hm hquiet hspared).1.get? x hwritten hx List.not_mem_nil
  · intro p s s' x t op value st₁ v st₂ hcomes hop hwritten heval
    obtain ⟨hrests, hassign⟩ := hcomes.rests hm hquiet hspared
    have hmem := mem_nodes.2 ⟨p, hcomes.at? rfl⟩
    have hplace : InPlace o e x := .inr (.inl ⟨_, hmem, by simp [amendedName?, hop, hwritten]⟩)
    have hvalue : InExpr (Spared [] fun y => y = x) value := fun n hn c hc => by
      obtain ⟨rfl, _⟩ := ofExpr?_eq_some.1 hn
      have hspared := (everywhere_assign.1 ((inExpr_iff rfl).1 hassign)).2.2 _ hn c hc
      refine ⟨hspared.plain, fun _ _ => List.not_mem_nil, ?_⟩
      rintro y hy rfl
      exact hwritten (List.mem_filterMap.2 ⟨c, hc, hy⟩)
    exact (hrests.quiet.rests hm hvalue heval).get? x rfl hplace List.not_mem_nil

/--
If no closure within reach writes what is left in place, that is read with the value of its own
turn, in the anchor and behind the statements in front of it, and hoisting preserves the anchor.
-/
theorem hoistAnchor_undisturbed (hat : root.at? anchor = some (.stmt s))
    (hslot : s.anchorSlot? = some slot) (hsome : ts ≠ [])
    (hts : ∀ t ∈ ts, t ∈ acceptedAt o root anchor) (exit : Exit)
    (hspares : ns.Spares (usedNames root))
    (h : Hoistable o m f s ((taskMarks anchor ts).under slot) ns st)
    (hundisturbed : Undisturbed o s.anchorExpr ns f.scope st) :
    Constant o m f s.anchorExpr st ∧
    ∃ hoisted count, hoistAnchor ns s exit (taskMarks anchor ts) = .ok hoisted ∧
      hoisted.names = ns.later count ∧
      ∀ n ending st₁, exec m n f s st = ended ending st₁ -> ending ≠ .error .outOfFuel ->
        (∀ err, ending ≠ .error (.failed err)) ->
        (∀ st₂, Finishes (fun n => (inner m n).execAll f hoisted.prologue) st (.ok .normal st₂) ->
          ∀ x, InPlace o s.anchorExpr x -> x ∉ writtenNames s.anchorExpr ->
            st₂.get? f.scope x = st.get? f.scope x) ∧
        ∃ ending' st₁',
          Finishes (fun n => (inner m n).execAll f hoisted.statements) st (ended ending' st₁') ∧
            Follows m f s exit ((taskMarks anchor ts).under slot) (ns.several count) st ending st₁
              ending' st₁' := by
  refine ⟨hundisturbed.constant h.native.hosts h.plain, ?_⟩
  obtain ⟨hoisted, count, hok, hnames, hruns⟩ := hoistAnchor_follows hat hslot hsome hts exit hspares
    h (fun _ hx => hx) hundisturbed.quiet
  refine ⟨hoisted, count, hok, hnames, fun n ending st₁ hexec hends hfailed => ?_⟩
  obtain ⟨hkeeps, hfollows⟩ := hruns n ending st₁ hexec hends hfailed
  refine ⟨fun st₂ hprologue x hx hwritten => hkeeps st₂ hprologue x hx hwritten ?_, hfollows⟩
  exact hx.spares (spares_anchorExpr hat hslot hspares) (fun e k hk => (h.classes e k hk).1) count

end Anchors

/-! ### A closure that runs in a receiver -/

/-- The assignment `flag = 5`. -/
def setFlag : Expr :=
  .assign .nowhere (.ident .nowhere "flag" "int") .assign (.literal .nowhere (.int 5) "int")

/-- A closure that assigns `flag` in the first scope. -/
def flagSetter : Value :=
  .closure 0 [] (.value setFlag) 0

/-- A store with one scope, in which `s` is a closure that assigns `flag`. -/
def setterStore : Store where
  scopes := #[{ bindings := [("flag", .bool true), ("x", .int 1), ("s", flagSetter)] }]
  closures := 1

/-- The statement `return x + f(s.apply()).unwrap();`. -/
def setterReturn : Stmt :=
  .ret .nowhere (.binary .nowhere (.ident .nowhere "x" "int") .add
    (.call .nowhere (.call .nowhere .missing "f"
      [.call .nowhere (.ident .nowhere "s" "") "apply" [] ""] "Either") "unwrap" [] "int"))

theorem binding?_setterStore {t : Nat} {x : String} {v : Value}
    (h : setterStore.binding? t x = some v) : v.isPlain = true ∨ v = flagSetter := by
  obtain ⟨sc, hsc, hlookup⟩ := Option.bind_eq_some_iff.1 h
  obtain ⟨hlt, rfl⟩ := Array.getElem?_eq_some_iff.1 hsc
  obtain rfl : t = 0 := Nat.lt_one_iff.1 hlt
  rw [show setterStore.scopes[0].bindings = [("flag", .bool true), ("x", .int 1), ("s", flagSetter)]
    from rfl, Scope.lookup_cons, Scope.lookup_cons, Scope.lookup_cons] at hlookup
  split at hlookup
  · cases hlookup
    exact .inl rfl
  · split at hlookup
    · cases hlookup
      exact .inl rfl
    · split at hlookup <;> cases hlookup
      exact .inr rfl

theorem reaches_setterStore {v : Value} (h : setterStore.Reaches 0 v) :
    v.isPlain = true ∨ v = flagSetter := by
  induction h with
  | bound _ hv | captured _ _ hv => exact binding?_setterStore hv
  | element _ _ ih | argument _ _ ih | held _ ih => rcases ih with ih | ih <;> cases ih

theorem undisturbed_setterStore :
    Undisturbed (hostOptions .either) setterReturn.anchorExpr
      (.ofTree "$unwrap" (flagTree setterReturn)) 0 setterStore where
  sound :=
    { here := Nat.one_pos
      array := fun r hr => by rcases reaches_setterStore hr with h | h <;> cases h
      closure := fun id ps body o ho => by
        rcases reaches_setterStore ho with h | h <;> cases h
        exact Nat.one_pos }
  spared id ps body outer hreach := by
    rcases reaches_setterStore hreach with h | h <;> cases h
    have hflag : ∀ x ∈ bodySlot .body (.value setFlag), ∀ y ∈ usedNames x.2,
        y ∈ usedNames (flagTree setterReturn) := by decide +kernel
    exact fun x hx y hy => .inl (hflag x hx y hy)
  steady id ps body outer hreach _ := by
    rcases reaches_setterStore hreach with h | h <;> cases h
    have hwritten : ∀ x ∈ bodySlot .body (.value setFlag), ∀ n ∈ x.2.nodes,
        (writtenName? n).all (· = "flag") = true := by decide +kernel
    intro x hx n hn y hplace hy
    obtain rfl : y = "flag" := by simpa [hy] using hwritten x hx n hn
    have hnodes : ∀ n ∈ (Node.expr setterReturn.anchorExpr).nodes,
        readName? n ≠ some "flag" ∧ amendedName? n ≠ some "flag" := by decide +kernel
    rcases hplace with ⟨_, n, hn, hread⟩ | ⟨n, hn, hamended⟩ | ⟨d, k, hk, hname⟩
    · exact (hnodes n hn).1 hread
    · exact (hnodes n hn).2 hamended
    · obtain rfl := resolve_hostRegistry hk
      exact absurd hname (by decide)

theorem hoistAnchor_undisturbed_setterReturn : ∃ hoisted st₁,
    hoistAnchor (.ofTree "$unwrap" (flagTree setterReturn)) setterReturn .ret
        (taskMarks flagPath (hostTasks .either setterReturn)) = .ok hoisted ∧
      Finishes (fun n => (inner (hostMachine .either false) n).execAll ⟨0⟩ hoisted.statements)
        setterStore (ended (.ok (.returned (.int 6))) st₁) := by
  have hreturns : returnsInt 6 (exec (hostMachine .either false) 9 ⟨0⟩ setterReturn
      setterStore) = true := by decide +kernel
  obtain ⟨st, hexec⟩ := returnsInt_ended hreturns
  have hat : (flagTree setterReturn).at? flagPath = some (.stmt setterReturn) := rfl
  have hslot : setterReturn.anchorSlot? = some .value := rfl
  have hsome : hostTasks .either setterReturn ≠ [] := by
    have hone : (hostTasks .either setterReturn).length = 1 := by decide +kernel
    intro hnil
    simp [hnil] at hone
  have hspares : (Names.ofTree "$unwrap" (flagTree setterReturn)).Spares
      (usedNames (flagTree setterReturn)) := fun x hx => .inl hx
  have hhoistable : Hoistable (hostOptions .either) (hostMachine .either false) ⟨0⟩ setterReturn
      ((taskMarks flagPath (hostTasks .either setterReturn)).under .value)
      (.ofTree "$unwrap" (flagTree setterReturn)) setterStore :=
    hoistable_host (p := [.right]) (by decide +kernel) (by decide +kernel) (by decide +kernel)
      (by decide +kernel) (by decide +kernel) (by decide +kernel) nofun
  obtain ⟨_, hoisted, count, hok, -, hruns⟩ := hoistAnchor_undisturbed hat hslot hsome
    (fun t ht => ht) .ret hspares hhoistable undisturbed_setterStore
  obtain ⟨_, ending', st₁, hfinishes, hfollows⟩ := hruns 9 _ st hexec nofun fun _ h => nomatch h
  refine ⟨hoisted, st₁, hok, ?_⟩
  cases hfollows
  exact hfinishes

end EarlyExit.Eval
