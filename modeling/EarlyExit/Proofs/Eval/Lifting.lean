import EarlyExit.Proofs.Eval.Comparison
import EarlyExit.Proofs.Eval.Reach
import EarlyExit.Proofs.Expansion.Fresh
import EarlyExit.Proofs.Expansion.Move

/-!
# Lifted conditionals

What a statement does with the value of a conditional does not change when the conditional
becomes an `if` statement, as long as the variable that is brought in is not seen by the
code in between.
-/

namespace EarlyExit.Eval

open Node Expansion Run

variable {m : Machine} {f : Frame} {c : Conditional} {st st' : Store} {x : String}

/-! ## Single statements -/

def choose (r : Inner) (f : Frame) (test : Expr) (onTrue onFalse : Run α) : Run α := do
  if ← r.test f test then onTrue else onFalse

theorem choose_bind (r : Inner) (f : Frame) (test : Expr) (x y : Run α) (g : α -> Run β) :
    choose r f test x y >>= g = choose r f test (x >>= g) (y >>= g) := by
  unfold choose
  rw [bind_assoc]
  refine congrArg _ (funext fun b => ?_)
  cases b <;> rfl

theorem same_choose {r : Inner} {test : Expr} {x x' y y' : Run α} {st : Store}
    (h : ∀ b st', r.test f test st = .ok b st' ->
      Same ((if b then x else y) st') ((if b then x' else y') st')) :
    Same (choose r f test x y st) (choose r f test x' y' st) :=
  Same.bind (.refl _) h

theorem agree_conditional (m : Machine) (f : Frame) (c : Conditional) :
    Agree (evalFully m f c.expr)
      (choose (fully m) f c.test (evalFully m f c.onTrue) (evalFully m f c.onFalse)) :=
  evalFully_step m f c.expr

theorem agree_branches (m : Machine) (f : Frame) (c : Conditional) {s t : Stmt}
    (ht : t.isMissing = false) :
    Agree (execFully m f (c.branches s t))
      (choose (fully m) f c.test (execFully m f s) (execFully m f t)) := by
  refine (execFully_step m f rfl).trans fun st => ?_
  refine Same.bind (.refl _) fun b st' _ => ?_
  cases b with
  | true => exact .refl _
  | false =>
      simp only [ht]
      exact .refl _

theorem agree_expr (m : Machine) (f : Frame) (s : Span) (e : Expr) :
    Agree (execFully m f (.expr s e)) (do
      let _ ← evalFully m f e
      return .normal) :=
  execFully_step m f rfl

/-- An anchor evaluates its expression and goes on with the value. -/
theorem agree_anchor (m : Machine) (f : Frame) {s : Stmt} (h : s.anchorSlot?.isSome = true) :
    Agree (execFully m f s) (anchorValue (fully m) f s >>= proceed (fully m) f s) := by
  rw [← execStep_anchor h m]
  refine execFully_step m f ?_
  cases s <;> simp [Stmt.anchorSlot?] at h <;> rfl

def store (f : Frame) (s : Span) (x : String) (op : Operator) (value : Run Value) :
    Run Completion := do
  let old ← oldValue f s x op
  let v ← combine op old (← value)
  rebind f s x v
  return .normal

theorem agree_assign (m : Machine) (f : Frame) (s s' s'' : Span) (x t : String) (op : Operator)
    (e : Expr) : Agree (execFully m f (.expr s (.assign s' (.ident s'' x t) op e)))
      (store f s'' x op (evalFully m f e)) := by
  refine (agree_expr m f s _).trans ?_
  have hstep := (evalFully_step m f (.assign s' (.ident s'' x t) op e)).bind
    (g := fun _ => (pure .normal : Run Completion)) fun _ => .refl _
  refine hstep.trans fun st => .inl ?_
  show ((assign (fully m) f s' (.ident s'' x t) op e) >>= _) st = _
  rw [assign_ident]
  simp only [bind_assoc, putVariable, pure_bind, store]
  rfl

theorem oldValue_simple (f : Frame) (s : Span) (x : String) (st : Store) :
    oldValue f s x .assign st = .ok .null st :=
  rfl

/--
The old value of the variable is read before the test, or after it in the branch that is
taken.  This makes no difference if the test leaves it as it is.
-/
theorem same_assigning {s s' s'' : Span} {x t : String} {op : Operator} {st : Store}
    {old : Value} (hold : oldValue f s'' x op st = .ok old st)
    (htest : ∀ b st', (fully m).test f c.test st = .ok b st' ->
      oldValue f s'' x op st' = .ok old st') :
    Same (execFully m f (.expr s (.assign s' (.ident s'' x t) op c.expr)) st)
      (execFully m f (c.assigning (.ident s'' x t) op) st) := by
  refine (agree_assign m f s s' s'' x t op c.expr st).trans ?_
  refine .trans ?_ (agree_branches m f c rfl st).symm
  -- the rest of an assignment whose old value is known
  let rest (value : Run Value) : Run Completion := do
    let v ← combine op old (← value)
    rebind f s'' x v
    return .normal
  have hstore {st : Store} (h : oldValue f s'' x op st = .ok old st) (value : Run Value) :
      store f s'' x op value st = rest value st :=
    bind_ended (show oldValue f s'' x op st = ended (.ok old) st from h) _
  rw [hstore hold]
  have hchoose : Same (rest (evalFully m f c.expr) st)
      (choose (fully m) f c.test (rest (evalFully m f c.onTrue))
        (rest (evalFully m f c.onFalse)) st) := by
    rw [← choose_bind]
    exact (agree_conditional m f c st).bind fun _ _ _ => .refl _
  refine hchoose.trans (same_choose fun b st' hb => ?_)
  have hstore' := hstore (htest b st' hb)
  cases b with
  | true =>
      refine .trans (.inl ?_) (agree_assign m f _ _ s'' x t op c.onTrue st').symm
      exact (hstore' _).symm
  | false =>
      refine .trans (.inl ?_) (agree_assign m f _ _ s'' x t op c.onFalse st').symm
      exact (hstore' _).symm

/-! ## Compound assignments -/

theorem truth_store {v : Value} {b : Bool} {st st' : Store} (h : truth v st = .ok b st') :
    st' = st := by
  cases v with
  | bool =>
      cases h
      rfl
  | _ => exact absurd h fail_text_ne_ok

/-- A test that gives an answer has been evaluated. -/
theorem eval_of_test {e : Expr} {b : Bool} {st st' : Store}
    (h : (fully m).test f e st = .ok b st') : ∃ n v, eval m n f e st = .ok v st' := by
  obtain ⟨ending, st₁, heval⟩ := exists_ended (evalFully m f e st)
  have htruth := h.symm.trans (bind_ended heval truth)
  cases ending with
  | error => cases htruth
  | ok v =>
      obtain rfl := truth_store htruth.symm
      have hends : ¬WantsFuel (ended (.ok v) st') := not_wantsFuel_ended (by simp)
      obtain ⟨n, hn, _⟩ := finishes_eval.2 ⟨heval, hends⟩
      exact ⟨n, v, hn⟩

/--
Lifting a conditional out of an assignment keeps the order of evaluation if the test leaves
the variable that is assigned as it is.
-/
theorem lift_assignment {s s' s'' : Span} {x t : String} {op : Operator} {ns : Names}
    {st : Store} {old : Value} (hx : st.get? f.scope x = some old)
    (htest : ∀ n v st', eval m n f c.test st = .ok v st' -> st'.get? f.scope x = some old) :
    ∃ new, lift ns (.expr s (.assign s' (.ident s'' x t) op c.expr)) c = .ok (new, ns) ∧
      ∀ result, Finishes (fun n => exec m n f (.expr s (.assign s' (.ident s'' x t) op c.expr)))
          st result ↔ Finishes (fun n => (inner m n).execAll f new) st result := by
  refine ⟨[c.assigning (.ident s'' x t) op], rfl, ?_⟩
  have hold {st : Store} (h : st.get? f.scope x = some old) :
      oldValue f s'' x op st = .ok (if op.isCompound then old else .null) st := by
    unfold oldValue
    cases op.isCompound with
    | false => rfl
    | true => exact lookup_some h s''
  refine finishes_congr (fun _ => finishes_exec) (fun _ => finishes_execAll) ?_
  rw [execAll_single]
  refine same_assigning (hold hx) fun b st' hb => hold ?_
  obtain ⟨n, v, hn⟩ := eval_of_test hb
  exact htest n v st' hn

/-- A store with one scope in which `flag` is true. -/
def flagStore : Store where
  scopes := #[{ bindings := [("flag", .bool true), ("x", .int 1)] }]

theorem flagStore_plain (t : Nat) (x : String) (v : Value)
    (h : flagStore.binding? t x = some v) : v.isPlain = true := by
  obtain ⟨sc, hsc, hlookup⟩ := Option.bind_eq_some_iff.1 h
  obtain ⟨hlt, rfl⟩ := Array.getElem?_eq_some_iff.1 hsc
  obtain rfl : t = 0 := Nat.lt_one_iff.1 hlt
  rw [show flagStore.scopes[0].bindings = [("flag", .bool true), ("x", .int 1)] from rfl,
    Scope.lookup_cons, Scope.lookup_cons] at hlookup
  split at hlookup
  · cases hlookup
    rfl
  · split at hlookup <;> cases hlookup
    rfl

/-- The conditional `flag ? f(1).unwrap() : 2`, with a receiver for the call of `f`. -/
def flagConditional (receiver : Expr) : Conditional where
  span := .nowhere
  test := .ident .nowhere "flag" "boolean"
  onTrue := .call .nowhere (.call .nowhere receiver "f" [.literal .nowhere (.int 1) "int"]
    "Either<String, Integer>") "unwrap" [] "Integer"
  onFalse := .literal .nowhere (.int 2) "int"
  type := "Integer"

def flagDeclared (x : String) (receiver : Expr) : Stmt :=
  .var .nowhere x "Integer" (flagConditional receiver).expr

/-- A unit with a method that is one statement. -/
def flagTree (s : Stmt) : Node :=
  .unit {
    file := "Flag.java"
    methods := [{
      name := "m"
      params := [{ name := "flag", type := "boolean" }]
      returns := "Either<String, Integer>"
      body := some (.mk .nowhere [s]) }] }

def flagPath : Path :=
  [.method 0, .body, .stmt 0]

/-- A machine whose function `f`, also of the class `Host`, gives its argument as a success. -/
def flagMachine : Machine where
  unit := default
  hosts name :=
    if name = "f" || name = "Host.f" then
      some fun args => pure (.success .either (args.headD .null))
    else none
  native := true

theorem confined_flagMachine (name : String) (fn : HostFunction)
    (h : flagMachine.hosts name = some fn) : Confined fn := by
  simp only [flagMachine, Option.ite_none_right_eq_some, Option.some.injEq] at h
  obtain ⟨_, rfl⟩ := h
  exact confined_pure fun _ _ _ => madeOf_headD

theorem find?_self {s : Nat} {v : Value} (h : st.binding? s x = some v) :
    st.find? s x = some (s, v) := by
  obtain ⟨sc, hsc, hlookup⟩ := Option.bind_eq_some_iff.1 h
  rw [Store.find?, hsc]
  simp only [hlookup]

/-- Evaluating a variable changes nothing. -/
theorem eval_ident_store {n : Nat} {s : Span} {t : String} {v : Value}
    (h : eval m n f (.ident s x t) st = .ok v st') : st' = st := by
  cases n with
  | zero =>
      rw [eval] at h
      cases h
  | succ n =>
      rw [eval_succ] at h
      have h : lookup f s x st = .ok v st' := h
      cases hfound : st.get? f.scope x with
      | none =>
          rw [lookup_none hfound] at h
          cases h
      | some u =>
          rw [lookup_some hfound] at h
          cases h
          rfl

/-- The statement `x += flag ? f(1).unwrap() : 2;`. -/
def flagAdded : Stmt :=
  .expr .nowhere (.assign .nowhere (.ident .nowhere "x" "int") .addAssign
    (flagConditional .missing).expr)

theorem lift_assignment_flagAdded : ∃ new,
    lift (.ofTree "$unwrap" (flagTree flagAdded)) flagAdded (flagConditional .missing) =
      .ok (new, .ofTree "$unwrap" (flagTree flagAdded)) ∧
    ∀ result, Finishes (fun n => exec flagMachine n ⟨0⟩ flagAdded) flagStore result ↔
      Finishes (fun n => (inner flagMachine n).execAll ⟨0⟩ new) flagStore result := by
  have hx : flagStore.get? 0 "x" = some (.int 1) := by
    rw [Store.get?, find?_self (show flagStore.binding? 0 "x" = some (.int 1) from rfl)]
    rfl
  refine lift_assignment (f := ⟨0⟩) hx fun n v st' heval => ?_
  rw [eval_ident_store heval]
  exact hx

/-! ## Conditionals that are reported -/

/-- What has to be done for an accepted site. -/
def place? : Verdict -> Option Place
  | .accepted ctx => some ctx.place
  | _ => none

/-- A site has to have a conditional lifted out of a statement first. -/
def ReportsLift (o : Options) (root : Node) (anchor p : Path) : Prop :=
  ∃ x ∈ sites o root, place? (place root x.path x.span).verdict = some (.lifted anchor p)

instance (o : Options) (root : Node) (anchor p : Path) : Decidable (ReportsLift o root anchor p) :=
  inferInstanceAs (Decidable (∃ x ∈ sites o root, _ = _))

theorem lifts_of_reports {o : Options} {root : Node} {anchor p : Path} {s : Stmt}
    (h : ReportsLift o root anchor p) (hs : root.at? anchor = some (.stmt s))
    (hc : (root.at? p).bind Conditional.ofNode? = some c) :
    Lifts c s ∧ (s.needsTypedTemp = true -> c.valueType.isEmpty = false) := by
  obtain ⟨x, hx, hplaced⟩ := h
  obtain ⟨ctx, hverdict, hplace⟩ : ∃ ctx, (place root x.path x.span).verdict = .accepted ctx ∧
      ctx.place = .lifted anchor p := by
    unfold place? at hplaced
    split at hplaced
    next ctx hctx => exact ⟨ctx, hctx, Option.some.inj hplaced⟩
    next => cases hplaced
  obtain ⟨d, hd, _, _⟩ := mem_sites.1 hx
  obtain ⟨low, conds, tail, hup, _, _, hends, _⟩ := climb_accepted hverdict
  rw [hplace] at hends
  generalize hlast : conds.getLast? = top at hends
  cases hends with
  | @lifted top a s' rest hnode hlifts =>
      obtain ⟨inner, rfl⟩ := List.getLast?_eq_some_iff.1 hlast
      have hup' : root.spine x.path = (low ++ inner) ++ top :: a :: rest := by simp [hup]
      obtain ⟨htop, hat, hget, _⟩ := spine_below hd hup'
      rw [hnode] at hat hget
      cases hat.symm.trans hs
      rw [htop, Option.bind_some] at hc
      rw [ofNode?_eq_some hc] at hget hlifts
      simp only [liftsFrom, Conditional.expr, Bool.and_eq_true, decide_eq_true_eq] at hlifts
      refine ⟨.whole (by simp [hlifts.1]) (anchorExpr_of_get hlifts.1 hget), fun htyped => ?_⟩
      simpa [htyped, Conditional.valueType] using hlifts.2
  | @assigned top b a s₁ s₂ s₃ y type op v e rest hassign hvalue hnode hslot =>
      obtain ⟨inner, rfl⟩ := List.getLast?_eq_some_iff.1 hlast
      have hup' : root.spine x.path = (low ++ inner) ++ top :: b :: a :: rest := by simp [hup]
      have hup'' : root.spine x.path = (low ++ (inner ++ [top])) ++ b :: a :: rest := by
        simp [hup]
      obtain ⟨htop, _, hgetTop, _⟩ := spine_below hd hup'
      obtain ⟨_, hat, hgetAssign, _⟩ := spine_below hd hup''
      rw [hassign, hvalue] at hgetTop
      rw [hnode, hslot, hassign] at hgetAssign
      rw [hnode] at hat
      cases hat.symm.trans hs
      cases (anchorExpr_of_get (s := .expr s₃ e) rfl hgetAssign : e = _)
      rw [htop, Option.bind_some] at hc
      have hv : v = c.expr := by
        rw [ofNode?_eq_some hc, get?_value, Node.ofExpr?_eq_some] at hgetTop
        simpa using hgetTop.1.symm
      subst hv
      exact ⟨.assigned .., fun h => by cases h⟩

theorem lift_of_lifts (ns : Names) {s : Stmt} (hlifts : Lifts c s)
    (htyped : s.needsTypedTemp = true -> c.valueType.isEmpty = false) :
    ∃ new ns', lift ns s c = .ok (new, ns') ∧ Lifted c ns s new ns' := by
  have hok : ∃ result, lift ns s c = .ok result := by
    cases hlifts with
    | assigned => exact ⟨_, rfl⟩
    | whole hslot hexpr =>
        cases s with
        | ret | throw | yield => exact ⟨_, rfl⟩
        | expr s e =>
            cases (hexpr : e = c.expr)
            exact ⟨_, rfl⟩
        | var s x type value =>
            cases htype : type.isEmpty with
            | false => exact ⟨_, by simp only [lift, htype, Bool.false_eq_true, if_false]; rfl⟩
            | true =>
                have hvalue := htyped htype
                exact ⟨_, by
                  simp only [lift, htype, if_true, hvalue, Bool.false_eq_true, if_false]
                  rfl⟩
        | branch | switch | sync | forEach =>
            have hvalue := htyped rfl
            exact ⟨_, by simp only [lift, hvalue, Bool.false_eq_true, if_false]; rfl⟩
        | _ => simp [Stmt.anchorSlot?] at hslot
  obtain ⟨⟨new, ns'⟩, hlift⟩ := hok
  exact ⟨new, ns', hlift, lift_ok hlifts hlift⟩

/-! ## A variable brought in -/

/-- The view of a scope in which one name is not looked at. -/
def besides (st : Store) (home : Nat) (x : String) (v : Value) : View where
  home := home
  hidden := (· == x)
  held := fun _ => some v
  around := st.chain home

/-- No closure that is reached from a scope and was made inside it mentions the name. -/
def Unmentioned (st : Store) (s : Nat) (x : String) : Prop :=
  ∀ id ps body o, st.Reaches s (.closure id ps body o) -> s ∈ st.chain o ->
    x ∉ usedNames (.expr (.lambda .nowhere ps body))

theorem sees_introduced (hsound : st.Sound f.scope) (hun : Unmentioned st f.scope x) (v : Value) :
    (besides st f.scope x v).Sees (st.known f.scope) st (st.define f.scope x v) := by
  have hlt : f.scope < st.scopes.size := hsound.here
  refine View.sees_known hsound (fun id ps body o hreach n hn => ?_) rfl (fun _ h => h.elim)
    (Store.hide_define_hidden (by simp [besides]) v st) (fun y hy => ?_)
  · intro d hd
    have hother {y : String} (hy : y ∈ usedNames (.expr (.lambda .nowhere ps body)))
        (hhome : f.scope ∈ st.chain o) : (besides st f.scope x v).hidden y = false := by
      show (y == x) = false
      rw [beq_eq_false_iff_ne]
      rintro rfl
      exact hun id ps body o hreach hhome hy
    have hd' : d ∈ (Node.expr (.lambda .nowhere ps body)).nodes := by
      rw [nodes_eq]
      exact List.mem_cons_of_mem _ (List.mem_flatMap.2 ⟨n, List.mem_append_right _ hn, hd⟩)
    exact ⟨fun y hy => hother (View.readName_mem hd' hy),
      fun y hy => ⟨hother (View.writtenName_mem hd' hy), fun _ h => h⟩⟩
  · obtain rfl : y = x := by simpa [besides] using hy
    show (st.define f.scope y v).binding? f.scope y = some v
    rw [Store.binding?_define]
    simp [hlt]

/-- Code that does not mention the name runs in this view. -/
theorem runs_besides {w : Known} {s : Nat} {n : Node} {v : Value} (h : x ∉ usedNames n) :
    Everywhere ((besides st f.scope x v).realm.Runs w s) n := by
  refine View.runs_unguarded (fun _ h => h) fun y hy => ?_
  show (y == x) = false
  rw [beq_eq_false_iff_ne]
  rintro rfl
  exact h hy

/-- A variable is declared without a value and takes that of the conditional. -/
theorem execAll_introduced (s s' : Span) (t : String) (rest : List Stmt)
    {ending : Except Stop Value}
    (heval : evalFully m f c.expr (st.define f.scope x .null) = ended ending st')
    (hbound : (st'.binding? f.scope x).isSome = true) :
    Same ((fully m).execAll f
        (.var s x t .missing :: c.assigning (.ident s' x t) .assign :: rest) st)
      (resume (fun v _ => (fully m).execAll f rest (st'.define f.scope x v)) ending st') := by
  have hassign : Agree (execFully m f (c.assigning (.ident s' x t) .assign))
      (store f s' x .assign (evalFully m f c.expr)) := fun st =>
    .trans (.symm (same_assigning (oldValue_simple f s' x st) fun _ st' _ =>
      oldValue_simple f s' x st')) (agree_assign m f s s s' x t .assign c.expr st)
  have hstore : store f s' x .assign (evalFully m f c.expr) (st.define f.scope x .null) =
      resume (fun v => rebind f s' x v >>= fun _ => pure .normal) ending st' := bind_ended heval _
  have hdeclare : Same (execFully m f (.var s x t .missing) st)
      (ended (.ok .normal) (st.define f.scope x .null)) :=
    agree_anchor m f (s := .var s x t .missing) rfl st
  rw [same_execAll_normal hdeclare]
  have hassigned := hassign (st.define f.scope x .null)
  rw [hstore] at hassigned
  cases ending with
  | error stop => exact same_execAll_stopped hassigned
  | ok v =>
      obtain ⟨u, hu⟩ := Option.isSome_iff_exists.1 hbound
      have hrebind : rebind f s' x v st' = ended (.ok ()) (st'.define f.scope x v) :=
        rebind_some (find?_self hu) s' v
      have hnormal :
          resume (fun v => rebind f s' x v >>= fun _ => pure Completion.normal) (.ok v) st' =
          ended (.ok .normal) (st'.define f.scope x v) := bind_ended hrebind _
      rw [hnormal] at hassigned
      rw [same_execAll_normal hassigned]
      exact .refl _

/-- The conditional is evaluated alike with the variable and without. -/
theorem eval_introduced (hm : ∀ name fn, m.hosts name = some fn -> Confined fn)
    (hsound : st.Sound f.scope) (hun : Unmentioned st f.scope x)
    (hx : x ∉ usedNames (.expr c.expr)) {k : Nat} {ending : Except Stop Value} {st₁ : Store}
    (heval : (inner m k).eval f c.expr st = ended ending st₁) (hends : ending ≠ .error .outOfFuel) :
    ∃ st₁' w, evalFully m f c.expr (st.define f.scope x .null) = ended ending st₁' ∧
      (besides st f.scope x .null).Sees w st₁ st₁' ∧
      (besides st f.scope x .null).realm.Later (st.known f.scope) w ∧
      (besides st f.scope x .null).realm.Ends (besides st f.scope x .null).realm.Val w ending := by
  have hcode : (besides st f.scope x .null).realm.Code (st.known f.scope) f.scope c.expr :=
    (runs_besides hx).imp fun _ hn => hn.1
  rcases ((besides st f.scope x .null).alike hm k).eval (View.home_known hsound) hcode st
    (st.define f.scope x .null) (sees_introduced hsound hun .null) with hwants | hrun
  · have hwants : WantsFuel ((inner m k).eval f c.expr st) := hwants
    rw [heval] at hwants
    exact absurd hwants (not_wantsFuel_ended hends)
  · obtain ⟨ending', st₂, st₂', w, hleft, hright, _, hlater, hsees, hval⟩ := hrun
    obtain ⟨rfl, rfl⟩ := ended_inj (heval.symm.trans hleft)
    exact ⟨st₂', w, hright, hsees, hlater, hval⟩

/--
A statement whose conditional is evaluated into a variable in front of what is left of it.
What is left has to do with the variable what the statement does with the value.
-/
theorem lift_introduced (names : Except Stop Completion -> String -> Prop)
    (hm : ∀ name fn, m.hosts name = some fn -> Confined fn)
    (hsound : st.Sound f.scope) (hun : Unmentioned st f.scope x)
    (hx : x ∉ usedNames (.expr c.expr)) {s : Stmt} {s' s'' : Span} {t : String}
    {rest : List Stmt} (hslot : s.anchorSlot?.isSome = true)
    (hvalue : ∀ r, anchorValue r f s = r.eval f c.expr)
    (hnames : ∀ stop, names (.error stop) x)
    (hrest : ∀ {k v w st₂ st₂' ending st₁}, (besides st f.scope x .null).realm.Here w f.scope ->
      (besides st f.scope x .null).Sees w st₂ st₂' ->
      (besides st f.scope x .null).realm.Val w v ->
      proceed (inner m k) f s v st₂ = ended ending st₁ -> ending ≠ .error .outOfFuel ->
      ∃ st₁', Same ((fully m).execAll f rest (st₂'.define f.scope x v)) (ended ending st₁') ∧
        st₁.SameBut f.scope (names ending) st₁')
    {n : Nat} {ending : Except Stop Completion} {st₁ : Store}
    (hexec : exec m n f s st = ended ending st₁) (hends : ending ≠ .error .outOfFuel) :
    ∃ st₁', Same ((fully m).execAll f
        (.var s' x t .missing :: c.assigning (.ident s'' x t) .assign :: rest) st)
        (ended ending st₁') ∧ st₁.SameBut f.scope (names ending) st₁' := by
  cases n with
  | zero =>
      have hfuel : ended ending st₁ = ended (.error .outOfFuel) st := by
        rw [← hexec, exec]
        rfl
      exact absurd (ended_inj hfuel).1 hends
  | succ k =>
      rw [exec_succ, execStep_anchor hslot, hvalue] at hexec
      rcases wantsFuel_or_ended ((inner m k).eval f c.expr st) with
        ⟨st₂, heval⟩ | ⟨e, st₂, he, heval⟩
      · have hstop : (inner m k).eval f c.expr st = ended (.error .outOfFuel) st₂ := heval
        rw [bind_ended hstop] at hexec
        have hsame : ended (.error .outOfFuel) st₂ = ended ending st₁ := hexec
        exact absurd (ended_inj hsame).1.symm hends
      · rw [bind_ended heval] at hexec
        obtain ⟨st₂', w, hright, hsees, hlater, hval⟩ := eval_introduced hm hsound hun hx heval he
        have hheld : st₂'.binding? f.scope x = some .null := hsees.held x (by simp [besides])
        have hall := execAll_introduced s' s'' t rest hright (by rw [hheld]; rfl)
        cases e with
        | ok v =>
            obtain ⟨st₁', hsame, hbut⟩ := hrest
              ((besides st f.scope x .null).realm.here_later hlater (View.home_known hsound))
              hsees hval hexec hends
            exact ⟨st₁', hall.trans hsame, hbut⟩
        | error stop =>
            have hsame : ended (.error stop) st₂ = ended ending st₁ := hexec
            obtain ⟨rfl, rfl⟩ := ended_inj hsame
            refine ⟨st₂', hall, (Store.sameBut_of_hide hsees.alike).imp fun y hy => ?_⟩
            obtain rfl : y = x := by simpa [besides] using hy
            exact hnames stop

theorem lift_declared (hm : ∀ name fn, m.hosts name = some fn -> Confined fn)
    (hsound : st.Sound f.scope) (hun : Unmentioned st f.scope x)
    (hx : x ∉ usedNames (.expr c.expr)) {s s' s'' : Span} {t t' : String} {n : Nat}
    {ending : Except Stop Completion} {st₁ : Store}
    (hexec : exec m n f (.var s x t c.expr) st = ended ending st₁)
    (hends : ending ≠ .error .outOfFuel) :
    ∃ st₁', Same ((fully m).execAll f
        [.var s' x t' .missing, c.assigning (.ident s'' x t') .assign] st) (ended ending st₁') ∧
      st₁.SameBut f.scope (fun y => y = x ∧ ending ≠ .ok .normal) st₁' := by
  refine lift_introduced (fun ending y => y = x ∧ ending ≠ .ok .normal) hm hsound hun hx
    rfl (fun _ => rfl) (fun _ => ⟨rfl, by simp⟩) ?_ hexec hends
  intro k v w st₂ st₂' ending st₁ _ hsees _ hproceed _
  have hsame : ended (.ok .normal) (st₂.define f.scope x v) = ended ending st₁ := hproceed
  obtain ⟨rfl, rfl⟩ := ended_inj hsame
  refine ⟨st₂'.define f.scope x v, .inl rfl, ?_⟩
  have hhidden : (besides st f.scope x .null).hidden x = true := by simp [besides]
  have hhide : (st₂'.define f.scope x v).hide f.scope (besides st f.scope x .null).hidden =
      (st₂.define f.scope x v).hide f.scope (besides st f.scope x .null).hidden := by
    rw [Store.hide_define_hidden hhidden, Store.hide_define_hidden hhidden]
    exact hsees.alike
  refine (Store.sameBut_of_hide hhide).strip fun y hy _ => ?_
  obtain rfl : y = x := by simpa [besides] using hy
  have hlt : f.scope < st₂.scopes.size := hsees.home
  have hlt' : f.scope < st₂'.scopes.size := by
    rw [hsees.size]
    exact hlt
  rw [Store.binding?_define, Store.binding?_define, if_pos ⟨rfl, rfl, hlt'⟩, if_pos ⟨rfl, rfl, hlt⟩]

theorem proceed_withAnchorExpr {s : Stmt} (r : Inner) (f : Frame) (e : Expr) (v : Value) :
    proceed r f (s.withAnchorExpr e) v = proceed r f s v := by
  cases s <;> rfl

theorem usedNames_anchorExpr {s : Stmt} (hslot : s.anchorSlot?.isSome = true)
    (hfilled : s.anchorExpr.isMissing = false) (hx : x ∈ usedNames (.expr s.anchorExpr)) :
    x ∈ usedNames (.stmt s) := by
  obtain ⟨slot, hslot⟩ := Option.isSome_iff_exists.1 hslot
  obtain ⟨d, hd, hname⟩ := List.mem_filterMap.1 hx
  obtain ⟨p, hp⟩ := mem_nodes.1 hd
  refine List.mem_filterMap.2 ⟨d, mem_nodes.2 ⟨slot :: p, ?_⟩, hname⟩
  refine at?_cons_eq_some.2 ⟨.expr s.anchorExpr, ?_, hp⟩
  rw [get?_anchor hslot, ofExpr?_of_filled hfilled]

theorem lift_stored (hm : ∀ name fn, m.hosts name = some fn -> Confined fn)
    (hsound : st.Sound f.scope) (hun : Unmentioned st f.scope x) {s : Stmt}
    (hheaded : isHeaded s = true) (hexpr : s.anchorExpr = c.expr) (hx : x ∉ usedNames (.stmt s))
    {s' s'' s₃ : Span} {t : String} {n : Nat} {ending : Except Stop Completion} {st₁ : Store}
    (hexec : exec m n f s st = ended ending st₁) (hends : ending ≠ .error .outOfFuel) :
    ∃ st₁', Same ((fully m).execAll f [.var s' x t .missing,
        c.assigning (.ident s'' x t) .assign, s.withAnchorExpr (.ident s₃ x t)] st)
        (ended ending st₁') ∧ st₁.SameBut f.scope (· = x) st₁' := by
  have hslot := anchorSlot?_of_isHeaded hheaded
  have hused : x ∉ usedNames (.expr c.expr) := by
    rw [← hexpr]
    exact fun h => hx (usedNames_anchorExpr hslot (by rw [hexpr]; rfl) h)
  refine lift_introduced (fun _ y => y = x) hm hsound hun hused hslot (fun r => ?_)
    (fun _ => rfl) ?_ hexec hends
  · rw [← hexpr]
    cases s <;> simp [isHeaded] at hheaded <;> rfl
  · intro k v w st₂ st₂' ending st₁ hhere hsees hval hproceed hends
    have hhidden : (besides st f.scope x .null).hidden x = true := by simp [besides]
    have hscript : (besides st f.scope x .null).realm.Script w f.scope s := runs_besides hx
    have hheld := hsees.hold hhidden v
    -- the rest of the statement runs alike, whatever the variable is bound to
    rcases (((besides st f.scope x .null).holding x v).alike hm k).proceed hhere hscript hval _ _
      hheld with hwants | hrun
    · have hwants : WantsFuel (proceed (inner m k) f s v st₂) := hwants
      rw [hproceed] at hwants
      exact absurd hwants (not_wantsFuel_ended hends)
    · obtain ⟨ending', st₄, st₄', w', hleft, hright, _, _, hsees', _⟩ := hrun
      obtain ⟨rfl, rfl⟩ := ended_inj (hproceed.symm.trans hleft)
      refine ⟨st₄', ?_, (Store.sameBut_of_hide hsees'.alike).imp fun y hy => ?_⟩
      · have hself : (st₂'.define f.scope x v).binding? f.scope x = some v := by
          rw [Store.binding?_define, if_pos]
          exact ⟨rfl, rfl, by rw [hsees.size]; exact hsees.home⟩
        have hlookup : lookup f s₃ x (st₂'.define f.scope x v) =
            ended (.ok v) (st₂'.define f.scope x v) :=
          lookup_some (by rw [Store.get?, find?_self hself]; rfl) s₃
        have hslot' : (s.withAnchorExpr (.ident s₃ x t)).anchorSlot?.isSome = true := by
          cases s <;> simp [isHeaded] at hheaded <;> rfl
        have hvalue : anchorValue (fully m) f (s.withAnchorExpr (.ident s₃ x t)) =
            evalFully m f (.ident s₃ x t) := by
          cases s <;> simp [isHeaded] at hheaded <;> rfl
        rw [execAll_single]
        refine (agree_anchor m f hslot' _).trans ?_
        rw [hvalue]
        refine ((evalFully_step m f (.ident s₃ x t) _).bind fun _ _ _ => .refl _).trans (.inl ?_)
        show (lookup f s₃ x >>= _) _ = _
        rw [bind_ended hlookup]
        show proceed (fully m) f (s.withAnchorExpr _) v _ = _
        rw [proceed_withAnchorExpr]
        exact hright
      · simpa [besides, View.holding] using hy

/-! ## Exits and plain expressions -/

/-- Results that are the same, unless the first is a failure of the program. -/
def SameOrFailed (a b : EStateM.Result Stop Store α) : Prop :=
  Same a b ∨ ∃ e st, a = .error (.failed e) st

theorem sameOrFailed_choose (r : Inner) (test : Expr) {z z' y y' : Run α} (st : Store)
    (hz : ∀ st, SameOrFailed (z st) (z' st)) (hy : ∀ st, SameOrFailed (y st) (y' st)) :
    SameOrFailed (choose r f test z y st) (choose r f test z' y' st) := by
  obtain ⟨ending, st', htest⟩ := exists_ended (r.test f test st)
  have hleft : choose r f test z y st = _ := bind_ended htest _
  have hright : choose r f test z' y' st = _ := bind_ended htest _
  rw [hleft, hright]
  cases ending with
  | error => exact .inl (.refl _)
  | ok b =>
      cases b with
      | true => exact hz st'
      | false => exact hy st'

/-- A statement that only leaves, with one of the values of a conditional. -/
theorem sameOrFailed_leaves {s : Stmt} (hleaves : leaves s = true)
    (hthrow : ∀ span e, s ≠ .throw span e) (e : Expr) (st : Store) :
    SameOrFailed ((evalFully m f e >>= proceed (fully m) f s) st)
      (execFully m f (s.withAnchorExpr e).explicit st) := by
  have hslot : (s.withAnchorExpr e).explicit.anchorSlot?.isSome = true := by
    cases s <;> simp [leaves] at hleaves <;> rfl
  have hproceed : proceed (fully m) f (s.withAnchorExpr e).explicit = proceed (fully m) f s := by
    cases s <;> simp [leaves] at hleaves <;> rfl
  have hanchor := (agree_anchor m f hslot st).symm
  rw [hproceed] at hanchor
  cases hmissing : e.isMissing with
  | false =>
      have hvalue : anchorValue (fully m) f (s.withAnchorExpr e).explicit = evalFully m f e := by
        cases s with
        | ret =>
            show given (fully m) f e = _
            simp only [given, hmissing, Bool.false_eq_true, if_false]
            rfl
        | yield => rfl
        | throw span v => exact absurd rfl (hthrow span v)
        | _ => simp [leaves] at hleaves
      rw [hvalue] at hanchor
      exact .inl hanchor
  | true =>
      obtain rfl := Expr.eq_missing hmissing
      refine .inr ⟨.cannotEvaluate .nowhere "<nil>", st, ?_⟩
      have hfails : evalFully m f .missing st =
          ended (.error (.failed (.cannotEvaluate .nowhere "<nil>"))) st := by
        rcases evalFully_step m f .missing st with heq | ⟨_, hwants⟩
        · exact heq
        · obtain ⟨st', h⟩ := hwants
          cases h
      rw [bind_ended hfails]
      rfl

theorem sameOrFailed_exit {s : Stmt} (hleaves : leaves s = true)
    (hthrow : ∀ span e, s ≠ .throw span e) (hexpr : s.anchorExpr = c.expr) :
    SameOrFailed (execFully m f s st)
      ((fully m).execAll f [c.branches (s.withAnchorExpr c.onTrue).explicit
        (s.withAnchorExpr c.onFalse).explicit] st) := by
  have hfilled : (s.withAnchorExpr c.onFalse).explicit.isMissing = false := by
    cases s <;> simp [leaves] at hleaves <;> rfl
  have hvalue : anchorValue (fully m) f s = evalFully m f c.expr := by
    cases s with
    | ret span e =>
        cases (hexpr : e = c.expr)
        rfl
    | yield span e =>
        cases (hexpr : e = c.expr)
        rfl
    | throw span e => exact absurd rfl (hthrow span e)
    | _ => simp [leaves] at hleaves
  have hleft := agree_anchor m f (anchorSlot?_of_leaves hleaves) st
  rw [hvalue] at hleft
  have hleft' := hleft.trans ((agree_conditional m f c st).bind fun _ _ _ => .refl _)
  rw [choose_bind] at hleft'
  have hright := (agree_branches m f c hfilled (s := (s.withAnchorExpr c.onTrue).explicit) st).symm
  rw [execAll_single]
  rcases sameOrFailed_choose (fully m) c.test st
    (sameOrFailed_leaves hleaves hthrow c.onTrue) (sameOrFailed_leaves hleaves hthrow c.onFalse) with
    hsame | ⟨e, st', hfails⟩
  · exact .inl (hleft'.trans (hsame.trans hright))
  · refine .inr ⟨e, st', ?_⟩
    rw [hfails] at hleft'
    exact hleft'.resolve_right fun h => by
      obtain ⟨_, h⟩ := h.2
      cases h

theorem same_evaluated (s s' s'' : Span) (st : Store) :
    Same (execFully m f (.expr s c.expr) st)
      ((fully m).execAll f [c.branches (.expr s' c.onTrue) (.expr s'' c.onFalse)] st) := by
  rw [execAll_single]
  refine (agree_expr m f s c.expr st).trans ?_
  refine ((agree_conditional m f c st).bind fun _ _ _ => .refl _).trans ?_
  rw [choose_bind]
  refine .trans (same_choose fun b st' _ => ?_) (agree_branches m f c rfl st).symm
  cases b with
  | true => exact (agree_expr m f s' c.onTrue st').symm
  | false => exact (agree_expr m f s'' c.onFalse st').symm

/-! ## All anchors -/

/-- The variable that is bound in front when a conditional is lifted out of a statement. -/
def liftedName? (ns : Names) : Stmt -> Option String
  | .var _ x _ _ => some x
  | .branch .. | .switch .. | .sync .. | .forEach .. => some ns.fresh.1
  | _ => none

/--
A statement that a conditional is lifted out of ends as the statements it is split into, with
the same calls, arrays and variables, unless it fails.
-/
theorem lift_preserves {o : Options} {root : Node} {anchor p : Path} {s : Stmt} {ns : Names}
    (hreports : ReportsLift o root anchor p) (hs : root.at? anchor = some (.stmt s))
    (hc : (root.at? p).bind Conditional.ofNode? = some c)
    (hthrow : ∀ span e, s ≠ .throw span e)
    (hsimple : ∀ span target op e, s.anchorExpr = .assign span target op e -> op = .assign)
    (hns : ns.Spares (usedNames root))
    (hself : ∀ y, varName? (.stmt s) = some y -> y ∉ usedNames (.expr s.anchorExpr))
    (hm : ∀ name fn, m.hosts name = some fn -> Confined fn) (hsound : st.Sound f.scope)
    (hun : ∀ y, liftedName? ns s = some y -> Unmentioned st f.scope y) :
    ∃ new ns', lift ns s c = .ok (new, ns') ∧
      ∀ n ending st₁, exec m n f s st = ended ending st₁ -> ending ≠ .error .outOfFuel ->
        (∀ e, ending ≠ .error (.failed e)) ->
        ∃ st₁', Finishes (fun n => (inner m n).execAll f new) st (ended ending st₁') ∧
          st₁.SameBut f.scope (fun y => liftedName? ns s = some y ∧
            ¬(varName? (.stmt s) = some y ∧ ending = .ok .normal)) st₁' := by
  obtain ⟨hlifts, htyped⟩ := lifts_of_reports hreports hs hc
  obtain ⟨new, ns', hlift, hlifted⟩ := lift_of_lifts ns hlifts htyped
  refine ⟨new, ns', hlift, fun n ending st₁ hexec hends hfailed => ?_⟩
  have hfully : execFully m f s st = ended ending st₁ :=
    (finishes_exec.1 ⟨n, hexec, not_wantsFuel_ended hends⟩).1
  have hfinish {ts : List Stmt} {st₁' : Store}
      (h : Same ((fully m).execAll f ts st) (ended ending st₁')) :
      Finishes (fun n => (inner m n).execAll f ts) st (ended ending st₁') :=
    finishes_execAll.2 ⟨(h.ends_iff (not_wantsFuel_ended hends)).2 rfl, not_wantsFuel_ended hends⟩
  have hsame {ts : List Stmt} (h : Same (execFully m f s st) ((fully m).execAll f ts st)) :
      Same ((fully m).execAll f ts st) (ended ending st₁) := by
    rw [← hfully]
    exact h.symm
  cases hlifted with
  | exit hleaves hexpr =>
      refine ⟨st₁, hfinish ?_, .refl _ _ _⟩
      rcases sameOrFailed_exit hleaves hthrow hexpr with h | ⟨e, st', h⟩
      · exact hsame h
      · exact absurd (ended_inj (show ended ending st₁ = ended (.error (.failed e)) st' from
          hfully.symm.trans h)).1 (hfailed e)
  | evaluated span => exact ⟨st₁, hfinish (hsame (same_evaluated _ _ _ st)), .refl _ _ _⟩
  | assigned s' s'' s₃ x t op =>
      obtain rfl := hsimple _ _ _ _ rfl
      refine ⟨st₁, hfinish (hsame ?_), .refl _ _ _⟩
      rw [execAll_single]
      exact same_assigning (oldValue_simple f s₃ x st) fun _ st' _ => oldValue_simple f s₃ x st'
  | declared s' x t t' =>
      obtain ⟨st₁', h, hbut⟩ := lift_declared hm hsound (hun x rfl) (hself x rfl) hexec hends
      refine ⟨st₁', hfinish h, hbut.imp fun y hy => ?_⟩
      obtain ⟨rfl, hending⟩ := hy
      exact ⟨rfl, fun h => hending h.2⟩
  | stored hheaded hexpr =>
      have hname : liftedName? ns s = some ns.fresh.1 := by
        cases s <;> simp [isHeaded] at hheaded <;> rfl
      have hvar : varName? (.stmt s) = none := by
        cases s <;> simp [isHeaded] at hheaded <;> rfl
      have hfresh : ns.fresh.1 ∉ usedNames (.stmt s) := fun hmem => hns.not_mem (by
        obtain ⟨d, hd, hx⟩ := List.mem_filterMap.1 hmem
        obtain ⟨q, hq⟩ := mem_nodes.1 hd
        have hd : root.at? (anchor ++ q) = some d := by rw [at?_append, hs]; exact hq
        exact List.mem_filterMap.2 ⟨d, mem_nodes.2 ⟨anchor ++ q, hd⟩, hx⟩)
      obtain ⟨st₁', h, hbut⟩ := lift_stored hm hsound (hun _ hname) hheaded hexpr hfresh hexec hends
      refine ⟨st₁', hfinish h, hbut.imp fun y hy => ?_⟩
      rw [hy, hvar]
      exact ⟨hname, by simp⟩

def isNormal : EStateM.Result Stop Store Completion -> Bool
  | .ok .normal _ => true
  | _ => false

def isThrown : EStateM.Result Stop Store Completion -> Bool
  | .error (.thrown _) _ => true
  | _ => false

theorem isNormal_ended {result : EStateM.Result Stop Store Completion}
    (h : isNormal result = true) : ∃ st, result = ended (.ok .normal) st := by
  unfold isNormal at h
  split at h
  next st => exact ⟨st, rfl⟩
  next => cases h

theorem isThrown_ended {result : EStateM.Result Stop Store Completion}
    (h : isThrown result = true) : ¬WantsFuel result := by
  rintro ⟨st, rfl⟩
  cases h

section Declared

/-- The declaration `Integer y = flag ? f(1).unwrap() : 2;`. -/
abbrev plainDeclared : Stmt :=
  flagDeclared "y" .missing

/-- The declaration `Integer Host = flag ? Host.f(1).unwrap() : 2;`. -/
abbrev selfDeclared : Stmt :=
  flagDeclared "Host" (.ident .nowhere "Host" "")

theorem lift_preserves_plainDeclared :
    ∃ new ns' st₁', lift (.ofTree "$unwrap" (flagTree plainDeclared)) plainDeclared
        (flagConditional .missing) = .ok (new, ns') ∧
      Finishes (fun n => (inner flagMachine n).execAll ⟨0⟩ new) flagStore
        (ended (.ok .normal) st₁') := by
  have hnormal : isNormal (exec flagMachine 9 ⟨0⟩ plainDeclared flagStore) = true := by
    decide +kernel
  obtain ⟨st₁, hexec⟩ := isNormal_ended hnormal
  have hreports : ReportsLift {} (flagTree plainDeclared) flagPath (flagPath ++ [.value]) := by
    decide +kernel
  have hs : (flagTree plainDeclared).at? flagPath = some (.stmt plainDeclared) := rfl
  have hc : ((flagTree plainDeclared).at? (flagPath ++ [.value])).bind Conditional.ofNode? =
      some (flagConditional .missing) := rfl
  have hspares : (Names.ofTree "$unwrap" (flagTree plainDeclared)).Spares
      (usedNames (flagTree plainDeclared)) := fun x hx => .inl hx
  have hsound : flagStore.Sound 0 := Store.sound_plain Nat.one_pos flagStore_plain
  obtain ⟨new, ns', hlift, hruns⟩ := lift_preserves (f := ⟨0⟩) hreports hs hc
    (fun _ _ h => by cases h) (fun _ _ _ _ h => by cases h) hspares
    (fun y hy => by cases hy; decide +kernel) confined_flagMachine hsound
    fun y _ _ _ _ _ hreach => by cases Store.reaches_plain flagStore_plain hreach
  obtain ⟨st₁', hfinishes, _⟩ := hruns 9 _ st₁ hexec (by simp) (by simp)
  exact ⟨new, ns', st₁', hlift, hfinishes⟩

/--
Where its own value mentions a declared variable as a class, the class is meant natively,
since the variable is not bound yet; split, the variable is bound before.
-/
theorem lift_changes_selfDeclared :
    ReportsLift {} (flagTree selfDeclared) flagPath (flagPath ++ [.value]) ∧
      flagStore.get? 0 "Host" = none ∧ flagStore.get? 0 "$unwrap0" = none ∧
      ∃ new ns', lift (.ofTree "$unwrap" (flagTree selfDeclared)) selfDeclared
          (flagConditional (.ident .nowhere "Host" "")) = .ok (new, ns') ∧
        (∃ st₁, Finishes (fun n => exec flagMachine n ⟨0⟩ selfDeclared) flagStore
          (ended (.ok .normal) st₁)) ∧
        ∀ result, Finishes (fun n => (inner flagMachine n).execAll ⟨0⟩ new) flagStore result ->
          isThrown result = true := by
  have hnormal : isNormal (exec flagMachine 9 ⟨0⟩ selfDeclared flagStore) = true := by
    decide +kernel
  obtain ⟨st₁, hexec⟩ := isNormal_ended hnormal
  refine ⟨by decide +kernel, by decide +kernel, by decide +kernel, _, _, rfl,
    ⟨st₁, 9, hexec, not_wantsFuel_ended (by simp)⟩, fun result hfinishes => ?_⟩
  have hthrown : isThrown ((inner flagMachine 9).execAll ⟨0⟩ [
      .var .nowhere "Host" "Integer" .missing,
      (flagConditional (.ident .nowhere "Host" "")).assigning (.ident .nowhere "Host" "Integer")
        .assign] flagStore) = true := by decide +kernel
  have hruns := (finishes_execAll.1 ⟨9, rfl, isThrown_ended hthrown⟩).1
  rw [← (finishes_execAll.1 hfinishes).1]
  exact hruns ▸ hthrown

end Declared

end EarlyExit.Eval
