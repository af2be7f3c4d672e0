import EarlyExit.Expansion.Lift
import EarlyExit.Proofs.Eval.Informed
import EarlyExit.Proofs.Eval.Limit
import EarlyExit.Proofs.Eval.Widened

/-!
# Lambdas with their value in a block

A lambda whose body is an expression does when it is applied what the lambda does whose body
is a block that returns the value of the expression.  The block evaluates the expression one
scope further in, and nothing but the addresses of scopes tells.
-/

namespace EarlyExit

open Eval Eval.Run Expansion

/-! ## Host functions -/

namespace Eval

/--
A host function that keeps to its arguments, to arrays and to the calls that were made
before, and does not see which scopes the closures among its arguments were made in.
-/
def Blind (fn : HostFunction) : Prop :=
  ∃ answer : List Value -> Array (Array Value) -> Array String ->
      Except Stop Value × Array (Array Value),
    (∀ args st, fn args st = ended (answer args st.arrays st.calls).1
      { st with arrays := (answer args st.arrays st.calls).2 }) ∧
    ∀ scope args arrays calls, let ρ := Addresses.ofScopes scope
      answer (ρ.values args) (arrays.map fun xs => xs.map ρ.value) calls =
        (ρ.ending ρ.value (answer args arrays calls).1,
          (answer args arrays calls).2.map fun xs => xs.map ρ.value)

theorem Blind.serves {fn : HostFunction} (h : Blind fn) (exact : Prop) (p : Nat)
    (memory : Memory) : (widening exact p memory).Serves fn := by
  obtain ⟨answer, hfn, hanswer⟩ := h
  intro args st hst
  refine ⟨_, _, hfn args st, hst, fun _ => ?_⟩
  have hmoved : answer ((inserted p).values args) (st.widen p memory).arrays
      (st.widen p memory).calls = _ := hanswer _ args st.arrays st.calls
  show fn ((inserted p).values args) (st.widen p memory) = _
  rw [hfn, hmoved]
  rfl

theorem Blind.informed {fn : HostFunction} (h : Blind fn) (memory : Memory) :
    (informing memory).Serves fn := by
  obtain ⟨answer, hfn, -⟩ := h
  intro args st hst
  refine ⟨_, _, hfn args st, hst, fun _ => ?_⟩
  show fn (Addresses.unchanged.values args) (st.withMemory memory) = ended
    (Addresses.unchanged.ending Addresses.unchanged.value _) _
  rw [hfn, Addresses.values_unchanged, Addresses.ending_unchanged]
  rfl

/-- A function that makes its value of its arguments. -/
theorem blind_pure {g : List Value -> Value}
    (hg : ∀ (ρ : Addresses) args, g (ρ.values args) = ρ.value (g args)) :
    Blind fun args => pure (g args) :=
  ⟨fun args arrays _ => (.ok (g args), arrays), fun _ _ => rfl, fun _ args _ _ => by
    simp only [hg, Addresses.ending]⟩

end Eval

/-! ## Stores without later scopes -/

namespace Value

/-- A closure that was made in a scope below some address. -/
def CapturesBelow (n : Nat) : Value -> Prop
  | .closure _ _ _ s => s < n
  | _ => True

/-- A value whose closures were made in scopes below some address. -/
def Below (n : Nat) : Value -> Prop :=
  MadeOf (fun _ => True) (CapturesBelow n)

mutual

theorem inserted_value {p : Nat} : (v : Value) -> v.Below p -> (inserted p).value v = v
  | .closure id params body s, h => by
      rw [Addresses.value, scope_inserted_old h]
      rfl
  | .object c args, h => by rw [Addresses.value, inserted_values args h]
  | .container k alternate held, h => by rw [Addresses.value, inserted_value held h]
  | .array _, _ | .null, _ | .bool _, _ | .int _, _ | .float _, _ | .str _, _ => rfl

theorem inserted_values {p : Nat} : (vs : List Value) ->
    AllMadeOf (fun _ => True) (CapturesBelow p) vs -> (inserted p).values vs = vs
  | [], _ => rfl
  | v :: rest, h => by rw [Addresses.values, inserted_value v h.1, inserted_values rest h.2]

end

end Value

namespace Store

/-- A store that refers to scopes below some address only. -/
structure Below (n : Nat) (st : Store) : Prop where
  outer : ∀ sc ∈ st.scopes, ∀ o, sc.outer = some o -> o < n
  bound : ∀ sc ∈ st.scopes, ∀ b ∈ sc.bindings, b.2.Below n
  element : ∀ xs ∈ st.arrays, ∀ v ∈ xs, v.Below n

variable {p : Nat} {st : Store}

theorem Below.scopes (h : st.Below p) : st.scopes.map (inserted p).moved = st.scopes := by
  refine (Array.map_congr_left fun sc hsc => ?_).trans (Array.map_id st.scopes)
  have hbindings : sc.bindings.map (fun b => (b.1, (inserted p).value b.2)) = sc.bindings :=
    (List.map_congr_left fun b hb =>
      congrArg (Prod.mk b.1) (Value.inserted_value b.2 (h.bound sc hsc b hb))).trans
        (List.map_id' _)
  have houter : sc.outer.map (inserted p).scope = sc.outer := by
    cases ho : sc.outer with
    | none => rfl
    | some o => exact congrArg some (scope_inserted_old (h.outer sc hsc o ho))
  rw [Addresses.moved, hbindings, houter]
  rfl

theorem Below.arrays (h : st.Below p) :
    (st.arrays.map fun xs => xs.map (inserted p).value) = st.arrays := by
  refine (Array.map_congr_left fun xs hxs => ?_).trans (Array.map_id st.arrays)
  exact (Array.map_congr_left fun v hv =>
    Value.inserted_value v (h.element xs hxs v hv)).trans (Array.map_id xs)

/-- A store that has no scope behind which one could be inserted. -/
theorem Below.widen_eq (h : st.Below p) (hsize : st.scopes.size = p) (memory : Memory) :
    st.widen p memory = st.withMemory memory := by
  have hscopes : (st.widen p memory).scopes = st.scopes := by
    show Array.insertIdxIfInBounds _ _ _ = _
    rw [h.scopes, Array.insertIdxIfInBounds, dif_neg (by omega)]
  refine ext_scopes (fun s => by rw [hscopes]; rfl) ?_
  rw [widen, h.arrays]
  rfl

/-- The empty scope behind the last one is a scope that is opened there. -/
theorem Below.push_eq (h : st.Below p) (hsize : st.scopes.size = p + 1) :
    st.push (some p) = (p + 1, st.widen p st.memory) := by
  have hlast : p < st.scopes.size := by omega
  have hscopes : (st.push (some p)).2.scopes = (st.widen p st.memory).scopes := by
    refine scopes_eq_widen hlast (by rw [scopes_push, if_pos hsize.symm]) fun s => ?_
    have hne : home p s ≠ st.scopes.size := hsize ▸ home_ne
    rw [scopes_push, if_neg hne, ← Array.getElem?_map, h.scopes, home]
    split
    · rfl
    · rw [Array.getElem?_eq_none (by omega), Array.getElem?_eq_none (by omega)]
  refine Prod.ext hsize (ext_scopes (fun s => by rw [hscopes]) ?_)
  rw [widen, h.arrays]
  rfl

theorem Below.withMemory (h : st.Below p) (memory : Memory) : (st.withMemory memory).Below p :=
  ⟨h.outer, h.bound, h.element⟩

theorem Below.push (h : st.Below p) {o : Nat} (ho : o < p) : (st.push (some o)).2.Below p := by
  have hmem : ∀ sc ∈ (st.push (some o)).2.scopes, sc ∈ st.scopes ∨ sc = { outer := some o } :=
    fun sc hsc => Array.mem_push.1 hsc
  refine ⟨fun sc hsc o' ho' => ?_, fun sc hsc b hb => ?_, h.element⟩
  · rcases hmem sc hsc with hsc | rfl
    · exact h.outer sc hsc o' ho'
    · cases ho'
      exact ho
  · rcases hmem sc hsc with hsc | rfl
    · exact h.bound sc hsc b hb
    · cases hb

theorem Below.define (h : st.Below p) (s : Nat) (x : String) {v : Value} (hv : v.Below p) :
    (st.define s x v).Below p := by
  have hmem : ∀ sc ∈ (st.define s x v).scopes, ∃ sc' ∈ st.scopes,
      sc = sc' ∨ sc = { sc' with bindings := Scope.bind x v sc'.bindings } := by
    intro sc hsc
    obtain ⟨t, ht⟩ := Array.mem_iff_getElem?.1 hsc
    rw [scopes_define] at ht
    split at ht
    · obtain ⟨sc', hsc', rfl⟩ := Option.map_eq_some_iff.1 ht
      exact ⟨sc', Array.mem_of_getElem? hsc', .inr rfl⟩
    · exact ⟨sc, Array.mem_of_getElem? ht, .inl rfl⟩
  refine ⟨fun sc hsc o ho => ?_, fun sc hsc b hb => ?_, h.element⟩
  · obtain ⟨sc', hsc', rfl | rfl⟩ := hmem sc hsc
    · exact h.outer sc hsc' o ho
    · exact h.outer sc' hsc' o ho
  · obtain ⟨sc', hsc', rfl | rfl⟩ := hmem sc hsc
    · exact h.bound sc hsc' b hb
    · rcases Scope.mem_bind hb with hb | hb
      · exact h.bound sc' hsc' b hb
      · rwa [hb]

theorem Below.enter (h : st.Below p) : st.enter.Below p :=
  ⟨h.outer, h.bound, h.element⟩

theorem Below.get? (h : st.Below p) {s : Nat} {x : String} {v : Value} (hv : st.get? s x = some v) :
    v.Below p := by
  obtain ⟨⟨t, v⟩, hfound, rfl⟩ := Option.map_eq_some_iff.1 hv
  obtain ⟨sc, hsc, hlookup⟩ := Option.bind_eq_some_iff.1 (mem_chain_of_find? hfound).2
  obtain ⟨before, after, hbindings, _⟩ := List.lookup_eq_some_iff.1 hlookup
  exact h.bound sc (Array.mem_of_getElem? hsc) (x, v) (by rw [hbindings]; simp)

/-- Look-ups in a store that has no scope behind which one could be inserted. -/
theorem Below.get?_inserted (h : st.Below st.scopes.size) (s : Nat) (x : String) :
    st.get? ((inserted st.scopes.size).scope s) x =
      (st.get? s x).map (inserted st.scopes.size).value := by
  by_cases hs : s < st.scopes.size
  · rw [scope_inserted_old hs]
    cases hv : st.get? s x with
    | none => rfl
    | some v => exact congrArg some (Value.inserted_value v (h.get? hv)).symm
  · have hnone {t : Nat} (ht : st.scopes.size ≤ t) : st.get? t x = none := by
      rw [Store.get?, find?, Array.getElem?_eq_none ht]
      rfl
    rw [scope_inserted_new (Nat.not_lt.1 hs), hnone (by omega), hnone (by omega)]
    rfl

end Store

/-! ## Applications -/

namespace Store

/-- The store in which the body of a lambda runs: one call more, and a scope with the arguments. -/
def opened (st : Store) (outer : Nat) (params : List Param) (args : List Value) : Store :=
  (params.zip args).foldl (fun st' x => st'.define st.scopes.size x.1.name x.2)
    (st.enter.push (some outer)).2

theorem opened_withMemory (memory : Memory) (st : Store) (outer : Nat) (params : List Param)
    (args : List Value) : (st.withMemory memory).opened outer params args =
      (st.opened outer params args).withMemory memory := by
  have hfold (xs : List (Param × Value)) (s : Nat) (st' : Store) :
      xs.foldl (fun st' x => st'.define s x.1.name x.2) (st'.withMemory memory) =
        (xs.foldl (fun st' x => st'.define s x.1.name x.2) st').withMemory memory := by
    induction xs generalizing st' with
    | nil => rfl
    | cons x rest ih => exact ih (st'.define s x.1.name x.2)
  exact hfold (params.zip args) st.scopes.size (st.enter.push (some outer)).2

theorem memory_opened (st : Store) (outer : Nat) (params : List Param) (args : List Value) :
    (st.opened outer params args).memory = st.memory :=
  congrArg (fun st => st.memory) (opened_withMemory st.memory st outer params args)

end Store

namespace Eval

variable {m : Machine}

/-- The body of a lambda, in the scope with the arguments. -/
def runBody (r : Inner) (f : Frame) : Body -> Run Value
  | .value .missing => Run.fail .emptyLambda
  | .value e => catchExit (r.eval f e)
  | .block b => catchExit do bodyValue "lambda" (← r.execBlock f b)

theorem apply_eq (m : Machine) (r : Inner) (params : List Param) (body : Body) (outer : Nat)
    (args : List Value) : apply m r params body outer args =
      if args.length ≠ params.length then Run.fail (.lambdaArity params.length args.length)
      else counted m (Run.push (some outer) >>= fun scope =>
        bindParams scope params args >>= fun _ => runBody r { scope } body) := by
  unfold apply
  by_cases harity : args.length ≠ params.length
  · simp only [if_pos harity]
    cases body with
    | value e => cases e <;> rfl
    | block => rfl
  · simp only [if_neg harity]
    cases body with
    | value e => cases e <;> rfl
    | block => rfl

theorem bindParams_eq (s : Nat) (params : List Param) (args : List Value) (st : Store) :
    bindParams s params args st =
      ended (.ok ()) ((params.zip args).foldl (fun st x => st.define s x.1.name x.2) st) := by
  unfold bindParams
  induction params.zip args generalizing st with
  | nil => rfl
  | cons x rest ih => exact ih (st.define s x.1.name x.2)

variable {outer n : Nat} {params : List Param} {args : List Value} {st : Store}

/-- An application ends as its body does. -/
theorem apply_run (st : Store) (harity : args.length = params.length)
    (hdepth : st.depth < m.maxDepth) {r : Inner} {body : Body} {ending : Except Stop Value}
    {st' : Store}
    (hbody : runBody r ⟨st.scopes.size⟩ body (st.opened outer params args) = ended ending st') :
    apply m r params body outer args st = ended ending st'.leave := by
  rw [apply_eq, if_neg (not_not_intro harity)]
  refine counted_ended hdepth ?_
  have hpush : Run.push (some outer) st.enter =
      ended (.ok st.scopes.size) (st.enter.push (some outer)).2 := rfl
  rw [bind_ended hpush, ← hbody]
  exact bind_ended (bindParams_eq st.scopes.size params args (st.enter.push (some outer)).2) _

/-- An application that fails before its body. -/
theorem apply_refused (outer : Nat) (st : Store)
    (h : ¬(args.length = params.length ∧ st.depth < m.maxDepth)) :
    ∃ ending, (∀ r body st', st'.depth = st.depth ->
        apply m r params body outer args st' = ended ending st') ∧
      (∀ ρ : Addresses, ρ.ending ρ.value ending = ending) ∧
      ∀ container, ending ≠ .error (.exit container) := by
  by_cases harity : args.length = params.length
  · have hdepth : ¬st.depth < m.maxDepth := not_and.1 h harity
    refine ⟨.error (.thrown (.exception "StackOverflowError" "call depth exceeded")), ?_, ?_, ?_⟩
    · intro r body st' hst'
      rw [apply_eq, if_neg (not_not_intro harity), counted_over (hst' ▸ hdepth)]
    · exact fun ρ => rfl
    · simp
  · refine ⟨.error (.failed (.lambdaArity params.length args.length)), ?_, ?_, ?_⟩
    · intro r body st' _
      rw [apply_eq, if_pos harity]
      rfl
    · exact fun ρ => rfl
    · simp

theorem opened_below (hst : st.Below st.scopes.size) (houter : outer < st.scopes.size)
    (hargs : ∀ v ∈ args, v.Below st.scopes.size) (params : List Param) :
    (st.opened outer params args).Below st.scopes.size ∧
      (st.opened outer params args).scopes.size = st.scopes.size + 1 := by
  have hbind (xs : List (Param × Value)) (hxs : ∀ x ∈ xs, x.2.Below st.scopes.size) (st' : Store)
      (h : st'.Below st.scopes.size) :
      (xs.foldl (fun st' x => st'.define st.scopes.size x.1.name x.2) st').Below st.scopes.size ∧
        (xs.foldl (fun st' x => st'.define st.scopes.size x.1.name x.2) st').scopes.size =
          st'.scopes.size := by
    induction xs generalizing st' with
    | nil => exact ⟨h, rfl⟩
    | cons x rest ih =>
        have hdefine := h.define st.scopes.size x.1.name (hxs x (by simp))
        obtain ⟨hbelow, hsize⟩ := ih (fun x hx => hxs x (by simp [hx])) _ hdefine
        exact ⟨hbelow, hsize.trans (Store.size_define ..)⟩
  obtain ⟨hbelow, hsize⟩ := hbind (params.zip args) (fun x hx => hargs x.2 (List.of_mem_zip hx).2)
    (st.enter.push (some outer)).2 (hst.enter.push houter)
  exact ⟨hbelow, hsize.trans (Store.size_push st.enter (some outer))⟩

/-- The block evaluates the expression one scope further in. -/
theorem runBody_block (m : Machine) (n : Nat) (f : Frame) (span : Span) {e : Expr}
    (he : e.isMissing = false) :
    runBody (inner m (n + 1)) f (.block (.mk span [.ret span e])) =
      catchExit (Run.push (some f.scope) >>= fun scope => eval m n { scope } e) := by
  have hret (f : Frame) : (inner m (n + 1)).execAll f [.ret span e] =
      eval m n f e >>= fun v => pure (.returned v) := by
    rw [execAll_single]
    show exec m (n + 1) f (.ret span e) = _
    rw [exec_succ, execStep_anchor rfl]
    show given (inner m n) f e >>= _ = _
    rw [given, he]
    rfl
  show catchExit ((Run.push (some f.scope) >>= fun scope =>
    (inner m (n + 1)).execAll { scope } [.ret span e]) >>= bodyValue "lambda") = _
  simp only [hret, bind_assoc, pure_bind, bodyValue, bind_pure]

theorem runBody_value (r : Inner) (f : Frame) {e : Expr} (he : e.isMissing = false) :
    runBody r f (.value e) = catchExit (r.eval f e) := by
  cases e <;> first | rfl | cases he

/-- How an application ends whose body ends in some way: an early exit gives its container. -/
def landed : Except Stop Value -> Except Stop Value
  | .error (.exit container) => .ok container
  | ending => ending

theorem catchExit_ended {x : Run Value} {st st' : Store} {ending : Except Stop Value}
    (h : x st = ended ending st') : catchExit x st = ended (landed ending) st' := by
  show EStateM.tryCatch x _ st = _
  unfold EStateM.tryCatch
  rw [h]
  cases ending with
  | ok => rfl
  | error stop => cases stop <;> rfl

theorem landed_ne_exit (ending : Except Stop Value) (container : Value) :
    landed ending ≠ .error (.exit container) := by
  cases ending with
  | ok => simp [landed]
  | error stop => cases stop <;> simp [landed]

theorem landed_ending (ρ : Addresses) (ending : Except Stop Value) :
    landed (ρ.ending ρ.value ending) = ρ.ending ρ.value (landed ending) := by
  cases ending with
  | ok => rfl
  | error stop => cases stop <;> rfl

/-- The bodies of a lambda and of the one with a block, in the store with the arguments. -/
theorem runBody_wrapped (hm : ∀ name fn, m.hosts name = some fn -> Blind fn) {p : Nat}
    (hst : st.Below p) (hsize : st.scopes.size = p + 1) (n : Nat) (span : Span) {e : Expr}
    (he : e.isMissing = false) {moved : Memory}
    (hmoved : (inserted p).Informs True st.memory moved) : ∃ ending st',
      eval m n ⟨p⟩ e st = ended ending st' ∧ p < st'.scopes.size ∧
      runBody (inner m n) ⟨p⟩ (.value e) st = ended (landed ending) st' ∧
      ∀ exact memory, (inserted p).Informs exact st.memory memory ->
        exact ∨ ending ≠ .error .outOfFuel ->
          runBody (inner m (n + 1)) ⟨p⟩ (.block (.mk span [.ret span e])) (st.withMemory memory) =
            ended ((inserted p).ending (inserted p).value (landed ending))
              (st'.widen p memory) := by
  have hcovers : p < st.scopes.size := by omega
  have hcarries (exact : Prop) (memory : Memory) :=
    ((widening exact p memory).follows
      (fun name fn hfn => (hm name fn hfn).serves exact p memory) n).eval ⟨p⟩ e st
  obtain ⟨ending, st', hleft, hst', -⟩ := hcarries True moved ⟨hcovers, hmoved⟩
  refine ⟨ending, st', hleft, hst'.1, ?_, fun exact memory hmemory hends => ?_⟩
  · rw [runBody_value _ _ he]
    exact catchExit_ended hleft
  · obtain ⟨ending', st'', hleft', -, hright⟩ := hcarries exact memory ⟨hcovers, hmemory⟩
    obtain ⟨rfl, rfl⟩ := ended_inj (hleft.symm.trans hleft')
    have hframe : (inserted p).frame ⟨p⟩ = ⟨p + 1⟩ := by
      rw [Addresses.frame, scope_inserted_new (Nat.le_refl p)]
    have hopened : (Run.push (some p) >>= fun scope => eval m n { scope } e)
        (st.withMemory memory) =
          ended ((inserted p).ending (inserted p).value ending) (st'.widen p memory) := by
      have hpush : Run.push (some p) (st.withMemory memory) =
          ended (.ok (p + 1)) (st.widen p memory) :=
        congrArg (fun pushed : Nat × Store => ended (.ok pushed.1) pushed.2)
          ((hst.withMemory memory).push_eq hsize)
      rw [bind_ended hpush]
      show eval m n ⟨p + 1⟩ e (st.widen p memory) = _
      rw [← hframe]
      exact hright hends
    rw [runBody_block m n _ span he, catchExit_ended hopened, landed_ending]

theorem Addresses.Informs.of_comp {ρ : Addresses} {known moved memory : Memory}
    (h : moved ∘ ρ.cell = known) (hmemory : Memory.Includes memory moved) :
    ρ.Informs False known memory where
  includes c address hc := hmemory (ρ.cell c) address (by rw [← hc, ← h]; rfl)
  same := False.elim

/-- An application that ends does so in the same way with more of memory known. -/
theorem apply_informed (hm : ∀ name fn, m.hosts name = some fn -> Blind fn) {body : Body}
    {memory : Memory} (hmemory : Memory.Includes memory st.memory) {ending : Except Stop Value}
    {st' : Store} (hrun : apply m (inner m n) params body outer args st = ended ending st')
    (hends : ending ≠ .error .outOfFuel) :
    apply m (inner m n) params body outer args (st.withMemory memory) =
      ended ending (st'.withMemory memory) := by
  have hcarries := ((informing memory).follows
    (fun name fn hfn => (hm name fn hfn).informed memory) n).apply (m := m) params body outer args
  rw [informing_values] at hcarries
  exact informed hcarries hmemory hrun hends

/--
Applying a lambda with an expression for its body, and applying the lambda with the block in
its place, to any arguments in any store that refers only to scopes it has: the second ends
as the first, with the same calls, variables and arrays, up to one empty scope that it has
more.  An early exit in the expression ends only the application.

The two agree where cells that correspond have the same addresses.  If they end with those
addresses known that they have in common, such as the ones of all that was there before, then
they agree in all memories that have these.
-/
theorem apply_wrapLambda (hm : ∀ name fn, m.hosts name = some fn -> Blind fn) (span : Span)
    (params : List Param) {e : Expr} (he : e.isMissing = false) :
    ∃ b, wrapLambda (.lambda span params (.value e)) = .ok (.lambda span params (.block b)) ∧
      ∀ (n outer : Nat) (args : List Value) (st : Store) (moved : Memory),
        st.Below st.scopes.size -> outer < st.scopes.size ->
        (∀ v ∈ args, v.Below st.scopes.size) ->
        moved ∘ (inserted st.scopes.size).cell = st.memory ->
        ∃ ending st', let ρ := inserted st.scopes.size
          let wide := fun memory => st'.widen st.scopes.size memory
          apply m (inner m n) params (.value e) outer args st = ended ending st' ∧
          apply m (inner m (n + 1)) params (.block b) outer args (st.withMemory moved) =
            ended (ρ.ending ρ.value ending) (wide moved) ∧
          (ending ≠ .error .outOfFuel -> ∀ memory memory',
            Memory.Includes memory st.memory -> Memory.Includes memory' moved ->
              apply m (inner m n) params (.value e) outer args (st.withMemory memory) =
                ended ending (st'.withMemory memory) ∧
              apply m (inner m (n + 1)) params (.block b) outer args (st.withMemory memory') =
                ended (ρ.ending ρ.value ending) (wide memory')) ∧
          (∀ memory, (wide memory).calls = st'.calls ∧
            (∀ ref, (wide memory).elems ref = (st'.elems ref).map ρ.value) ∧
            (∀ x, (wide memory).get? outer x = (st'.get? outer x).map ρ.value) ∧
            ∀ s x, (wide memory).get? (ρ.scope s) x = (st'.get? s x).map ρ.value) ∧
          (∀ container, ending ≠ .error (.exit container)) ∧
          ∀ container st₁, args.length = params.length -> st.depth < m.maxDepth ->
            eval m n ⟨st.scopes.size⟩ e (st.opened outer params args) =
              ended (.error (.exit container)) st₁ ->
            ending = .ok container ∧ st' = st₁.leave := by
  refine ⟨.mk e.span [.ret e.span e], by simp [wrapLambda, he], ?_⟩
  intro n outer args st moved hst houter hargs hmoved
  have hinforms : (inserted st.scopes.size).Informs True st.memory moved :=
    ⟨fun c address hc => by rw [hmoved]; exact hc, fun _ => hmoved⟩
  have hincludes (memory : Memory) (hmemory : Memory.Includes memory moved) :=
    Addresses.Informs.of_comp hmoved hmemory
  by_cases hruns : args.length = params.length ∧ st.depth < m.maxDepth
  · obtain ⟨harity, hdepth⟩ := hruns
    obtain ⟨hbelow, hsize⟩ := opened_below hst houter hargs params
    have hmemory := st.memory_opened outer params args
    obtain ⟨ending, st', heval, hlt, hleft, hright⟩ :=
      runBody_wrapped hm hbelow hsize n e.span he (hmemory.symm ▸ hinforms)
    have hleft_lt : st.scopes.size < st'.leave.scopes.size := hlt
    have hlong (exact : Prop) (memory : Memory)
        (h : (inserted st.scopes.size).Informs exact st.memory memory)
        (hends : exact ∨ ending ≠ .error .outOfFuel) :
        apply m (inner m (n + 1)) params (.block (.mk e.span [.ret e.span e])) outer args
          (st.withMemory memory) =
            ended ((inserted st.scopes.size).ending (inserted st.scopes.size).value (landed ending))
              (st'.widen st.scopes.size memory).leave := by
      have hbody := hright exact memory (hmemory.symm ▸ h) hends
      rw [← Store.opened_withMemory] at hbody
      exact apply_run (st.withMemory memory) harity hdepth hbody
    have hshort : apply m (inner m n) params (.value e) outer args st =
        ended (landed ending) st'.leave := apply_run st harity hdepth hleft
    have hlanded (h : landed ending ≠ .error .outOfFuel) : ending ≠ .error .outOfFuel := by
      rintro rfl
      exact h rfl
    refine ⟨landed ending, st'.leave, hshort, hlong True moved hinforms (.inl trivial),
      fun hends memory memory' h h' => ⟨?_, hlong False memory' (hincludes memory' h')
        (.inr (hlanded hends))⟩, fun memory => ⟨rfl, Store.elems_widen, fun x => ?_,
        Store.get?_widen hleft_lt⟩, landed_ne_exit ending, ?_⟩
    · exact apply_informed hm h hshort hends
    · rw [← Store.get?_widen hleft_lt, scope_inserted_old houter]
    · intro container st₁ _ _ hexit
      obtain ⟨rfl, rfl⟩ := ended_inj (heval.symm.trans hexit)
      exact ⟨rfl, rfl⟩
  · -- the application fails before its body, and the store is left as it is
    obtain ⟨ending, happly, hending, hexit⟩ := apply_refused outer st hruns
    have hwide (memory : Memory) : st.widen st.scopes.size memory = st.withMemory memory :=
      hst.widen_eq rfl memory
    have hlong (memory : Memory) :
        apply m (inner m (n + 1)) params (.block (.mk e.span [.ret e.span e])) outer args
          (st.withMemory memory) =
            ended ((inserted st.scopes.size).ending (inserted st.scopes.size).value ending)
              (st.widen st.scopes.size memory) := by
      rw [hending, hwide]
      exact happly _ _ _ rfl
    have hget (memory : Memory) (s : Nat) (x : String) :
        (st.widen st.scopes.size memory).get? ((inserted st.scopes.size).scope s) x =
          (st.get? s x).map (inserted st.scopes.size).value := by
      rw [hwide, Store.get?_withMemory]
      exact hst.get?_inserted s x
    refine ⟨ending, st, happly _ _ st rfl, hlong moved,
      fun _ memory memory' _ _ => ⟨happly _ _ (st.withMemory memory) rfl, hlong memory'⟩,
      fun memory => ⟨rfl, Store.elems_widen, fun x => ?_, hget memory⟩, hexit, ?_⟩
    · rw [← hget memory, scope_inserted_old houter]
    · exact fun _ _ harity hdepth => absurd ⟨harity, hdepth⟩ hruns

/-- A machine whose function `f` fails with its argument. -/
def failingMachine : Machine where
  unit := default
  hosts name :=
    if name = "f" then some fun args => pure (.alternate .either (args.headD .null)) else none
  native := true

theorem blind_failingMachine (name : String) (fn : HostFunction)
    (h : failingMachine.hosts name = some fn) : Blind fn := by
  simp only [failingMachine, Option.ite_none_right_eq_some, Option.some.injEq] at h
  obtain ⟨_, rfl⟩ := h
  refine blind_pure fun ρ args => ?_
  rw [ρ.value_headD, ρ.value_alternate]

/-- The expression `f(x).unwrap()`. -/
def unwrappedCall : Expr :=
  .call .nowhere (.call .nowhere .missing "f" [.ident .nowhere "x" "int"] "Either<Integer, String>")
    "unwrap" [] "String"

def plainStore : Store where
  scopes := #[{ bindings := [("y", .int 1)] }]

theorem plainStore_below : plainStore.Below 1 where
  outer sc hsc o ho := by
    simp only [plainStore, List.mem_toArray, List.mem_singleton] at hsc
    subst hsc
    cases ho
  bound sc hsc b hb := by
    simp only [plainStore, List.mem_toArray, List.mem_singleton] at hsc
    subst hsc
    simp only [List.mem_singleton] at hb
    subst hb
    trivial
  element xs hxs := by
    simp [plainStore] at hxs

def isAlternate : EStateM.Result Stop Store Value -> Bool
  | .ok (.container _ alternate _) _ => alternate
  | _ => false

/-- The early exit of `x -> f(x).unwrap()` ends the application, with a block or without. -/
theorem apply_wrapLambda_unwrappedCall :
    ∃ b, wrapLambda (.lambda .nowhere [{ name := "x" }] (.value unwrappedCall)) =
        .ok (.lambda .nowhere [{ name := "x" }] (.block b)) ∧
      isAlternate (apply failingMachine (inner failingMachine 9) [{ name := "x" }]
        (.value unwrappedCall) 0 [.int 3] plainStore) = true ∧
      isAlternate (apply failingMachine (inner failingMachine 10) [{ name := "x" }]
        (.block b) 0 [.int 3] plainStore) = true := by
  have hargs : ∀ v ∈ [Value.int 3], v.Below 1 := by
    intro v hv
    obtain rfl := List.mem_singleton.1 hv
    trivial
  obtain ⟨b, hb, happly⟩ := apply_wrapLambda blind_failingMachine .nowhere [{ name := "x" }]
    (show unwrappedCall.isMissing = false from rfl)
  -- nothing is known of the memory, so the two agree in every memory
  obtain ⟨ending, st', hunknown, -, hknown, -⟩ := happly 9 0 [.int 3]
    (plainStore.withMemory .unknown) .unknown (plainStore_below.withMemory _) Nat.one_pos hargs rfl
  have hvalue : isAlternate (apply failingMachine (inner failingMachine 9) [{ name := "x" }]
      (.value unwrappedCall) 0 [.int 3] (plainStore.withMemory .unknown)) = true := by
    decide +kernel
  rw [hunknown] at hvalue
  have hends : ending ≠ .error .outOfFuel := by
    rintro rfl
    cases hvalue
  obtain ⟨hleft, hright⟩ := hknown hends .numbered .numbered (Memory.includes_unknown _)
    (Memory.includes_unknown _)
  refine ⟨b, hb, (congrArg isAlternate hleft).trans ?_, (congrArg isAlternate hright).trans ?_⟩
  all_goals
    cases ending with
    | error => cases hvalue
    | ok v => cases v <;> exact hvalue

/-- The expression `"" + Either.right(() -> 1)`. -/
def shownClosure : Expr :=
  .binary .nowhere (.literal .nowhere (.str "") "") .add
    (.call .nowhere (.ident .nowhere "Either" "") "right"
      [.lambda .nowhere [] (.value (.literal .nowhere (.int 1) "1"))] "Either")

def givesText (text : String) : EStateM.Result Stop Store Value -> Bool
  | .ok (.str s) _ => s == text
  | _ => false

/-- A text that shows in which scope a closure was made tells the block from the expression. -/
theorem apply_differs_shownClosure :
    ∃ b, wrapLambda (.lambda .nowhere [] (.value shownClosure)) =
        .ok (.lambda .nowhere [] (.block b)) ∧
      givesText "Either.right(&\x7b[] 1 0x3\x7d)"
        (apply failingMachine (inner failingMachine 9) [] (.value shownClosure) 0 []
          plainStore) = true ∧
      givesText "Either.right(&\x7b[] 1 0x6\x7d)"
        (apply failingMachine (inner failingMachine 10) [] (.block b) 0 [] plainStore) = true :=
  ⟨.mk .nowhere [.ret .nowhere shownClosure], rfl, by decide +kernel, by decide +kernel⟩

end Eval

end EarlyExit
