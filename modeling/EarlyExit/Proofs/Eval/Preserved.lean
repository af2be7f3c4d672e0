import EarlyExit.Proofs.Eval.Anchored

/-!
# What hoisting an anchor preserves

Executing the statements that the sites of an anchor are hoisted into ends as executing the
anchor does.  No closure may write in between what is left in place; without closures nothing
else has to be asked of the store than that it binds what the anchor assigns.
-/

namespace EarlyExit.Eval

open Node Expansion Run

section Theorems

variable {o : Options} {root : Node} {anchor : Path} {s : Stmt} {slot : Slot} {ts : List Task}
  {ns : Names} {m : Machine} {f : Frame} {st : Store}

/--
Hoisting preserves an anchor.  Where no closure is reached, the statements make the same calls
as the anchor, leave the same arrays and the same bindings but for the temporaries, and end in
the same way, a site that leaves the anchor by the exit.
-/
theorem hoistAnchor_preserves (hat : root.at? anchor = some (.stmt s))
    (hslot : s.anchorSlot? = some slot) (hsome : ts ≠ [])
    (hts : ∀ t ∈ ts, t ∈ acceptedAt o root anchor) (exit : Exit)
    (hspares : ns.Spares (usedNames root))
    (h : Hoistable o m f s ((taskMarks anchor ts).under slot) ns st) (hsound : st.Sound f.scope)
    (hclosed : ∀ id ps body outer, ¬st.Reaches f.scope (.closure id ps body outer)) :
    ∃ hoisted count, hoistAnchor ns s exit (taskMarks anchor ts) = .ok hoisted ∧
      hoisted.names = ns.later count ∧
      ∀ n ending st₁, exec m n f s st = ended ending st₁ -> ending ≠ .error .outOfFuel ->
        (∀ err, ending ≠ .error (.failed err)) ->
        ∃ ending' st₁',
          Finishes (fun n => (inner m n).execAll f hoisted.statements) st (ended ending' st₁') ∧
            Follows m f s exit ((taskMarks anchor ts).under slot) (ns.several count) st ending st₁
              ending' st₁' := by
  have hquiet (count : Nat) : Quiet (ns.several count) (fun _ => True) f.scope st :=
    ⟨hsound, fun id ps body outer hreach => absurd hreach (hclosed id ps body outer)⟩
  obtain ⟨hoisted, count, hok, hnames, hruns⟩ :=
    hoistAnchor_follows hat hslot hsome hts exit hspares h (fun _ _ => trivial) hquiet
  exact ⟨hoisted, count, hok, hnames, fun n ending st₁ hexec hends hfailed =>
    (hruns n ending st₁ hexec hends hfailed).2⟩

end Theorems

/-! ## Where evaluation comes to -/

theorem Turn.get? {m : Machine} {f : Frame} {e d : Expr} {st st₁ : Store} {slot : Slot}
    (h : Turn m f e st slot d st₁) : (Node.expr e).get? slot = Node.ofExpr? d := by
  cases h with
  | receiver => exact get?_receiver ..
  | arg _ harg => simpa using lists_args _ _ _ _ _ _ _ harg
  | target => exact get?_target ..
  | array => exact get?_array ..
  | position => exact get?_position ..
  | dim _ hdim => simpa using lists_dims _ _ _ _ _ _ _ hdim
  | element _ helement => simpa using lists_elements _ _ _ _ _ _ _ helement
  | part harg => simpa using lists_newObject _ _ _ _ _ harg
  | operand => exact get?_operand ..
  | left => exact get?_left ..
  | right => exact get?_right ..
  | assigned => exact get?_value ..
  | amended => exact get?_value ..
  | selector => exact get?_selector ..

theorem Comes.at? {m : Machine} {f : Frame} {e d : Expr} {st st₁ : Store} {p : Path}
    (h : Comes m f e st p d st₁) (hfilled : d.isMissing = false) :
    (Node.expr e).at? p = some (.expr d) := by
  induction h with
  | here => rfl
  | @there e st slot d' st₁ p d st₂ hturn hcomes ih =>
      have hat := ih hfilled
      refine at?_cons_eq_some.2 ⟨.expr d', ?_, hat⟩
      rw [hturn.get?]
      refine ofExpr?_of_filled ?_
      cases hmissing : d'.isMissing with
      | false => rfl
      | true =>
          obtain rfl := Expr.eq_missing hmissing
          cases hcomes with
          | here => simp [Expr.isMissing] at hfilled
          | there hturn' => cases hturn'

/-! ## Calls of a host function -/

/-- The call `f(1)`, of this static type. -/
def hostCall (type : String) : Expr :=
  .call .nowhere .missing "f" [.literal .nowhere (.int 1) "int"] type

/-- The expression `f(1).unwrap()`. -/
def hostSite (type : String) : Expr :=
  .call .nowhere (hostCall type) "unwrap" [] "int"

def hostRegistry (k : Kind) : Registry :=
  ⟨[k], k.claims.map (·, k)⟩

theorem resolve_hostRegistry {k k' : Kind} {e : Expr} (h : (hostRegistry k).resolve e = some k') :
    k' = k := by
  unfold Registry.resolve at h
  split at h
  · cases h
  · obtain ⟨l, r, hsplit, _⟩ := List.lookup_eq_some_iff.1 h
    have hmem : (baseType e.staticType, k') ∈ k.claims.map (·, k) := by
      rw [show k.claims.map (·, k) = _ from hsplit]
      simp
    obtain ⟨_, _, heq⟩ := List.mem_map.1 hmem
    exact (Prod.mk.inj heq).2.symm

/-- A machine whose function `f` gives a container of the kind. -/
def hostMachine (k : Kind) (alternate : Bool) : Machine where
  unit := default
  registry := hostRegistry k
  hosts name :=
    if name = "f" || name = "Host.f" then
      some fun args => pure (.container k alternate (args.headD .null))
    else none
  native := true

/-- A call on a call of `f`. -/
def isHostSite : Node -> Bool
  | .expr (.call _ (.call _ .missing "f" _ _) _ _ _) => true
  | _ => false

/-- A call of `f` gives a container, whatever its arguments are. -/
theorem eval_hostMachine {k : Kind} {alternate : Bool} {f : Frame} {s : Span} {args : List Expr}
    {t : String} {v : Value} {st st₁ : Store}
    (h : evalFully (hostMachine k alternate) f (.call s .missing "f" args t) st = ended (.ok v) st₁) :
    ∃ held, v = .container k alternate held := by
  have hcall := agree_call (hostMachine k alternate) f s .missing "f" args t st
  rw [h] at hcall
  have hsteps := hcall.symm.eq_ended nofun
  have hmissing : callee (fully (hostMachine k alternate)) f .missing st = ended (.ok .unit) st := rfl
  rw [bind_ended hmissing] at hsteps
  obtain ⟨ending, st₂, hvalues⟩ := exists_ended ((fully (hostMachine k alternate)).evalAll f args st)
  have hsteps : ((fully (hostMachine k alternate)).evalAll f args >>=
      plainCall (hostMachine k alternate) (fully (hostMachine k alternate)) s "f") st =
        ended (.ok v) st₁ := hsteps
  rw [bind_ended hvalues] at hsteps
  cases ending with
  | error stop => cases hsteps
  | ok vs =>
      have hsteps : callHost "f" (fun args => pure (.container k alternate (args.headD .null)))
          vs st₂ = ended (.ok v) st₁ := hsteps
      rw [callHost, bind_ended (texts_eq vs st₂)] at hsteps
      -- the call is logged before it gives the container
      cases htexts : vs.mapM st₂.text? with
      | none =>
          rw [htexts] at hsteps
          cases hsteps
      | some texts =>
          rw [htexts] at hsteps
          cases hsteps
          exact ⟨_, rfl⟩

/-- Sites on calls of `f` are on containers. -/
theorem served_hostMachine {k : Kind} {alternate : Bool} {f : Frame} {marks : Marks} {e : Expr}
    {st : Store} (h : ∀ x ∈ marks.sites, x.2 = k ∧ ((Node.expr e).at? x.1).any isHostSite = true) :
    Served (hostMachine k alternate) f marks e st := by
  intro p k' hp s receiver name args t st₁ hcomes c st₂ hc
  obtain ⟨hk, hsite⟩ := h _ hp
  rw [hcomes.at? rfl, Option.any_some] at hsite
  unfold isHostSite at hsite
  split at hsite
  next s' s'' vs t' name' args' type heq =>
    cases heq
    obtain ⟨ending, st₃, heval⟩ := exists_ended
      ((fully (hostMachine k alternate)).eval f (.call s'' .missing "f" vs t') st₁)
    rw [callee_plain rfl, bind_ended heval] at hc
    cases ending with
    | error stop => cases hc
    | ok v =>
        cases hc
        obtain ⟨held, rfl⟩ := eval_hostMachine heval
        exact ⟨alternate, held, by rw [show k' = k from hk]⟩
  next => cases hsite

theorem confined_hostMachine {k : Kind} {alternate : Bool} (name : String) (fn : HostFunction)
    (h : (hostMachine k alternate).hosts name = some fn) : Confined fn := by
  simp only [hostMachine, Option.ite_none_right_eq_some, Option.some.injEq] at h
  obtain ⟨_, rfl⟩ := h
  exact confined_pure fun _ _ _ => madeOf_headD

theorem legible_hostMachine {k : Kind} {alternate : Bool} (haccessor : k.accessor ≠ k.predicate)
    (halternate : k.alternateAccessor ≠ k.predicate ∧ k.alternateAccessor ≠ k.accessor)
    (hsentinel : "unwrap" ∉ Settings.calledMembers k) : Legible (hostMachine k alternate) k where
  known := by simp [hostMachine, hostRegistry, Registry.byName?]
  accessor := haccessor
  alternate := halternate
  sentinel := hsentinel

def hostOptions (k : Kind) : Options where
  registry := hostRegistry k

def isLambda : Node -> Bool
  | .expr (.lambda ..) => true
  | _ => false

theorem noLambda_of_all {n : Node} (h : (n.nodes.all fun c => !isLambda c) = true) : NoLambda n := by
  rintro c hc span ps body rfl
  simpa [isLambda] using List.all_eq_true.1 h _ hc

/-- All sites of a statement that stands alone in a unit. -/
abbrev hostTasks (k : Kind) (s : Stmt) : List Task :=
  acceptedAt (hostOptions k) (flagTree s) flagPath

theorem native_hostMachine {alternate : Bool} :
    Native (hostOptions .either) (hostMachine .either alternate) where
  native := rfl
  sentinel := rfl
  legible e k hk := by
    obtain rfl := resolve_hostRegistry hk
    exact legible_hostMachine (by decide) (by decide) (by decide)
  hosts := confined_hostMachine

theorem hoistable_host {alternate : Bool} {s : Stmt} {slot : Slot} {ns : Names} {p : Path}
    {st : Store} (hclass : st.get? 0 Kind.either.name = none)
    (hlambda : ((Node.expr s.anchorExpr).nodes.all fun c => !isLambda c) = true)
    (harrays : ((Node.expr s.anchorExpr).nodes.all hasOneList) = true)
    (hbound : ∀ x ∈ writtenNames s.anchorExpr, (st.get? 0 x).isSome = true)
    (hsites : ((taskMarks flagPath (hostTasks .either s)).under slot).sites = [(p, .either)])
    (hsite : ((Node.expr s.anchorExpr).at? p).any isHostSite = true)
    (hthrow : ∀ span e, s ≠ .throw span e) :
    Hoistable (hostOptions .either) (hostMachine .either alternate) ⟨0⟩ s
      ((taskMarks flagPath (hostTasks .either s)).under slot) ns st where
  native := native_hostMachine
  plain := noLambda_of_all hlambda
  arrays := List.all_eq_true.1 harrays
  classes e k hk := by
    obtain rfl := resolve_hostRegistry hk
    refine ⟨fun x hx => .inr fun i => ?_, hclass⟩
    obtain rfl := List.mem_singleton.1 hx
    exact ns.name_ne_kind i (by decide)
  bound := hbound
  served := served_hostMachine fun x hx => by
    rw [hsites, List.mem_singleton] at hx
    subst hx
    exact ⟨rfl, hsite⟩
  thrown span e heq := absurd heq (hthrow span e)

/-- The statement `return x + f(1).unwrap();`, over a container of this type. -/
def sumReturn (type : String) : Stmt :=
  .ret .nowhere (.binary .nowhere (.ident .nowhere "x" "int") .add (hostSite type))

def returnsInt (n : Int64) : EStateM.Result Stop Store Completion -> Bool
  | .ok (.returned (.int i)) _ => i = n
  | _ => false

theorem returnsInt_ended {n : Int64} {result : EStateM.Result Stop Store Completion}
    (h : returnsInt n result = true) : ∃ st, result = ended (.ok (.returned (.int n))) st := by
  unfold returnsInt at h
  split at h
  next i st =>
    obtain rfl : i = n := by simpa using h
    exact ⟨st, rfl⟩
  next => cases h

theorem hoistable_sumReturn {ns : Names} :
    Hoistable (hostOptions .either) (hostMachine .either false) ⟨0⟩ (sumReturn "Either")
      ((taskMarks flagPath (hostTasks .either (sumReturn "Either"))).under .value) ns flagStore :=
  hoistable_host (p := [.right]) (by decide +kernel) (by decide +kernel) (by decide +kernel)
    (by decide +kernel) (by decide +kernel) (by decide +kernel) nofun

theorem hoistAnchor_preserves_sumReturn : ∃ hoisted st₁,
    hoistAnchor (.ofTree "$unwrap" (flagTree (sumReturn "Either"))) (sumReturn "Either") .ret
        (taskMarks flagPath (hostTasks .either (sumReturn "Either"))) = .ok hoisted ∧
      Finishes (fun n => (inner (hostMachine .either false) n).execAll ⟨0⟩ hoisted.statements)
        flagStore (ended (.ok (.returned (.int 2))) st₁) := by
  have hreturns : returnsInt 2 (exec (hostMachine .either false) 9 ⟨0⟩ (sumReturn "Either")
      flagStore) = true := by decide +kernel
  obtain ⟨st, hexec⟩ := returnsInt_ended hreturns
  have hat : (flagTree (sumReturn "Either")).at? flagPath = some (.stmt (sumReturn "Either")) := rfl
  have hslot : (sumReturn "Either").anchorSlot? = some .value := rfl
  have hsome : hostTasks .either (sumReturn "Either") ≠ [] := by
    have hone : (hostTasks .either (sumReturn "Either")).length = 1 := by decide +kernel
    intro hnil
    simp [hnil] at hone
  have hspares : (Names.ofTree "$unwrap" (flagTree (sumReturn "Either"))).Spares
      (usedNames (flagTree (sumReturn "Either"))) := fun x hx => .inl hx
  have hruns := hoistAnchor_preserves hat hslot hsome (fun t ht => ht) .ret hspares
    hoistable_sumReturn (Store.sound_plain Nat.one_pos flagStore_plain)
    fun _ _ _ _ hreach => by cases Store.reaches_plain flagStore_plain hreach
  obtain ⟨hoisted, count, hok, -, hruns⟩ := hruns
  obtain ⟨ending', st₁, hfinishes, hfollows⟩ := hruns 9 _ st hexec nofun fun _ h => nomatch h
  refine ⟨hoisted, st₁, hok, ?_⟩
  cases hfollows
  exact hfinishes

/-! ## Where hoisting changes what an anchor does -/

/-- How a run ends that neither completes nor throws. -/
inductive Manner
  | other | failed | left
deriving DecidableEq

def manner : EStateM.Result Stop Store Completion -> Manner
  | .error (.failed _) _ => .failed
  | .error (.exit _) _ => .left
  | _ => .other

def callsMade : EStateM.Result Stop Store Completion -> Nat
  | .ok _ st | .error _ st => st.calls.size

theorem Follows.manner_eq {m : Machine} {f : Frame} {s : Stmt} {exit : Exit} {marks : Marks}
    {temps : List String} {st st₁ st₁' : Store} {ending ending' : Except Stop Completion}
    (h : Follows m f s exit marks temps st ending st₁ ending' st₁') :
    (manner (ended ending' st₁') = .other ∨
      manner (ended ending' st₁') = manner (ended ending st₁)) ∧
    callsMade (ended ending' st₁') = callsMade (ended ending st₁) := by
  have hcalls (ending : Except Stop Completion) (st : Store) :
      callsMade (ended ending st) = st.calls.size := by
    cases ending <;> rfl
  rw [hcalls, hcalls]
  cases h with
  | same hbut =>
      refine ⟨.inr ?_, by rw [hbut.calls]⟩
      cases ending with
      | ok => rfl
      | error stop => cases stop <;> rfl
  | left hbut =>
      refine ⟨.inl ?_, congrArg Array.size hbut.calls⟩
      cases exit <;> rfl

/--
All sites of a statement are accepted for it, and on the way to each a container is unwrapped;
still the statements that they are hoisted into do not follow the statement.
-/
structure Departs (k : Kind) (alternate : Bool) (s : Stmt) (slot : Slot) (exit : Exit) : Prop where
  anchored : s.anchorSlot? = some slot
  plain : NoLambda (.stmt s)
  accepted : ∀ x ∈ sites (hostOptions k) (.stmt s), ∃ t ∈ hostTasks k s,
    t.site.path = flagPath ++ x.path
  exits : ∀ t ∈ hostTasks k s, t.context.exit = exit
  classes : flagStore.get? 0 k.name = none
  served : Served (hostMachine k alternate) ⟨0⟩ ((taskMarks flagPath (hostTasks k s)).under slot)
    s.anchorExpr flagStore
  differs : ∃ hoisted, hoistAnchor (.ofTree "$unwrap" (flagTree s)) s exit
      (taskMarks flagPath (hostTasks k s)) = .ok hoisted ∧
    ∃ n ending st₁, exec (hostMachine k alternate) n ⟨0⟩ s flagStore = ended ending st₁ ∧
      ending ≠ .error .outOfFuel ∧ ∀ marks temps ending' st₁',
        Finishes (fun n => (inner (hostMachine k alternate) n).execAll ⟨0⟩ hoisted.statements)
          flagStore (ended ending' st₁') ->
        ¬Follows (hostMachine k alternate) ⟨0⟩ s exit marks temps flagStore ending st₁ ending' st₁'

def wantsFuel : EStateM.Result Stop Store Completion -> Bool
  | .error .outOfFuel _ => true
  | _ => false

/-- Both runs end, and the second makes other calls or fails or leaves where the first does not. -/
def differ (result result' : EStateM.Result Stop Store Completion) : Bool :=
  !wantsFuel result && !wantsFuel result' && (callsMade result' != callsMade result ||
    manner result' ≠ .other && manner result' ≠ manner result)

theorem wantsFuel_iff {result : EStateM.Result Stop Store Completion} :
    wantsFuel result = true ↔ WantsFuel result := by
  unfold wantsFuel WantsFuel
  split <;> simp_all

/-- The runs of a statement and of those that its sites are hoisted into differ. -/
def runsDiffer (k : Kind) (alternate : Bool) (s : Stmt) (exit : Exit) : Bool :=
  match hoistAnchor (.ofTree "$unwrap" (flagTree s)) s exit (taskMarks flagPath (hostTasks k s)) with
  | .ok hoisted => differ (exec (hostMachine k alternate) 9 ⟨0⟩ s flagStore)
      ((inner (hostMachine k alternate) 9).execAll ⟨0⟩ hoisted.statements flagStore)
  | .error _ => false

theorem departs_of_runsDiffer {k : Kind} {alternate : Bool} {s : Stmt} {exit : Exit}
    (h : runsDiffer k alternate s exit = true) :
    ∃ hoisted, hoistAnchor (.ofTree "$unwrap" (flagTree s)) s exit
        (taskMarks flagPath (hostTasks k s)) = .ok hoisted ∧
      ∃ n ending st₁, exec (hostMachine k alternate) n ⟨0⟩ s flagStore = ended ending st₁ ∧
        ending ≠ .error .outOfFuel ∧ ∀ marks temps ending' st₁',
          Finishes (fun n => (inner (hostMachine k alternate) n).execAll ⟨0⟩ hoisted.statements)
            flagStore (ended ending' st₁') ->
          ¬Follows (hostMachine k alternate) ⟨0⟩ s exit marks temps flagStore ending st₁ ending'
            st₁' := by
  unfold runsDiffer at h
  split at h
  next hoisted hok =>
    obtain ⟨ending, st₁, hexec⟩ :=
      exists_ended (exec (hostMachine k alternate) 9 ⟨0⟩ s flagStore)
    simp only [differ, Bool.and_eq_true, Bool.not_eq_true', ← Bool.not_eq_true, wantsFuel_iff] at h
    obtain ⟨⟨hwants, hwants'⟩, hdiffer⟩ := h
    refine ⟨hoisted, hok, 9, ending, st₁, hexec, fun heq => hwants ⟨st₁, by rw [hexec, heq]; rfl⟩,
      fun marks temps ending' st₁' hfinishes hfollows => ?_⟩
    have hruns := (finishes_execAll.1 ⟨9, rfl, hwants'⟩).1
    have hsame : (inner (hostMachine k alternate) 9).execAll ⟨0⟩ hoisted.statements flagStore =
        ended ending' st₁' := hruns.symm.trans (finishes_execAll.1 hfinishes).1
    rw [hsame, hexec] at hdiffer
    obtain ⟨hmanner, hcalls⟩ := hfollows.manner_eq
    rcases hmanner with hmanner | hmanner <;> simp [hmanner, hcalls] at hdiffer
  next => cases h

/-- The statement `return y + f(1).unwrap();` over a variable that is not bound. -/
def unboundReturn : Stmt :=
  .ret .nowhere (.binary .nowhere (.ident .nowhere "y" "int") .add (hostSite "Either"))

/-- The statement `return new int[f(1).unwrap()]` with elements `{f(1).unwrap()}` besides. -/
def bothListsReturn : Stmt :=
  .ret .nowhere (.newArray .nowhere "int" [hostSite "Either"] [hostSite "Either"] false)

/-- The statement `return Host.f(f(1).unwrap(), flag || (Host = 3) > 0);`. -/
def assignedClassReturn : Stmt :=
  .ret .nowhere (.call .nowhere (.ident .nowhere "Host" "") "f" [hostSite "Either",
    .binary .nowhere (.ident .nowhere "flag" "boolean") .or
      (.binary .nowhere (.assign .nowhere (.ident .nowhere "Host" "int") .assign
        (.literal .nowhere (.int 3) "int")) .gt (.literal .nowhere (.int 0) "int"))] "Either")

/-- The statement `throw f(1).unwrap() + f(1).unwrap();`, where only the second call is a site. -/
def untypedThrow : Stmt :=
  .throw .nowhere (.binary .nowhere (hostSite "") .add (hostSite "Either"))

/-- A kind whose accessor is its predicate. -/
def vagueKind : Kind :=
  { Kind.either with accessor := "isLeft" }

/-- A kind that is named like a temporary. -/
def temporaryKind : Kind :=
  { Kind.either with name := "$unwrap0", types := [] }

/-- What is checked of a statement by running it. -/
theorem Departs.of_runs {k : Kind} {alternate : Bool} {s : Stmt} {slot : Slot} {exit : Exit}
    (hslot : s.anchorSlot? = some slot)
    (hlambda : ((Node.stmt s).nodes.all fun c => !isLambda c) = true)
    (haccepted : ∀ x ∈ sites (hostOptions k) (.stmt s), ∃ t ∈ hostTasks k s,
      t.site.path = flagPath ++ x.path)
    (hexits : ∀ t ∈ hostTasks k s, t.context.exit = exit)
    (hclass : flagStore.get? 0 k.name = none)
    (hsites : ∀ x ∈ ((taskMarks flagPath (hostTasks k s)).under slot).sites,
      x.2 = k ∧ ((Node.expr s.anchorExpr).at? x.1).any isHostSite = true)
    (h : runsDiffer k alternate s exit = true) : Departs k alternate s slot exit :=
  ⟨hslot, noLambda_of_all hlambda, haccepted, hexits, hclass, served_hostMachine hsites,
    departs_of_runsDiffer h⟩

/--
What an anchor does changes where its run fails; where an array creation has elements besides
its dimensions, which are hoisted though they are not evaluated; where a class is meant by a
name that the anchor assigns; where a `throw` statement unwraps a container that is no site;
where the members of a kind are not told apart; and where a kind is named like a temporary.
-/
theorem hoistAnchor_changes :
    Departs .either false unboundReturn .value .ret ∧
    Departs .either false bothListsReturn .value .ret ∧
    Departs .either false assignedClassReturn .value .ret ∧
    Departs .either true untypedThrow .value .throw ∧
    Departs vagueKind false (sumReturn "Either") .value .ret ∧
    Departs temporaryKind true (sumReturn "$unwrap0") .value .ret := by
  refine ⟨.of_runs ?_ ?_ ?_ ?_ ?_ ?_ ?_, .of_runs ?_ ?_ ?_ ?_ ?_ ?_ ?_,
    .of_runs ?_ ?_ ?_ ?_ ?_ ?_ ?_, .of_runs ?_ ?_ ?_ ?_ ?_ ?_ ?_,
    .of_runs ?_ ?_ ?_ ?_ ?_ ?_ ?_, .of_runs ?_ ?_ ?_ ?_ ?_ ?_ ?_⟩ <;>
    decide +kernel

end EarlyExit.Eval
