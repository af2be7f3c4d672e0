import EarlyExit.Eval.Interpreter
import EarlyExit.Expansion.Hoist
import EarlyExit.Proofs.Tree.Swap

/-!
# A logic of related runs

Interpreters that differ in the ways of the fuel they have, the checks they make or the
stores they start from run the same code side by side.  What such a comparison needs to
say about worlds, scopes and values is a `Realm`; what it needs to know about computations
is a `Logic`: one rule for going on from a computation that ended, and one for each access
to the store.  From these follows, once for all of them, that interpreters that are alike
on the parts of a construct are alike on the construct.
-/

namespace EarlyExit.Eval

open Node Expansion

/-! ## Computations by how they end -/

namespace Run

/-- Go on from how a computation ended, unless it ended for want of fuel. -/
def attempt (x : Run α) (k : Except Stop α -> Run β) : Run β := fun st =>
  match x st with
  | .ok a st => k (.ok a) st
  | .error .outOfFuel st => .error .outOfFuel st
  | .error stop st => k (.error stop) st

/-- A result from the value or stop and the store that it is made of. -/
def ended (ending : Except Stop α) (st : Store) : EStateM.Result Stop Store α :=
  match ending with
  | .ok a => .ok a st
  | .error stop => .error stop st

theorem ended_inj {ending ending' : Except Stop α} {st st' : Store}
    (h : ended ending st = ended ending' st') : ending = ending' ∧ st = st' := by
  cases ending <;> cases ending' <;> cases h <;> exact ⟨rfl, rfl⟩

/-- The result of a run that ended for want of fuel. -/
def WantsFuel (result : EStateM.Result Stop Store α) : Prop :=
  ∃ st, result = .error .outOfFuel st

theorem wantsFuel_or_ended (result : EStateM.Result Stop Store α) :
    WantsFuel result ∨ ∃ ending st, ending ≠ .error .outOfFuel ∧ result = ended ending st := by
  match result with
  | .ok a st => exact .inr ⟨.ok a, st, by simp, rfl⟩
  | .error .outOfFuel st => exact .inl ⟨st, rfl⟩
  | .error (.thrown v) st => exact .inr ⟨.error (.thrown v), st, by simp, rfl⟩
  | .error (.exit v) st => exact .inr ⟨.error (.exit v), st, by simp, rfl⟩
  | .error (.failed f) st => exact .inr ⟨.error (.failed f), st, by simp, rfl⟩

theorem exists_ended (result : EStateM.Result Stop Store α) :
    ∃ ending st, result = ended ending st := by
  cases result with
  | ok a st => exact ⟨.ok a, st, rfl⟩
  | error stop st => exact ⟨.error stop, st, rfl⟩

theorem wantsFuel_ended {ending : Except Stop α} {st : Store} :
    WantsFuel (ended ending st) ↔ ending = .error .outOfFuel := by
  constructor
  · rintro ⟨st', heq⟩
    have heq : ended ending st = ended (.error .outOfFuel) st' := heq
    exact (ended_inj heq).1
  · rintro rfl
    exact ⟨st, rfl⟩

theorem not_wantsFuel_ended {ending : Except Stop α} {st : Store}
    (h : ending ≠ .error .outOfFuel) : ¬WantsFuel (ended ending st) :=
  mt wantsFuel_ended.1 h

theorem ok_ne_outOfFuel (a : α) : (.ok a : Except Stop α) ≠ .error .outOfFuel := nofun

theorem exit_ne_outOfFuel (c : Value) :
    (.error (.exit c) : Except Stop α) ≠ .error .outOfFuel := nofun

theorem failed_ne_outOfFuel (err : Failure) :
    (.error (.failed err) : Except Stop α) ≠ .error .outOfFuel := nofun

theorem attempt_ended {x : Run α} {st st' : Store} {ending : Except Stop α}
    (h : x st = ended ending st') (hends : ending ≠ .error .outOfFuel)
    (k : Except Stop α -> Run β) : x.attempt k st = k ending st' := by
  unfold attempt
  rw [h]
  cases ending with
  | ok => rfl
  | error stop =>
      cases stop with
      | outOfFuel => exact absurd rfl hends
      | _ => rfl

theorem attempt_wantsFuel {x : Run α} {st : Store} (h : WantsFuel (x st))
    (k : Except Stop α -> Run β) : WantsFuel (x.attempt k st) := by
  obtain ⟨st', h⟩ := h
  unfold attempt
  rw [h]
  exact ⟨st', rfl⟩

/-- How a computation ends that goes on with what is known only. -/
def tell (o : Option α) : Except Stop α :=
  o.elim (.error .outOfFuel) .ok

theorem told_eq (o : Option α) (st : Store) : told o st = ended (tell o) st := by
  cases o <;> rfl

theorem text_eq (v : Value) (st : Store) : Run.text v st = ended (tell (st.text? v)) st :=
  told_eq (st.text? v) st

theorem texts_eq (vs : List Value) (st : Store) :
    Run.texts vs st = ended (tell (vs.mapM st.text?)) st :=
  told_eq (vs.mapM st.text?) st

def find (scope : Nat) (name : String) : Run (Option Value) := do
  return (← get).get? scope name

def size (ref : Nat) : Run Nat := do
  return ((← get).elems ref).size

def close (params : List Param) (body : Body) (scope : Nat) : Run Value :=
  modifyGet fun st =>
    (.closure st.closures params body scope, { st with closures := st.closures + 1 })

/-- What a computation gives, or its stop again. -/
def resume (g : α -> Run β) : Except Stop α -> Run β
  | .ok a => g a
  | .error stop => throw stop

theorem fail_text_eq (f : String -> Failure) (v : Value) (st : Store) :
    (do Run.fail (f (← Run.text v)) : Run α) st =
      ended ((tell (st.text? v)).bind fun text => .error (.failed (f text))) st := by
  show (Run.text v >>= _) st = _
  show EStateM.bind _ _ st = _
  unfold EStateM.bind
  rw [text_eq]
  cases st.text? v <;> rfl

theorem fail_text_ne_ok {f : String -> Failure} {v : Value} {st st' : Store} {a : α} :
    (do Run.fail (f (← Run.text v)) : Run α) st ≠ .ok a st' := by
  rw [fail_text_eq]
  cases st.text? v <;> exact nofun

theorem bind_eq (x : Run α) (g : α -> Run β) : x >>= g = x.attempt (resume g) := by
  funext st
  show EStateM.bind x g st = _
  unfold EStateM.bind attempt resume
  cases x st with
  | ok => rfl
  | error stop => cases stop <;> rfl

theorem bind_ended {x : Run α} {st st' : Store} {ending : Except Stop α}
    (h : x st = ended ending st') (g : α -> Run β) : (x >>= g) st = resume g ending st' := by
  show EStateM.bind x g st = _
  unfold EStateM.bind
  rw [h]
  cases ending <;> rfl

theorem tryCatch_eq (x : Run α) (h : Stop -> Run α) (hfuel : h .outOfFuel = throw .outOfFuel) :
    tryCatch x h = x.attempt fun
      | .ok a => pure a
      | .error stop => h stop := by
  funext st
  show EStateM.tryCatch x h st = _
  unfold EStateM.tryCatch attempt
  cases x st with
  | ok => rfl
  | error stop =>
      cases stop with
      | outOfFuel => exact congrFun hfuel _
      | _ => rfl

theorem finally_ended {x : Run α} {st st' : Store} {ending : Except Stop α}
    (h : x st = ended ending st') (g : Store -> Store) :
    tryFinally x (modify g : Run Unit) st = ended ending (g st') := by
  cases ending <;>
    simp only [ended] at h <;>
    simp only [tryFinally, MonadFinally.tryFinally', Functor.map, EStateM.map, h] <;> rfl

end Run

section Counted

open Run

variable {m : Machine} {x : Run Value} {st st' : Store}

/-- A call within the limit ends as its body does, and is under way no longer. -/
theorem counted_ended {ending : Except Stop Value} (h : st.depth < m.maxDepth)
    (hx : x st.enter = ended ending st') : counted m x st = ended ending st'.leave := by
  refine finally_ended ?_ Store.leave
  rw [← hx]
  show (if m.maxDepth < st.depth + 1 then _ else _ : Run Value) st.enter = _
  rw [if_neg (Nat.not_lt.2 h)]

/-- A call beyond the limit throws, and the store is as it was. -/
theorem counted_over (h : ¬st.depth < m.maxDepth) (x : Run Value) : counted m x st =
    ended (.error (.thrown (.exception "StackOverflowError" "call depth exceeded"))) st := by
  show _ = ended _ st.enter.leave
  refine finally_ended ?_ Store.leave
  show (if m.maxDepth < st.depth + 1 then _ else _ : Run Value) st.enter = _
  rw [if_pos (by omega)]
  rfl

/-- A call has a value if its body has one. -/
theorem eq_ok_of_counted {v : Value} (h : counted m x st = .ok v st') :
    ∃ st₁, x st.enter = .ok v st₁ := by
  by_cases hdepth : st.depth < m.maxDepth
  · obtain ⟨ending, st₁, hx⟩ := exists_ended (x st.enter)
    rw [counted_ended hdepth hx] at h
    cases ending with
    | ok => cases h; exact ⟨st₁, hx⟩
    | error => cases h
  · rw [counted_over hdepth] at h
    cases h

/-- A call wants fuel if its body does. -/
theorem wantsFuel_counted : WantsFuel (counted m x st) ↔
    st.depth < m.maxDepth ∧ WantsFuel (x st.enter) := by
  by_cases hdepth : st.depth < m.maxDepth
  · obtain ⟨ending, st₁, hx⟩ := exists_ended (x st.enter)
    rw [counted_ended hdepth hx, hx, wantsFuel_ended, wantsFuel_ended]
    exact (and_iff_right hdepth).symm
  · rw [counted_over hdepth, wantsFuel_ended]
    exact ⟨nofun, fun h => absurd h.1 hdepth⟩

end Counted

theorem withCleanup_eq (cleanup x : Run Completion) :
    withCleanup cleanup x = x.attempt fun ending => do
      match ← cleanup with
      | .normal => Run.resume pure ending
      | c => return c := by
  funext st
  show EStateM.bind (EStateM.tryCatch (EStateM.map Except.ok x) _) _ st = _
  unfold Run.attempt EStateM.bind EStateM.tryCatch EStateM.map
  cases x st with
  | ok a st' =>
      show EStateM.bind cleanup _ st' = EStateM.bind cleanup _ st'
      unfold EStateM.bind
      cases cleanup st' with
      | ok c => cases c <;> rfl
      | error => rfl
  | error stop st' =>
      cases stop with
      | outOfFuel => rfl
      | _ =>
          show EStateM.bind cleanup _ st' = EStateM.bind cleanup _ st'
          unfold EStateM.bind
          cases cleanup st' with
          | ok c => cases c <;> rfl
          | error => rfl

/-! ## Worlds -/

/-- The variable that a node reads, or the class it names. -/
def readName? : Node -> Option String
  | .expr (.ident _ x _) => some x
  | _ => none

/-- The variable that a node declares in the scope it runs in. -/
def varName? : Node -> Option String
  | .stmt (.var _ x _ _) => some x
  | _ => none

/--
What is known of a store in the course of a run: the scopes that code may run in, with the
names it may read, write and declare there and those that lambdas made there may
write, and the arrays that values may refer to.
-/
structure Realm where
  World : Type
  Later : World -> World -> Prop
  Here : World -> Nat -> Prop
  Reads : World -> Nat -> String -> Prop
  Writes : World -> Nat -> String -> Prop
  Captures : World -> Nat -> String -> Prop
  Declares : World -> Nat -> String -> Prop
  Refers : World -> Nat -> Prop
  refl : ∀ w, Later w w
  trans : ∀ {w w' w''}, Later w w' -> Later w' w'' -> Later w w''
  here_later : ∀ {w w' s}, Later w w' -> Here w s -> Here w' s
  reads_later : ∀ {w w' s x}, Later w w' -> Here w s -> Reads w s x -> Reads w' s x
  writes_later : ∀ {w w' s x}, Later w w' -> Here w s -> Writes w s x -> Writes w' s x
  captures_later : ∀ {w w' s x}, Later w w' -> Here w s -> Captures w s x -> Captures w' s x
  writes_of_captures : ∀ {w s x}, Here w s -> Captures w s x -> Writes w s x
  declares_later : ∀ {w w' s x}, Later w w' -> Here w s -> Declares w s x -> Declares w' s x
  refers_later : ∀ {w w' ref}, Later w w' -> Refers w ref -> Refers w' ref

namespace Realm

variable (R : Realm)

/-- A node that may stand in a lambda that is made in a scope. -/
def Sealed (w : R.World) (s : Nat) (n : Node) : Prop :=
  (∀ x, readName? n = some x -> R.Reads w s x) ∧ ∀ x, writtenName? n = some x -> R.Captures w s x

/-- The body of a lambda that may be made in a scope. -/
def Inside (w : R.World) (s : Nat) (body : Body) : Prop :=
  ∀ x ∈ bodySlot .body body, Everywhere (R.Sealed w s) x.2

/-- A node that may be evaluated in a scope. -/
structure Admits (w : R.World) (s : Nat) (n : Node) : Prop where
  reads : ∀ x, readName? n = some x -> R.Reads w s x
  writes : ∀ x, writtenName? n = some x -> R.Writes w s x
  makes : ∀ span ps body, n = .expr (.lambda span ps body) -> R.Inside w s body

def Runs (w : R.World) (s : Nat) (n : Node) : Prop :=
  R.Admits w s n ∧ ∀ x, varName? n = some x -> R.Declares w s x

/-- Code that may be evaluated in a scope. -/
def Code (w : R.World) (s : Nat) (e : Expr) : Prop :=
  Everywhere (R.Admits w s) (.expr e)

def Script (w : R.World) (s : Nat) (t : Stmt) : Prop :=
  Everywhere (R.Runs w s) (.stmt t)

def Arm (w : R.World) (s : Nat) (c : Case) : Prop :=
  Everywhere (R.Admits w s) (.arm c)

mutual

def Val (w : R.World) : Value -> Prop
  | .array ref => R.Refers w ref
  | .object _ args => Vals w args
  | .closure _ _ body s => R.Here w s ∧ R.Inside w s body
  | .container _ _ held => Val w held
  | _ => True

def Vals (w : R.World) : List Value -> Prop
  | [] => True
  | v :: rest => Val w v ∧ Vals w rest

end

def Done (w : R.World) : Completion -> Prop
  | .returned v | .yielded v => R.Val w v
  | _ => True

def Carries (w : R.World) : Stop -> Prop
  | .thrown v | .exit v => R.Val w v
  | _ => True

/-- How a computation that did not want fuel ended. -/
def Ends (P : R.World -> α -> Prop) (w : R.World) : Except Stop α -> Prop
  | .ok a => P w a
  | .error stop => R.Carries w stop

/-- A scope of its own, for any code. -/
structure Free (w : R.World) (s : Nat) : Prop where
  here : R.Here w s
  reads : ∀ x, R.Reads w s x
  writes : ∀ x, R.Writes w s x
  captures : ∀ x, R.Captures w s x
  declares : ∀ x, R.Declares w s x

/-- A new scope inside another, for the code that may be evaluated there. -/
structure Opened (w : R.World) (outer : Nat) (w' : R.World) (s : Nat) : Prop where
  here : R.Here w' s
  reads : ∀ x, R.Reads w outer x -> R.Reads w' s x
  writes : ∀ x, R.Writes w outer x -> R.Writes w' s x
  captures : ∀ x, R.Captures w outer x -> R.Captures w' s x
  declares : ∀ x, R.Declares w' s x

variable {R} {w w' : R.World} {s : Nat}

theorem vals_iff {vs : List Value} : R.Vals w vs ↔ ∀ v ∈ vs, R.Val w v := by
  induction vs with
  | nil => simp [Vals]
  | cons v rest ih => simp [Vals, ih]

theorem Inside.later {body : Body} (h : R.Later w w') (hs : R.Here w s)
    (hbody : R.Inside w s body) : R.Inside w' s body :=
  fun x hx => Everywhere.imp (hbody x hx) fun _ hn =>
    ⟨fun y hy => R.reads_later h hs (hn.1 y hy), fun y hy => R.captures_later h hs (hn.2 y hy)⟩

theorem Admits.later {n : Node} (h : R.Later w w') (hs : R.Here w s) (hn : R.Admits w s n) :
    R.Admits w' s n where
  reads x hx := R.reads_later h hs (hn.reads x hx)
  writes x hx := R.writes_later h hs (hn.writes x hx)
  makes span ps body heq := (hn.makes span ps body heq).later h hs

/-- What may stand in a lambda may be evaluated. -/
theorem admits_of_sealed {n : Node} (hs : R.Here w s) (hn : Everywhere (R.Sealed w s) n) :
    Everywhere (R.Admits w s) n := by
  intro c hc
  obtain ⟨p, hp⟩ := mem_nodes.1 hc
  have hbelow := hn.at? hp
  have hself := hbelow.self
  refine ⟨hself.1, fun x hx => R.writes_of_captures hs (hself.2 x hx), ?_⟩
  rintro span ps body rfl
  have hslots := (everywhere_iff.1 hbelow).2
  simp only [slots, exprSlots, List.forall_mem_append] at hslots
  exact hslots.2

theorem Runs.later {n : Node} (h : R.Later w w') (hs : R.Here w s) (hn : R.Runs w s n) :
    R.Runs w' s n :=
  ⟨hn.1.later h hs, fun x hx => R.declares_later h hs (hn.2 x hx)⟩

theorem Code.later {e : Expr} (h : R.Later w w') (hs : R.Here w s) (he : R.Code w s e) :
    R.Code w' s e :=
  Everywhere.imp he fun _ hn => hn.later h hs

theorem Script.later {t : Stmt} (h : R.Later w w') (hs : R.Here w s) (ht : R.Script w s t) :
    R.Script w' s t :=
  Everywhere.imp ht fun _ hn => hn.later h hs

theorem code_of_inExpr {e : Expr} (h : InExpr (R.Admits w s) e) : R.Code w s e := by
  cases hmissing : e.isMissing with
  | false => exact (inExpr_iff hmissing).1 h
  | true =>
      obtain rfl := Expr.eq_missing hmissing
      exact everywhere_iff.2 ⟨⟨by simp [readName?], by simp [writtenName?], by simp⟩,
        by simp [slots, exprSlots]⟩

theorem script_of_inStmt {t : Stmt} (h : InStmt (R.Runs w s) t) : R.Script w s t := by
  cases hmissing : t.isMissing with
  | false => exact (inStmt_iff hmissing).1 h
  | true =>
      obtain rfl := Stmt.eq_missing hmissing
      exact everywhere_iff.2
        ⟨⟨⟨by simp [readName?], by simp [writtenName?], by simp⟩, by simp [varName?]⟩,
          by simp [slots, stmtSlots]⟩

/-- The expressions of code that may be executed may be evaluated. -/
theorem code_of_script {e : Expr} (h : InExpr (R.Runs w s) e) : R.Code w s e :=
  code_of_inExpr fun n hn => Everywhere.imp (h n hn) fun _ hc => hc.1

theorem Arm.later {c : Case} (h : R.Later w w') (hs : R.Here w s) (hc : R.Arm w s c) :
    R.Arm w' s c :=
  Everywhere.imp hc fun _ hn => hn.later h hs

theorem Arm.labels {c : Case} (h : R.Arm w s c) : ∀ e ∈ c.labels, R.Code w s e := by
  have hbelow := (everywhere_iff.1 h).2
  simp only [slots, List.forall_mem_append, forall_listed] at hbelow
  exact fun e he => code_of_inExpr (hbelow.1 e he)

theorem Arm.body {c : Case} (h : R.Arm w s c) : ∀ t ∈ c.body, InStmt (R.Admits w s) t := by
  have hbelow := (everywhere_iff.1 h).2
  simp only [slots, List.forall_mem_append, forall_listed] at hbelow
  exact hbelow.2

theorem Free.runs (h : R.Free w s) (n : Node) : R.Runs w s n where
  left := ⟨fun x _ => h.reads x, fun x _ => h.writes x, fun _ _ _ _ _ _ _ _ =>
    ⟨fun x _ => h.reads x, fun x _ => h.captures x⟩⟩
  right x _ := h.declares x

theorem Free.script (h : R.Free w s) (t : Stmt) : R.Script w s t :=
  fun _ _ => h.runs _

theorem Opened.inside {outer : Nat} (h : R.Opened w outer w' s) {body : Body}
    (hbody : R.Inside w outer body) : R.Inside w' s body :=
  fun x hx => Everywhere.imp (hbody x hx) fun _ hn =>
    ⟨fun y hy => h.reads y (hn.1 y hy), fun y hy => h.captures y (hn.2 y hy)⟩

theorem Opened.runs {outer : Nat} (h : R.Opened w outer w' s) {n : Node}
    (hn : R.Admits w outer n) : R.Runs w' s n where
  left := ⟨fun x hx => h.reads x (hn.reads x hx), fun x hx => h.writes x (hn.writes x hx),
    fun span ps body heq => h.inside (hn.makes span ps body heq)⟩
  right x _ := h.declares x

theorem Opened.code {outer : Nat} (h : R.Opened w outer w' s) {e : Expr}
    (he : R.Code w outer e) : R.Code w' s e :=
  Everywhere.imp he fun _ hn => (h.runs hn).1

theorem Opened.script {outer : Nat} (h : R.Opened w outer w' s) {t : Stmt}
    (ht : InStmt (R.Admits w outer) t) : R.Script w' s t :=
  script_of_inStmt fun n hn => (ht n hn).imp fun _ hc => h.runs hc

mutual

theorem val_later (h : R.Later w w') : (v : Value) -> R.Val w v -> R.Val w' v
  | .array _, hv => R.refers_later h hv
  | .object _ args, hv => vals_later h args hv
  | .closure _ _ _ _, hv => ⟨R.here_later h hv.1, hv.2.later h hv.1⟩
  | .container _ _ held, hv => val_later h held hv
  | .null, _ | .bool _, _ | .int _, _ | .float _, _ | .str _, _ => trivial

theorem vals_later (h : R.Later w w') : (vs : List Value) -> R.Vals w vs -> R.Vals w' vs
  | [], _ => trivial
  | v :: rest, hvs => ⟨val_later h v hvs.1, vals_later h rest hvs.2⟩

end

theorem Val.later {v : Value} (hv : R.Val w v) (h : R.Later w w') : R.Val w' v :=
  val_later h v hv

theorem Vals.later {vs : List Value} (hvs : R.Vals w vs) (h : R.Later w w') : R.Vals w' vs :=
  vals_later h vs hvs

theorem done_later (h : R.Later w w') {c : Completion} (hc : R.Done w c) : R.Done w' c := by
  cases c <;> first | trivial | exact Val.later hc h

theorem carries_later (h : R.Later w w') {stop : Stop} (hstop : R.Carries w stop) :
    R.Carries w' stop := by
  cases stop <;> first | trivial | exact Val.later hstop h

theorem val_ofLiteral (l : Literal) : R.Val w (.ofLiteral l) := by
  cases l <;> trivial

theorem val_zero {type : String} {v : Value} (h : v = .zero type) : R.Val w v := by
  unfold Value.zero at h
  split at h <;> cases h <;> trivial

theorem val_success {k : Kind} {v : Value} (h : R.Val w v) : R.Val w (.success k v) :=
  h

theorem val_alternate {k : Kind} {v : Value} (h : R.Val w v) : R.Val w (.alternate k v) := by
  show R.Val w (if k.alternateAccessor.isEmpty then .null else v)
  split
  · trivial
  · exact h

theorem val_headD {vs : List Value} (h : R.Vals w vs) : R.Val w (vs.headD .null) := by
  cases vs with
  | nil => trivial
  | cons v rest => exact h.1

end Realm

/-! ## Rules -/

/--
A relation of computations with their counterparts, which give the same values, is closed
under going on and under every access to the store.
-/
structure Logic (R : Realm) (ι : Type) where
  Rel : {α : Type} -> R.World -> (ι -> Run α) -> Run α -> (R.World -> α -> Prop) -> Prop
  /-- Host functions that keep to the rules. -/
  Hosts : HostFunction -> Prop
  /-- Whether a computation that wants fuel is related to every other. -/
  lax : Prop
  pure : ∀ {α : Type} {w} {a : α} {Q : R.World -> α -> Prop}, Q w a ->
    Rel w (fun _ => Pure.pure a) (Pure.pure a) Q
  stop : ∀ {α : Type} {w stop} {Q : R.World -> α -> Prop}, R.Carries w stop ->
    Rel w (fun _ => throw stop) (throw stop) Q
  counted : ∀ {w m} {x : ι -> Run Value} {y : Run Value} {Q : R.World -> Value -> Prop},
    Rel w x y Q -> Rel w (fun i => counted m (x i)) (counted m y) Q
  below : ∀ {α : Type} {w} {y : Run α} {Q : R.World -> α -> Prop}, lax ->
    Rel w (fun _ => throw .outOfFuel) y Q
  attempt : ∀ {α β : Type} {w} {x : ι -> Run α} {y : Run α} {P : R.World -> α -> Prop}
    {k : ι -> Except Stop α -> Run β} {k' : Except Stop α -> Run β} {Q : R.World -> β -> Prop},
    Rel w x y P ->
    (∀ w' ending, R.Later w w' -> R.Ends P w' ending ->
      Rel w' (fun i => k i ending) (k' ending) Q) ->
    Rel w (fun i => (x i).attempt (k i)) (y.attempt k') Q
  text : ∀ {w v}, R.Val w v -> Rel w (fun _ => Run.text v) (Run.text v) fun _ _ => True
  find : ∀ {w s x}, R.Here w s -> R.Reads w s x ->
    Rel w (fun _ => Run.find s x) (Run.find s x) fun w found => ∀ v, found = some v -> R.Val w v
  rebind : ∀ {w f span x v}, R.Here w f.scope -> R.Writes w f.scope x -> R.Val w v ->
    Rel w (fun _ => rebind f span x v) (rebind f span x v) fun _ _ => True
  define : ∀ {w s x v}, R.Here w s -> R.Declares w s x -> R.Val w v ->
    Rel w (fun _ => Run.define s x v) (Run.define s x v) fun _ _ => True
  root : ∀ {w}, Rel w (fun _ => Run.push none) (Run.push none) R.Free
  push : ∀ {w outer}, R.Here w outer ->
    Rel w (fun _ => Run.push (some outer)) (Run.push (some outer)) (R.Opened w outer)
  alloc : ∀ {w vs}, R.Vals w vs -> Rel w (fun _ => Run.alloc vs) (Run.alloc vs) R.Val
  element : ∀ {w a i}, R.Val w a ->
    Rel w (fun _ => element a i) (element a i) fun w place => R.Refers w place.1
  readElement : ∀ {w ref i}, R.Refers w ref ->
    Rel w (fun _ => readElement ref i) (readElement ref i) R.Val
  writeElement : ∀ {w ref i v}, R.Refers w ref -> R.Val w v ->
    Rel w (fun _ => writeElement ref i v) (writeElement ref i v) fun _ _ => True
  size : ∀ {w ref}, R.Refers w ref -> Rel w (fun _ => Run.size ref) (Run.size ref) fun _ _ => True
  close : ∀ {w params body s}, R.Here w s -> R.Inside w s body ->
    Rel w (fun _ => Run.close params body s) (Run.close params body s) R.Val
  host : ∀ {w name fn args}, Hosts fn -> R.Vals w args ->
    Rel w (fun _ => callHost name fn args) (callHost name fn args) R.Val

namespace Logic

open Realm

variable {R : Realm} {ι : Type} {L : Logic R ι} {w : R.World} {α β : Type}

theorem bind {x : ι -> Run α} {y : Run α} {P : R.World -> α -> Prop} {g : ι -> α -> Run β}
    {g' : α -> Run β} {Q : R.World -> β -> Prop} (hx : L.Rel w x y P)
    (hg : ∀ w' a, R.Later w w' -> P w' a -> L.Rel w' (fun i => g i a) (g' a) Q) :
    L.Rel w (fun i => x i >>= g i) (y >>= g') Q := by
  simp only [Run.bind_eq]
  refine L.attempt hx fun w' ending hlater hends => ?_
  cases ending with
  | ok a => exact hg w' a hlater hends
  | error stop => exact L.stop hends

/-- A computation that is its own counterpart. -/
abbrev Self (L : Logic R ι) (w : R.World) (x : Run α) (Q : R.World -> α -> Prop) : Prop :=
  L.Rel w (fun _ => x) x Q

theorem fail {f : Failure} {Q : R.World -> α -> Prop} : L.Self w (Run.fail f) Q :=
  L.stop trivial

theorem raise {className message : String} {Q : R.World -> α -> Prop} :
    L.Self w (Run.raise className message) Q :=
  L.stop ⟨trivial, trivial⟩

/-- A failure that shows a value. -/
theorem fail_text {v : Value} {f : String -> Failure} {Q : R.World -> α -> Prop}
    (hv : R.Val w v) : L.Self w (do Run.fail (f (← Run.text v))) Q :=
  L.bind (L.text hv) fun _ _ _ _ => L.fail

end Logic

end EarlyExit.Eval
