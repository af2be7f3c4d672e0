import EarlyExit.Proofs.Eval.Growth
import EarlyExit.Proofs.Eval.Stages
import EarlyExit.Proofs.Expansion.Selected

/-!
# Hoisting in stages

What hoisting puts in front of an expression and what it leaves of it stage the evaluation of
the expression.  An operand is left in place only where nothing that is evaluated before it is
read can change what it gives: what it reads is written neither by the expression nor by a
closure that the expression may run.
-/

namespace EarlyExit.Eval

open Node Expansion Run Realm

/-! ## What is relied on -/

/-- The variable that a compound assignment reads in place, before its value is evaluated. -/
def amendedName? : Node -> Option String
  | .expr (.assign _ (.ident _ x _) op value) =>
      if op.isCompound && !(writtenNames value).contains x then some x else none
  | _ => none

/-- A machine that runs sites natively and knows their kinds. -/
structure Native (o : Options) (m : Machine) : Prop where
  native : m.native = true
  sentinel : m.sentinel = o.sentinel
  legible : ∀ e k, o.registry.resolve e = some k -> Legible m k
  hosts : ∀ name fn, m.hosts name = some fn -> Confined fn

/-- Whenever evaluation comes to a marked site, its receiver gives a container of its kind. -/
def Served (m : Machine) (f : Frame) (marks : Marks) (e : Expr) (st : Store) : Prop :=
  ∀ p k, (p, k) ∈ marks.sites -> ∀ s receiver name args t st₁,
    Comes m f e st p (.call s receiver name args t) st₁ -> ∀ c st₂,
    callee (fully m) f receiver st₁ = .ok c st₂ ->
    ∃ alternate held, c = .value (.container k alternate held)

theorem Served.turn {m : Machine} {f : Frame} {marks : Marks} {e d : Expr} {st st₁ : Store}
    {slot : Slot} (h : Served m f marks e st) (hturn : Turn m f e st slot d st₁) :
    Served m f (marks.under slot) d st₁ :=
  fun p k hp s receiver name args t st₂ hcomes =>
    h (slot :: p) k (Marks.mem_under_sites.1 hp) s receiver name args t st₂ (.there hturn hcomes)

namespace Staging

variable (o : Options) (c : Setting) (S : Staging)

/-- The machine runs sites natively, and the classes of kinds are not hidden by variables. -/
structure Fits : Prop where
  native : Native o S.machine
  scope : S.frame.scope = S.view.home
  exit : S.exit = c.exit
  classes : ∀ e k, o.registry.resolve e = some k ->
    S.view.kept k.name ∧ S.view.seen k.name = none ∧ S.view.hidden k.name = false
  stays : S.strict -> ∀ name fn, S.machine.hosts name = some fn -> ∀ args, Stays (fn args)

/-- What the expression does not write is watched where it may be read in place. -/
structure Suits (n : Node) : Prop where
  read : ∀ x, readName? n = some x ->
    S.view.hidden x = false ∧ (x ∉ c.written -> S.view.kept x)
  write : ∀ x, writtenName? n = some x ->
    S.view.hidden x = false ∧ (S.view.kept x -> S.view.seen x = none)
  amended : ∀ x, amendedName? n = some x -> S.view.guarded x
  plain : ∀ span ps body, n ≠ .expr (.lambda span ps body)
  /-- Only one of the two lists of an array creation is evaluated. -/
  array : ∀ s t dims elements listed, n = .expr (.newArray s t dims elements listed) ->
    dims = [] ∨ elements = [] ∧ listed = false

structure Ready (w : Known) (marks : Marks) (e : Expr) (st : Store) : Prop where
  suits : InExpr (S.Suits c) e
  served : Served S.machine S.frame marks e st
  accounted : S.strict -> Accounted S.machine.sentinel marks (.expr e)
  here : S.view.realm.Here w S.view.home
  bound : ∀ x ∈ c.written, (st.get? S.view.home x).isSome = true

/-- Expressions of a list slot that are about to be evaluated, from some number on. -/
structure AllReady (w : Known) (marks : Marks) (slot : Nat -> Slot) (i : Nat) (es : List Expr)
    (st : Store) : Prop where
  suits : ∀ e ∈ es, InExpr (S.Suits c) e
  served : ∀ j e, es[j]? = some e -> ∀ vs st₁,
    (fully S.machine).evalAll S.frame (es.take j) st = .ok vs st₁ ->
    Served S.machine S.frame (marks.under (slot (i + j))) e st₁
  accounted : S.strict -> ∀ j e, es[j]? = some e ->
    Accounted S.machine.sentinel (marks.under (slot (i + j))) (.expr e)
  here : S.view.realm.Here w S.view.home
  bound : ∀ x ∈ c.written, (st.get? S.view.home x).isSome = true

end Staging

theorem Confined.keeps {fn : HostFunction} (h : Confined fn) (P : Passage) (args : List Value) :
    P.Keeps (fn args) := by
  obtain ⟨answer, hrun, _⟩ := h
  refine .of_scopes fun st => ?_
  rw [hrun, storeOf_ended]
  exact ⟨rfl, rfl⟩

section Growth

variable {m : Machine} (hm : ∀ name fn, m.hosts name = some fn -> Confined fn) (f : Frame)

include hm

theorem Grows.evaluated {e : Expr} {st st₁ : Store} {v : Value}
    (h : evalFully m f e st = .ok v st₁) : Grows st st₁ := by
  have hgrowing := growth.keeps_evalFully (fun name fn hfn => (hm name fn hfn).keeps growth) f e st
  rw [h] at hgrowing
  exact hgrowing

theorem Grows.called {e : Expr} {st st₁ : Store} {c : Callee}
    (h : callee (fully m) f e st = .ok c st₁) : Grows st st₁ := by
  rcases callee_eq m f e st with hsame | ⟨c', err, hc, _, _⟩
  · obtain ⟨ending, st₂, hend⟩ := exists_ended (evalFully m f e st)
    have hvalue : _ = ended (.ok c) st₁ := Same.eq_ended (h ▸ hsame).symm (ok_ne_outOfFuel c)
    rw [bind_ended hend] at hvalue
    cases ending with
    | error stop => cases hvalue
    | ok v =>
        cases hvalue
        exact .evaluated hm f hend
  · cases h.symm.trans hc
    exact .refl st

end Growth

namespace Staging

variable {o : Options} {c : Setting} {S : Staging} {ns ns' : Names} {w w₁ : Known}
  {m : Marks} {e : Expr} {st st₁ : Store}

theorem Suits.admits {n : Node} (h : S.Suits c n) (w : Known) (s : Nat) :
    S.view.realm.Admits w s n where
  reads x hx _ _ _ := (h.read x hx).1
  writes x hx _ _ := ⟨fun _ => (h.write x hx).1, fun _ => (h.write x hx).2⟩
  makes span ps body heq := absurd heq (h.plain span ps body)

theorem Fits.code (h : InExpr (S.Suits c) e) (w : Known) :
    S.view.realm.Code w S.view.home e :=
  code_of_inExpr fun n hn => (h n hn).imp fun _ hc => hc.admits w _

theorem Ready.turn {slot : Slot} {d : Expr} (h : S.Ready c w m e st)
    (hsuits : InExpr (S.Suits c) d) (hget : (Node.expr e).get? slot = Node.ofExpr? d)
    (hopen : isOpen slot = true) (hturn : Turn S.machine S.frame e st slot d st₁)
    (hlater : S.view.realm.Later w w₁) (hgrows : Grows st st₁) :
    S.Ready c w₁ (m.under slot) d st₁ where
  suits := hsuits
  served := h.served.turn hturn
  accounted hs := (h.accounted hs).under hget hopen
  here := S.view.realm.here_later hlater h.here
  bound x hx := hgrows.bound (h.bound x hx)

/-- A part without a site may be evaluated whenever the whole has been begun. -/
theorem Ready.still {slot : Slot} {d : Expr} (h : S.Ready c w m e st)
    (hsuits : InExpr (S.Suits c) d) (hget : (Node.expr e).get? slot = Node.ofExpr? d)
    (hopen : isOpen slot = true) (hcold : (m.under slot).sites = [])
    (hlater : S.view.realm.Later w w₁) (hgrows : Grows st st₁) :
    S.Ready c w₁ (m.under slot) d st₁ where
  suits := hsuits
  served p k hp := by simp [hcold] at hp
  accounted hs := (h.accounted hs).under hget hopen
  here := S.view.realm.here_later hlater h.here
  bound x hx := hgrows.bound (h.bound x hx)

/-- Code runs as it does without the statements in front. -/
theorem Fits.alike (hS : S.Fits o c) (h : String -> Option Value) :
    (S.view.having h).comparison.Alike (fun _ => fully S.machine) (fully S.machine) :=
  (S.view.having h).alike_self hS.native.hosts

theorem Fits.here (hS : S.Fits o c) (h : S.view.realm.Here w S.view.home) :
    S.view.realm.Here w S.frame.scope := by
  rw [hS.scope]
  exact h

theorem Fits.code_frame (hS : S.Fits o c) (h : InExpr (S.Suits c) e) (w : Known) :
    S.view.realm.Code w S.frame.scope e := by
  rw [hS.scope]
  exact Fits.code h w

/-- An expression without a site is its own rest. -/
theorem Ready.cold (hS : S.Fits o c) (h : S.Ready c w m e st) (hcold : m.sites = []) :
    S.Staged ns w (evalFully S.machine S.frame e) st [] (evalFully S.machine S.frame e)
      S.view.realm.Val := by
  refine staged_self (fun h₀ w₁ hlater => ?_) fun hs =>
    stays_evalFully (hS.stays hs) ((h.accounted hs).cold hcold)
  exact (hS.alike h₀).eval (hS.here (S.view.realm.here_later hlater h.here))
    (hS.code_frame h.suits w₁)

end Staging

/-! ## Receivers -/

theorem callee_plain {e : Expr} (he : isAtom e = false) (r : Inner) (f : Frame) :
    callee r f e = r.eval f e >>= fun v => pure (.value v) := by
  cases e <;> first | rfl | cases he

/-- Anything but a constant or a name is called on its value. -/
theorem value_of_plain {e : Expr} (he : isAtom e = false) {r : Inner} {f : Frame}
    {st st₁ : Store} {c : Callee} (h : callee r f e st = .ok c st₁) : ∃ v, c = .value v := by
  rw [callee_plain he] at h
  obtain ⟨ending, st₂, hend⟩ := exists_ended (r.eval f e st)
  rw [bind_ended hend] at h
  cases ending with
  | error stop => cases h
  | ok v =>
      cases h
      exact ⟨v, rfl⟩

theorem callee_ident (r : Inner) (f : Frame) (s : Span) (x t : String) (st : Store) :
    callee r f (.ident s x t) st = .ok ((st.get? f.scope x).elim (.named x) .value) st :=
  rfl

theorem Logic.Alike.callee {R : Realm} {ι : Type} {L : Logic R ι} {w : R.World} {r : ι -> Inner}
    {r' : Inner} (hr : L.Alike r r') {f : Frame} {e : Expr} (hf : R.Here w f.scope)
    (he : R.Code w f.scope e) :
    L.Rel w (fun i => Eval.callee (r i) f e) (Eval.callee r' f e) R.Callable := by
  cases e with
  | missing => exact L.pure trivial
  | ident s x t =>
      refine L.bind (L.find hf (he.self.reads x rfl)) fun w₁ found _ hfound => L.pure ?_
      cases found with
      | none => trivial
      | some v => exact hfound v rfl
  | _ => exact L.bind (hr.eval hf he) fun _ _ _ hv => L.pure hv

namespace Staging

variable {o : Options} {c : Setting} {S : Staging} {ns ns' : Names} {w w₁ : Known}
  {m : Marks} {e v : Expr} {st st₁ : Store} {new : List Stmt}

/-- What stages an expression stages what a call on it is made on. -/
theorem Ready.staged_callee (hS : S.Fits o c) (h : S.Ready c w m e st)
    (hatom : isAtom e = true ∨ isAtom v = true -> v = e ∧ new = [])
    (hx : S.Staged ns w (evalFully S.machine S.frame e) st new (evalFully S.machine S.frame v)
      S.view.realm.Val) :
    S.Staged ns w (callee (fully S.machine) S.frame e) st new
      (callee (fully S.machine) S.frame v) S.view.realm.Callable := by
  by_cases hplain : isAtom e = true ∨ isAtom v = true
  · obtain ⟨rfl, rfl⟩ := hatom hplain
    have hself : isAtom v = true := hplain.elim id id
    refine staged_self (fun h₀ w₁ hlater => ?_) fun _ => ?_
    · exact (hS.alike h₀).callee (hS.here (S.view.realm.here_later hlater h.here))
        (hS.code_frame h.suits w₁)
    · cases v with
      | missing => exact stays_pure _
      | ident => exact (stays_get.bind fun _ => stays_pure _).bind fun _ => stays_pure _
      | literal =>
          exact (stays_of_agree (evalFully_step _ _ _) (stays_pure _)).bind fun _ => stays_pure _
      | lambda span ps body => exact absurd rfl ((h.suits _ rfl).self.plain span ps body)
      | _ => cases hself
  · obtain ⟨he, hv⟩ := not_or.1 hplain
    rw [callee_plain (by simpa using he), callee_plain (by simpa using hv)]
    exact hx.finish (fun a _ h₀ w₁ _ hval => (S.view.having h₀).comparison.pure hval)
      fun _ _ _ => stays_pure _

/-- A variable that is watched is settled where it stands. -/
theorem Ready.watched (hS : S.Fits o c) {s : Span} {x t : String}
    (h : S.Ready c w m (.ident s x t) st) (hcold : m.sites = []) (hkept : S.view.kept x) :
    S.Settled ns ns' w (evalFully S.machine S.frame (.ident s x t)) st []
        (evalFully S.machine S.frame (.ident s x t)) S.view.realm.Val ∧
      S.Settled ns ns' w (callee (fully S.machine) S.frame (.ident s x t)) st []
        (callee (fully S.machine) S.frame (.ident s x t)) S.view.realm.Callable := by
  have hself : S.Staged ns w _ st [] _ _ := h.cold hS hcold
  have hcallee := h.staged_callee hS (fun _ => ⟨rfl, rfl⟩) hself
  have hseen {h₀ : String -> Option Value} {w : Known} {st st' : Store}
      (hsees : (S.view.having h₀).Sees w st st') : st'.get? S.frame.scope x = S.view.seen x := by
    rw [hS.scope]
    exact View.Sees.get?_kept hsees hkept ((h.suits _ rfl).self.read x rfl).1
  refine ⟨?_, hcallee.settled (.inl ⟨(S.view.seen x).elim (.named x) .value,
    fun _ _ _ st' hsees => by rw [callee_ident, hseen hsees]⟩)⟩
  cases hvalue : S.view.seen x with
  | none => exact hself.settled (.inr fun _ _ _ st' hsees =>
      ⟨_, evalFully_unbound ((hseen hsees).trans hvalue) s t⟩)
  | some a => exact hself.settled (.inl ⟨a, fun _ _ _ st' hsees =>
      evalFully_ident ((hseen hsees).trans hvalue) s t⟩)

/-- A stable expression is settled where it stands. -/
theorem Ready.stable (hS : S.Fits o c) (h : S.Ready c w m e st) (hcold : m.sites = [])
    (hstable : isStable c.written e = true) :
    S.Settled ns ns' w (evalFully S.machine S.frame e) st [] (evalFully S.machine S.frame e)
        S.view.realm.Val ∧
      S.Settled ns ns' w (callee (fully S.machine) S.frame e) st []
        (callee (fully S.machine) S.frame e) S.view.realm.Callable := by
  have hself : S.Staged ns w _ st [] _ _ := h.cold hS hcold
  have hcallee := h.staged_callee hS (fun _ => ⟨rfl, rfl⟩) hself
  cases e with
  | missing => exact ⟨hself.settled (.inr fun _ _ _ _ _ => ⟨_, evalFully_missing _⟩),
      settled_pure fun _ _ => trivial⟩
  | literal s l t =>
      exact ⟨hself.settled (.inl ⟨_, fun _ _ _ st' _ => evalFully_literal s l t st'⟩),
        hcallee.settled (.inl ⟨_, fun _ _ _ st' _ => callee_of_eval (evalFully_literal s l t st')⟩)⟩
  | lambda span ps body => exact absurd rfl ((h.suits _ rfl).self.plain span ps body)
  | ident s x t =>
      exact h.watched hS hcold (((h.suits _ rfl).self.read x rfl).2 (by simpa [isStable] using hstable))
  | _ => cases hstable

end Staging

/-! ## Supplies of names -/

/-- What has been handed out stays so. -/
theorem drawn_later {ns : Names} {x : String} (h : ns.Drawn x) (count : Nat) :
    (ns.later count).Drawn x := by
  induction count generalizing ns with
  | zero => exact h
  | succ count ih => exact ih h.fresh

/-- Names are handed out from one supply to the other, and this holds where they are hidden. -/
def Prepares (ns ns' : Names) (P : Staging -> Prop) : Prop :=
  ∃ count, ns' = ns.later count ∧
    ∀ S : Staging, (∀ x ∈ ns.several count, S.view.hidden x = true) -> P S

namespace Prepares

variable {ns ns' ns'' : Names} {P Q : Staging -> Prop}

theorem refl (h : ∀ S, P S) : Prepares ns ns P :=
  ⟨0, rfl, fun S _ => h S⟩

theorem fresh (h : ∀ S : Staging, S.view.hidden ns.fresh.1 = true -> P S) :
    Prepares ns ns.fresh.2 P :=
  ⟨1, rfl, fun S hS => h S (hS _ (by simp [Names.several]))⟩

theorem mono (h : Prepares ns ns' P) (hPQ : ∀ S, P S -> Q S) : Prepares ns ns' Q := by
  obtain ⟨count, hns, hP⟩ := h
  exact ⟨count, hns, fun S hS => hPQ S (hP S hS)⟩

/-- What holds of all stagings that hide the same names. -/
theorem among (h : Prepares ns ns' P)
    (hPQ : ∀ S, (∀ S' : Staging, S'.view.hidden = S.view.hidden -> P S') -> Q S) :
    Prepares ns ns' Q := by
  obtain ⟨count, hns, hP⟩ := h
  exact ⟨count, hns, fun S hS => hPQ S fun S' heq => hP S' fun x hx => by rw [heq, hS x hx]⟩

theorem trans (h : Prepares ns ns' P) (h' : Prepares ns' ns'' Q) :
    Prepares ns ns'' fun S => P S ∧ Q S := by
  obtain ⟨count, rfl, hP⟩ := h
  obtain ⟨more, rfl, hQ⟩ := h'
  refine ⟨count + more, (ns.later_add count more).symm, fun S hS => ?_⟩
  rw [ns.several_add] at hS
  exact ⟨hP S fun x hx => hS x (by simp [hx]), hQ S fun x hx => hS x (by simp [hx])⟩

theorem drawn (h : Prepares ns ns' P) {x : String} (hx : ns.Drawn x) : ns'.Drawn x := by
  obtain ⟨count, rfl, _⟩ := h
  exact drawn_later hx count

end Prepares

/-! ## Hoisted expressions and operands -/

/-- The values of two operands, such as the array and the position of an element. -/
noncomputable def evalBoth (m : Machine) (f : Frame) (d e : Expr) : Run (Value × Value) := do
  let a ← evalFully m f d
  let b ← evalFully m f e
  return (a, b)

theorem evalBoth_bind (m : Machine) (f : Frame) (d e : Expr) (g : Value -> Value -> Run β) :
    (evalBoth m f d e >>= fun x => g x.1 x.2) =
      evalFully m f d >>= fun a => evalFully m f e >>= g a := by
  simp [evalBoth]

def Realm.Pair (R : Realm) (w : R.World) (x : Value × Value) : Prop :=
  R.Val w x.1 ∧ R.Val w x.2

/--
What is put in front of an expression and what is left of it stage the expression.  If it is
a site, it is settled; if it is an element, its operands are staged.
-/
structure Hoists (o : Options) (c : Setting) (m : Marks) (ns : Names) (e v : Expr)
    (new : List Stmt) (ns' : Names) : Prop where
  dead : m.isHot = false -> v = e ∧ new = []
  atom : isAtom e = true ∨ isAtom v = true -> v = e ∧ new = []
  cold : isAtom e = true -> m.sites = []
  stages : Prepares ns ns' fun S => ∀ w st, S.Fits o c -> S.Ready c w m e st ->
    S.Staged ns w (evalFully S.machine S.frame e) st new (evalFully S.machine S.frame v)
        S.view.realm.Val ∧
      (m.kind?.isSome = true -> S.Settled ns ns' w (evalFully S.machine S.frame e) st new
        (evalFully S.machine S.frame v) S.view.realm.Val)
  placed : m.isHot = true -> ∀ s array position t, e = .index s array position t ->
    ∃ array' position', v = .index s array' position' t ∧
      Prepares ns ns' fun S => ∀ w st, S.Fits o c -> S.Ready c w m e st ->
        S.Staged ns w (evalBoth S.machine S.frame array position) st new
          (evalBoth S.machine S.frame array' position') S.view.realm.Pair

/-- An operand is staged, and settled where it has to wait for a later one. -/
structure Settles (o : Options) (c : Setting) (m : Marks) (later : Bool) (ns : Names) (e v : Expr)
    (new : List Stmt) (ns' : Names) : Prop where
  dead : m.isHot = false -> later = false -> v = e ∧ new = []
  stages : Prepares ns ns' fun S => ∀ w st, S.Fits o c -> S.Ready c w m e st ->
    (S.Staged ns w (evalFully S.machine S.frame e) st new (evalFully S.machine S.frame v)
        S.view.realm.Val ∧
      S.Staged ns w (callee (fully S.machine) S.frame e) st new
        (callee (fully S.machine) S.frame v) S.view.realm.Callable) ∧
    (later = true ->
      S.Settled ns ns' w (evalFully S.machine S.frame e) st new (evalFully S.machine S.frame v)
        S.view.realm.Val ∧
      S.Settled ns ns' w (callee (fully S.machine) S.frame e) st new
        (callee (fully S.machine) S.frame v) S.view.realm.Callable)

section Operands

variable {o : Options} {c : Setting} {m : Marks} {ns ns' : Names} {e v : Expr} {new : List Stmt}

theorem kind?_of_cold (h : m.sites = []) : m.kind? = none := by
  rw [Marks.kind?, h]
  rfl

theorem Hoists.refl (h : m.sites = []) (hhot : m.isHot = false) : Hoists o c m ns e e [] ns where
  dead _ := ⟨rfl, rfl⟩
  atom _ := ⟨rfl, rfl⟩
  cold _ := h
  stages := .refl fun _ w st hS hready =>
    ⟨hready.cold hS h, fun hsome => by simp [kind?_of_cold h] at hsome⟩
  placed h := by simp [hhot] at h

/-- An operand that has to wait and is not stable is bound to a variable. -/
theorem Hoists.spilled (h : Hoists o c m ns e v new ns')
    (hunstable : isStable c.written v = false) :
    Settles o c m true ns e (.ident v.span ns'.fresh.1 v.staticType)
      (new ++ [.var v.span ns'.fresh.1 v.staticType v]) ns'.fresh.2 := by
  have hfilled : v.isMissing = false := by
    cases v with
    | missing => cases hunstable
    | _ => rfl
  refine ⟨nofun, (h.stages.trans (.fresh fun _ hhidden => hhidden)).mono
    fun S ⟨hstages, hhidden⟩ w st hS hready => ?_⟩
  have hsettled : S.Settled ns _ w _ st _ _ _ := fun h₀ =>
    ((hstages w st hS hready).1 h₀).spilled hS.scope hfilled hhidden
      (fun hdrawn => ns'.fresh_not_drawn (h.stages.drawn hdrawn)) ns'.fresh_drawn v.span
      v.staticType
  have hcallee := hsettled.callee fun a st₁ ha => ?_
  · exact ⟨⟨hsettled.staged, hcallee.staged⟩, fun _ => ⟨hsettled, hcallee⟩⟩
  · cases he : isAtom e with
    | false => exact value_of_plain he ha
    | true =>
        -- a name that is not stable is written, so that it means a variable and no class
        obtain ⟨rfl, rfl⟩ := h.atom (.inl he)
        cases v with
        | ident s x t =>
            have hwritten : x ∈ c.written := by simpa [isStable] using hunstable
            obtain ⟨u, hu⟩ := Option.isSome_iff_exists.1 (hready.bound x hwritten)
            rw [callee_ident, hS.scope, hu] at ha
            cases ha
            exact ⟨u, rfl⟩
        | _ => simp [isStable, isAtom] at hunstable he

/-- A hoisted operand is settled where it has to wait. -/
theorem Hoists.operand (h : Hoists o c m ns e v new ns') (later : Bool) :
    Emits ns' (c.operand m later v) fun v' more ns'' =>
      Settles o c m later ns e v' (new ++ more) ns'' := by
  unfold Setting.operand settle
  by_cases hwaits : (later && m.kind?.isNone) = true
  · obtain ⟨rfl, _⟩ : later = true ∧ m.kind? = none := by simpa using hwaits
    rw [if_pos hwaits]
    split
    next hstable =>
      obtain ⟨rfl, rfl⟩ := h.atom (.inr (isAtom_of_stable hstable))
      refine .pure ⟨nofun, h.stages.mono fun S _ w st hS hready => ?_⟩
      have hsettled : S.Settled ns ns' w _ st [] _ _ ∧ S.Settled ns ns' w _ st [] _ _ :=
        hready.stable hS (h.cold (isAtom_of_stable hstable)) hstable
      exact ⟨⟨hsettled.1.staged, hsettled.2.staged⟩, fun _ => hsettled⟩
    next hunstable => exact .spill (h.spilled (by simpa using hunstable))
  · rw [if_neg hwaits]
    refine .pure ⟨fun hhot _ => by simpa using h.dead hhot,
      h.stages.mono fun S hstages w st hS hready => ?_⟩
    rw [List.append_nil]
    obtain ⟨hstaged, hsettled⟩ := hstages w st hS hready
    refine ⟨⟨hstaged, hready.staged_callee hS h.atom hstaged⟩, fun hlater => ?_⟩
    have hsome : m.kind?.isSome = true := by
      cases hkind : m.kind? with
      | none => simp [hlater, hkind] at hwaits
      | some k => rfl
    have hplain : isAtom e = false := by
      cases he : isAtom e with
      | false => rfl
      | true => simp [kind?_of_cold (h.cold he)] at hsome
    exact ⟨hsettled hsome, (hsettled hsome).callee fun a st₁ ha => value_of_plain hplain ha⟩

end Operands

end EarlyExit.Eval
