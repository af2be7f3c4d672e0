import EarlyExit.Proofs.Eval.Amends

/-!
# Hoisting keeps what an anchor does

Hoisting the marked sites of an expression stages its evaluation, by recursion on the
expression.  So the statements in front of an anchor and what is left of it do what the anchor
does.
-/

namespace EarlyExit.Eval

open Node Expansion Run Realm

section Recursion

variable {o : Options} {stays : Span -> Kind -> Prop} {ns : Names}

theorem hoists_cold {e : Expr} {m : Marks} (h : Selected o stays (.expr e) m) (c : Setting)
    (hcold : (!m.isHot) = true) : Emits ns (pure e) fun v new ns' => Hoists o c m ns e v new ns' := by
  have hcold : m.isHot = false := by simpa using hcold
  exact .pure (.refl (h.isHot_eq_false.1 hcold) hcold)

mutual

/-- Hoisting the marked sites of an expression stages its evaluation. -/
theorem hoist_hoists (c : Setting) : (e : Expr) -> (m : Marks) -> Selected o stays (.expr e) m ->
    (ns : Names) -> Emits ns (hoist c m e) fun v new ns' => Hoists o c m ns e v new ns'
  | .call s receiver name args type, m, hm, ns => by
      rw [hoist]
      split
      next hcold => exact hoists_cold hm c hcold
      next hhot =>
        have hhot : m.isHot = true := by simpa using hhot
        have hr := hm.under (get?_receiver s receiver name args type)
        refine .bind (hoist_hoists c receiver _ hr ns) fun r new ns₁ hv => ?_
        split
        next kind hkind =>
          obtain ⟨rfl, rfl, hresolve⟩ := siteKind?_call (hm.kind?_some hkind)
          exact .hoistSite (hoists_site hhot hkind hresolve hv)
        next hkind =>
          refine .bind (hv.operand _) fun r' more ns₂ hr' => ?_
          refine .bind (hoistList_hoists c false args m 0 hm
            (lists_args s receiver name args type) ns₂) fun vs rest ns' hvs => .pure ?_
          rw [List.append_nil, ← List.append_assoc]
          exact hoists_call hhot hkind hr' hvs
  | .field s target name type, m, hm, ns => by
      rw [hoist]
      split
      next hcold => exact hoists_cold hm c hcold
      next hhot =>
        have ht := hm.under (get?_target s target name type)
        refine .bind (hoist_hoists c target _ ht ns) fun v new ns' hv => .pure ?_
        rw [List.append_nil]
        exact hoists_field (by simpa using hhot) (hm.kind?_eq_none rfl) hv
  | .index s array position type, m, hm, ns => by
      rw [hoist]
      split
      next hcold => exact hoists_cold hm c hcold
      next hhot =>
        have ha := hm.under (get?_array s array position type)
        have hp := hm.under (get?_position s array position type)
        refine .bind (hoist_hoists c array _ ha ns) fun a new ns₁ hv => ?_
        refine .bind (hv.operand _) fun a' more ns₂ ha' => ?_
        refine .bind (hoist_hoists c position _ hp ns₂) fun p rest ns' hp' => .pure ?_
        rw [List.append_nil, ← List.append_assoc]
        exact hoists_index (by simpa using hhot) (hm.kind?_eq_none rfl) ha' hp'
  | .newArray s elemType dims elements isListed, m, hm, ns => by
      rw [hoist]
      split
      next hcold => exact hoists_cold hm c hcold
      next hhot =>
        refine .bind (hoistList_hoists c _ dims m 0 hm
          (lists_dims s elemType dims elements isListed) ns) fun ds new ns₁ hds => ?_
        refine .bind (hoistList_hoists c false elements m 0 hm
          (lists_elements s elemType dims elements isListed) ns₁) fun es more ns' hes => .pure ?_
        rw [List.append_nil]
        exact hoists_newArray (by simpa using hhot) (hm.kind?_eq_none rfl) hds hes
  | .newObject s className args, m, hm, ns => by
      rw [hoist]
      split
      next hcold => exact hoists_cold hm c hcold
      next hhot =>
        refine .bind (hoistList_hoists c false args m 0 hm (lists_newObject s className args) ns)
          fun vs new ns' hvs => .pure ?_
        rw [List.append_nil]
        exact hoists_newObject (by simpa using hhot) (hm.kind?_eq_none rfl) hvs
  | .unary s op operand trailing, m, hm, ns => by
      rw [hoist]
      split
      next hcold => exact hoists_cold hm c hcold
      next hhot =>
        have hhot : m.isHot = true := by simpa using hhot
        have hkind := hm.kind?_eq_none rfl
        have ho := hm.under (get?_operand s op operand trailing)
        refine .bind (hoist_hoists c operand _ ho ns) fun v new ns' hv => .pure ?_
        rw [List.append_nil]
        cases hop : op.isStep with
        | false => exact hoists_unary hhot hkind hop hv
        | true =>
            obtain ⟨slot, d, hslot, hsome⟩ := hm.exists_under rfl hhot
            obtain ⟨rfl, _⟩ : slot = .operand ∧ _ := by
              simpa only [slots, exprSlots, mem_single] using hslot
            have hoperand := hm.isHotAt (get?_eq_some.2 hslot) hsome
            exact hoists_step hhot hkind hop hsome ((Marks.isHot_under m _).trans hoperand) hv
  | .binary s left op right, m, hm, ns => by
      rw [hoist]
      split
      next hcold => exact hoists_cold hm c hcold
      next hhot =>
        have hhot : m.isHot = true := by simpa using hhot
        have hkind := hm.kind?_eq_none rfl
        have hl := hm.under (get?_left s left op right)
        have hr := hm.under (get?_right s left op right)
        refine .bind (hoist_hoists c left _ hl ns) fun l new ns₁ hv => ?_
        split
        next hshort =>
          have hnone := hm.under_barrier .right (by simp [shape, hshort, Shape.passes])
          refine .pure ?_
          rw [List.append_nil]
          exact hoists_shortCircuit hhot hkind hshort hnone hv
        next hshort =>
          refine .bind (hv.operand _) fun l' more ns₂ hl' => ?_
          refine .bind (hoist_hoists c right _ hr ns₂) fun r rest ns' hr' => .pure ?_
          rw [List.append_nil, ← List.append_assoc]
          exact hoists_binary hhot hkind (by simpa using hshort) hl' hr'
  | .assign s target op value, m, hm, ns => by
      cases hhot : m.isHot with
      | false =>
          rw [hoist, if_pos (by simp [hhot])]
          exact hoists_cold hm c (by simp [hhot])
      | true =>
          exact emits_assign hm hhot fun ns =>
            hoist_hoists c value _ (hm.under (get?_value s target op value)) ns
  | .switch s selector cases type, m, hm, ns => by
      rw [hoist]
      split
      next hcold => exact hoists_cold hm c hcold
      next hhot =>
        have hs := hm.under (get?_selector s selector cases type)
        refine .bind (hoist_hoists c selector _ hs ns) fun v new ns' hv => .pure ?_
        rw [List.append_nil]
        exact hoists_switch (by simpa using hhot) (hm.kind?_eq_none rfl)
          (fun i a ha => (hm.arm ha).2) hv
  | .missing, m, hm, ns | .ident .., m, hm, ns | .literal .., m, hm, ns
  | .conditional .., m, hm, ns | .lambda .., m, hm, ns | .template .., m, hm, ns => by
      have hnone := hm.barriers rfl (by simp [slots, exprSlots, shape, Shape.passes])
      have hcold : (!m.isHot) = true := by simp [hm.isHot_eq_false.2 hnone]
      unfold hoist
      rw [if_pos hcold]
      exact hoists_cold hm c hcold

theorem hoistList_hoists (c : Setting) (after : Bool) : (es : List Expr) -> {n : Node} ->
    (m : Marks) -> {slot : Nat -> Slot} -> (i : Nat) -> Selected o stays n m -> Lists n slot i es ->
    (ns : Names) -> Emits ns (hoistList c m slot i after es) fun vs new ns' =>
      HoistsAll o c m slot i after ns es vs new ns'
  | [], n, m, slot, i, hm, hl, ns => by
      rw [hoistList]
      exact .pure .nil
  | e :: rest, n, m, slot, i, hm, hl, ns => by
      obtain ⟨hget, hrest⟩ := lists_cons hl
      rw [hoistList]
      refine .bind (hoist_hoists c e _ (hm.under hget) ns) fun v new ns₁ hv => ?_
      refine .bind (hv.operand _) fun v' more ns₂ hv' => ?_
      refine .bind (hoistList_hoists c after rest m (i + 1) hm hrest ns₂) fun vs last ns' hvs =>
        .pure ?_
      rw [List.append_nil, ← List.append_assoc]
      exact .cons hv' hvs

end

end Recursion

/-! ## Anchors -/

def leftWith (s : Stmt) (c : Value) : Stop :=
  match s with
  | .throw .. => .thrown c
  | _ => .exit c

theorem leftWith_of_ne {s : Stmt} (h : ∀ span e, s ≠ .throw span e) (c : Value) :
    leftWith s c = .exit c := by
  cases s <;> first | rfl | exact absurd rfl (h _ _)

/-- Nothing but the marked sites leaves an expression early. -/
def OnlySites (m : Machine) (marks : Marks) (e : Expr) : Prop :=
  (∀ name fn, m.hosts name = some fn -> ∀ args, Stays (fn args)) ∧
    Accounted m.sentinel marks (.expr e)

/--
How an anchor ends from a store, and how the statements for it do.  The stores differ at most in
what the temporaries are bound to.
-/
inductive Follows (m : Machine) (f : Frame) (s : Stmt) (exit : Exit) (marks : Marks)
    (temps : List String) (st : Store) :
    Except Stop Completion -> Store -> Except Stop Completion -> Store -> Prop
  /-- In the same way; no site has left the expression. -/
  | same {ending st₁ st₁'} (hbut : st₁.SameBut f.scope (· ∈ temps) st₁')
      (hstays : OnlySites m marks s.anchorExpr ->
        ∀ c st₂, evalFully m f s.anchorExpr st ≠ .error (.exit c) st₂) :
      Follows m f s exit marks temps st ending st₁ ending st₁'
  /-- A site leaves with a container, and the statements do from the block of its test. -/
  | left {c st₁ st₁'} (hbut : st₁.SameBut f.scope (· ∈ temps) st₁') :
      Follows m f s exit marks temps st (.error (leftWith s c)) st₁ (exitWith exit c)
        (st₁'.push (some f.scope)).2

theorem anchorValue_of_filled {s : Stmt} (hfilled : s.anchorExpr.isMissing = false)
    (hthrow : ∀ span e, s ≠ .throw span e) (m : Machine) (f : Frame) :
    anchorValue (fully m) f s = evalFully m f s.anchorExpr := by
  cases s with
  | ret span e | var span x t e =>
      have hfilled : e.isMissing = false := hfilled
      show given (fully m) f e = _
      simp only [given, hfilled, Bool.false_eq_true, if_false]
      rfl
  | throw span e => exact absurd rfl (hthrow span e)
  | _ => rfl

/-- How an anchor goes on from how its expression ended. -/
noncomputable def goOn (m : Machine) (f : Frame) (s : Stmt) : Except Stop Value -> Run Completion
  | .ok v => proceed (fully m) f s v
  | .error (.exit c) => throw (leftWith s c)
  | .error stop => throw stop

theorem execFully_anchor {m : Machine} {f : Frame} {s : Stmt} {e : Expr} {ending : Except Stop Value}
    {st st₁ : Store} (hslot : s.anchorSlot?.isSome = true) (he : s.anchorExpr = e)
    (hfilled : e.isMissing = false) (heval : evalFully m f e st = ended ending st₁) :
    Same (execFully m f s st) (goOn m f s ending st₁) := by
  refine (agree_anchor m f hslot st).trans ?_
  by_cases hthrow : ∃ span e, s = .throw span e
  · obtain ⟨span, e', rfl⟩ := hthrow
    obtain rfl : e' = e := he
    by_cases hfuel : ending = .error .outOfFuel
    · subst hfuel
      have hwants : WantsFuel (anchorValue (fully m) f (.throw span e') st) := by
        rw [show anchorValue (fully m) f (.throw span e') = _ from tryCatch_eq (evalFully m f e') _ rfl]
        exact attempt_wantsFuel ⟨st₁, heval⟩ _
      rw [Run.bind_eq]
      exact .inr ⟨attempt_wantsFuel hwants _, st₁, rfl⟩
    · rw [bind_ended (anchorValue_throw heval hfuel span)]
      cases ending with
      | ok v => exact .refl _
      | error stop => cases stop <;> exact .refl _
  · subst he
    rw [anchorValue_of_filled hfilled (fun span e h => hthrow ⟨span, e, h⟩), bind_ended heval]
    cases ending with
    | ok v => exact .refl _
    | error stop =>
        cases stop with
        | exit c =>
            rw [goOn, leftWith_of_ne fun span e h => hthrow ⟨span, e, h⟩]
            exact .refl _
        | _ => exact .refl _

section Anchors

variable {S : Staging} {ns : Names} {s : Stmt} {v : Expr} {new : List Stmt} {temps : List String}
  {w : Known} {h : String -> Option Value} {st st₁ : Store}

/-- What an anchor does with a value compares, whatever its parts write. -/
theorem proceed_alike (hscope : S.frame.scope = S.view.home)
    (hm : ∀ name fn, S.machine.hosts name = some fn -> Confined fn)
    (hvisible : ∀ x ∈ usedNames (.stmt s), S.view.hidden x = false) {a : Value} {st' : Store}
    (hsees : (S.view.having h).Sees w st st') (hhere : S.view.realm.Here w S.view.home)
    (ha : S.view.realm.Val w a) :
    WantsFuel (proceed (fully S.machine) S.frame s a st) ∨ ∃ ending st₁ st₁',
      proceed (fully S.machine) S.frame s a st = ended ending st₁ ∧
      proceed (fully S.machine) S.frame s a st' = ended ending st₁' ∧
      st₁.SameBut S.view.home (fun x => S.view.hidden x = true) st₁' := by
  -- nothing is read in place any more, so nothing has to be watched
  let V := (S.view.having h).keeping (fun _ => False) (fun _ => False) (fun _ => none) fun _ hx => hx
  have hfree : V.Sees w st st' := hsees.keeping (fun _ hx => hx.elim) fun _ hx => hx.elim
  have hval : V.realm.Val w a := View.val_keeping (fun _ hx => hx.elim) a ha
  have hscript : V.realm.Script w S.frame.scope s :=
    View.runs_unguarded (fun _ hx => hx) hvisible
  have hhere' : V.realm.Here w S.frame.scope := by
    rw [hscope]
    exact hhere
  rcases (V.alike_self hm).proceed hhere' hscript hval st st' hfree with hwants | hends
  · exact .inl hwants
  · obtain ⟨ending, st₁, st₁', w', hleft, hright, _, _, hsees', _⟩ := hends
    exact .inr ⟨ending, st₁, st₁', hleft, hright, Store.sameBut_of_hide hsees'.alike⟩

theorem goOn_withAnchorExpr (s : Stmt) (m : Machine) (f : Frame) (v : Expr)
    (ending : Except Stop Value) : goOn m f (s.withAnchorExpr v) ending = goOn m f s ending := by
  cases ending with
  | ok a => exact proceed_withAnchorExpr (fully m) f v a
  | error stop => cases stop <;> first | rfl | (cases s <;> rfl)

/-- What is left of an anchor goes on as the anchor does from how its expression ended. -/
theorem execFully_rest {m : Machine} {f : Frame} {ending : Except Stop Value} {st st₁ : Store}
    (hslot : s.anchorSlot?.isSome = true) (hv : v.isMissing = false)
    (heval : evalFully m f v st = ended ending st₁) :
    Same (execFully m f (s.withAnchorExpr v) st) (goOn m f s ending st₁) := by
  rw [← goOn_withAnchorExpr s m f v]
  refine execFully_anchor ?_ ?_ hv heval <;> cases s <;>
    first | rfl | simp [Stmt.anchorSlot?] at hslot

/-- An anchor fails and wants fuel where its expression does. -/
theorem eval_of_exec {m : Machine} {f : Frame} (hslot : s.anchorSlot?.isSome = true)
    (hfilled : s.anchorExpr.isMissing = false) {ending : Except Stop Completion}
    (hexec : execFully m f s st = ended ending st₁) (hends : ending ≠ .error .outOfFuel)
    (hfailed : ∀ err, ending ≠ .error (.failed err)) :
    ¬WantsFuel (evalFully m f s.anchorExpr st) ∧
      ∀ err st₂, evalFully m f s.anchorExpr st ≠ .error (.failed err) st₂ := by
  have hgo {ending' : Except Stop Value} {st₂ : Store}
      (heval : evalFully m f s.anchorExpr st = ended ending' st₂) :
      goOn m f s ending' st₂ = ended ending st₁ := by
    have hsame := execFully_anchor hslot rfl hfilled heval
    rw [hexec] at hsame
    exact hsame.symm.eq_ended hends
  constructor
  · rintro ⟨st₂, hfuel⟩
    have heval : evalFully m f s.anchorExpr st = ended (.error .outOfFuel) st₂ := hfuel
    have hdone : ended (.error .outOfFuel) st₂ = ended ending st₁ := hgo heval
    exact hends (ended_inj hdone).1.symm
  · intro err st₂ hfail
    have heval : evalFully m f s.anchorExpr st = ended (.error (.failed err)) st₂ := hfail
    have hdone : ended (.error (.failed err)) st₂ = ended ending st₁ := hgo heval
    exact hfailed err (ended_inj hdone).1.symm

/-- When the statements that stage the expression of an anchor are done, the stores compare. -/
theorem sees_of_staged {y : Run Value}
    (hstaged : S.Staged ns w (evalFully S.machine S.frame s.anchorExpr) st new y S.view.realm.Val)
    (hslot : s.anchorSlot?.isSome = true) (hfilled : s.anchorExpr.isMissing = false)
    (hsees : (S.view.having h).Sees w st st) {ending : Except Stop Completion}
    (hexec : execFully S.machine S.frame s st = ended ending st₁)
    (hends : ending ≠ .error .outOfFuel) (hfailed : ∀ err, ending ≠ .error (.failed err))
    {st₂ : Store} (hrun : S.run new st = .ok .normal st₂) :
    ∃ h₁ w₁ st', (S.view.having h₁).Sees w₁ st' st₂ := by
  obtain ⟨hwants, hfails⟩ := eval_of_exec hslot hfilled hexec hends hfailed
  cases hstaged h w st (S.view.realm.refl w) hsees with
  | wants h => exact absurd h hwants
  | failed h => exact absurd h (hfails _ _)
  | stopped h =>
      obtain ⟨ending', st₃, hstops, hne⟩ := h.ne_normal
      have hrun : S.run new st = ended (.ok .normal) st₂ := hrun
      exact absurd (ended_inj (hstops.symm.trans hrun)).1 hne
  | goes h hgoes =>
      cases hrun.symm.trans h
      obtain ⟨h₁, w₁, st', _, _, hsees', _⟩ := hgoes
      exact ⟨h₁, w₁, st', hsees'⟩

/-- The statements for an anchor do what the anchor does, if they stage its expression. -/
theorem follows_of_staged {exit : Exit} {marks : Marks}
    (hstaged : S.Staged ns w (evalFully S.machine S.frame s.anchorExpr) st new
      (evalFully S.machine S.frame v) S.view.realm.Val)
    (hscope : S.frame.scope = S.view.home) (hexit : S.exit = exit)
    (hstrict : OnlySites S.machine marks s.anchorExpr -> S.strict)
    (hthrow : ∀ span e, s = .throw span e -> S.strict)
    (hm : ∀ name fn, S.machine.hosts name = some fn -> Confined fn)
    (hslot : s.anchorSlot?.isSome = true) (hfilled : s.anchorExpr.isMissing = false)
    (hv : v.isMissing = false) (hhidden : ∀ x, S.view.hidden x = true -> x ∈ temps)
    (hvisible : ∀ x ∈ usedNames (.stmt s), S.view.hidden x = false)
    (hsees : (S.view.having h).Sees w st st) (hhere : S.view.realm.Here w S.view.home)
    {ending : Except Stop Completion}
    (hexec : execFully S.machine S.frame s st = ended ending st₁)
    (hends : ending ≠ .error .outOfFuel) (hfailed : ∀ err, ending ≠ .error (.failed err)) :
    ∃ ending' st₁', S.run (new ++ [s.withAnchorExpr v]) st = ended ending' st₁' ∧
      Follows S.machine S.frame s exit marks temps st ending st₁ ending' st₁' := by
  have hgo {ending' : Except Stop Value} {st₂ : Store}
      (heval : evalFully S.machine S.frame s.anchorExpr st = ended ending' st₂) :
      goOn S.machine S.frame s ending' st₂ = ended ending st₁ := by
    have hsame := execFully_anchor hslot rfl hfilled heval
    rw [hexec] at hsame
    exact hsame.symm.eq_ended hends
  have hbut {st₂ st₂' : Store}
      (halike : st₂'.hide S.view.home S.view.hidden = st₂.hide S.view.home S.view.hidden) :
      st₂.SameBut S.frame.scope (· ∈ temps) st₂' := by
    rw [hscope]
    exact (Store.sameBut_of_hide halike).imp hhidden
  -- only a throw statement changes how its expression stops, and no site is left to stop it
  have hstop {stop : Stop} (hs : S.strict -> ∀ c, stop ≠ .exit c) (st₂ : Store) :
      goOn S.machine S.frame s (.error stop) st₂ = ended (.error stop) st₂ := by
    cases stop with
    | exit c =>
        rw [goOn, leftWith_of_ne fun span e heq => hs (hthrow span e heq) c rfl]
        rfl
    | _ => rfl
  have hnoexit {ending' : Except Stop Value} {st₂ : Store}
      (heval : evalFully S.machine S.frame s.anchorExpr st = ended ending' st₂)
      (hs : S.strict -> ∀ c, ending' ≠ .error (.exit c)) (honly : OnlySites S.machine marks s.anchorExpr)
      (c : Value) (st₃ : Store) : evalFully S.machine S.frame s.anchorExpr st ≠ .error (.exit c) st₃ :=
    fun heq => hs (hstrict honly) c
      (ended_inj (heval.symm.trans (show _ = ended (.error (.exit c)) st₃ from heq))).1
  obtain ⟨hwants, hfails⟩ := eval_of_exec hslot hfilled hexec hends hfailed
  cases hstaged h w st (S.view.realm.refl w) hsees with
  | wants h => exact absurd h hwants
  | failed h => exact absurd h (hfails _ _)
  | stopped hstopped =>
      rw [Staging.run_append_stopped hstopped]
      generalize hres : evalFully S.machine S.frame s.anchorExpr st = result at hstopped
      generalize hrun : S.run new st = run at hstopped
      cases hstopped with
      | @same stop st₂ st₂' hs halike =>
          have heval : _ = ended (.error stop) st₂ := hres
          obtain ⟨rfl, rfl⟩ := ended_inj ((hstop hs st₂).symm.trans (hgo heval))
          exact ⟨_, st₂', rfl, .same (hbut halike)
            (hnoexit heval fun hs' c heq => hs hs' c (by cases heq; rfl))⟩
      | @left c st₂ st₂' halike =>
          have heval : _ = ended (.error (.exit c)) st₂ := hres
          have hdone : ended (.error (leftWith s c)) st₂ = ended ending st₁ := hgo heval
          obtain ⟨rfl, rfl⟩ := ended_inj hdone
          rw [hexit, ← hscope]
          exact ⟨_, _, rfl, .left (hbut halike)⟩
  | @goes st₁' hrun hgoes =>
      obtain ⟨h₁, w₁, _, _, hlater₁, _, ending', st₂, st₂', w₂, heval, heval', hs, hlater₂, hsees',
        hval⟩ := hgoes
      have hrest := execFully_rest hslot hv heval' (m := S.machine)
      have hsingle : S.run [s.withAnchorExpr v] st₁' =
          execFully S.machine S.frame (s.withAnchorExpr v) st₁' :=
        congrFun (execAll_single _ _ _) _
      rw [Staging.run_append_normal hrun, hsingle]
      have hdone := hgo heval
      cases ending' with
      | error stop =>
          have hs' : S.strict -> ∀ c, stop ≠ .exit c := fun hs' c heq => hs hs' c (by rw [heq])
          obtain ⟨rfl, rfl⟩ := ended_inj ((hstop hs' st₂).symm.trans hdone)
          rw [hstop hs' st₂'] at hrest
          exact ⟨_, st₂', hrest.eq_ended hends, .same (hbut hsees'.alike) (hnoexit heval hs)⟩
      | ok a =>
          have hhere' := S.view.realm.here_later (S.view.realm.trans hlater₁ hlater₂) hhere
          have hdone : proceed (fully S.machine) S.frame s a st₂ = ended ending st₁ := hdone
          rcases proceed_alike hscope hm hvisible hsees' hhere' hval with ⟨st₃, hfuel⟩ | hends'
          · have hfuel : _ = ended (.error .outOfFuel) st₃ := hfuel
            exact absurd (ended_inj (hdone.symm.trans hfuel)).1 hends
          · obtain ⟨ending'', st₃, st₃', hleft, hright, hsame⟩ := hends'
            obtain ⟨rfl, rfl⟩ := ended_inj (hdone.symm.trans hleft)
            have hgone : goOn S.machine S.frame s (.ok a) st₂' = ended ending st₃' := hright
            rw [hgone] at hrest
            rw [← hscope] at hsame
            exact ⟨_, st₃', hrest.eq_ended hends, .same (hsame.imp hhidden) (hnoexit heval hs)⟩

end Anchors

/-! ## Sites hoisted out of an anchor -/

/-- Of the two lists of an array creation only one is given. -/
def hasOneList : Node -> Bool
  | .expr (.newArray _ _ dims elements listed) => dims.isEmpty || elements.isEmpty && !listed
  | _ => true

/--
The variable is left in place in the expression: it is read and never written, or read by a
compound assignment whose value does not write it, or it stands for the class of a kind.
-/
def InPlace (o : Options) (e : Expr) (x : String) : Prop :=
  (x ∉ writtenNames e ∧ ∃ n ∈ (Node.expr e).nodes, readName? n = some x) ∨
    (∃ n ∈ (Node.expr e).nodes, amendedName? n = some x) ∨
    ∃ d k, o.registry.resolve d = some k ∧ k.name = x

/-- The view from a scope in which an expression is hoisted. -/
def hoisting (names : List String) (guarded : String -> Prop) (e : Expr) (home : Nat) (st : Store) :
    View :=
  { watching names guarded home st with
    kept := fun x => guarded x ∧ x ∉ writtenNames e
    kept_guarded := fun _ hx => hx.1
    seen := st.get? home }

section Hoisted

variable {o : Options} {root : Node} {anchor : Path} {s : Stmt} {slot : Slot} {ts : List Task}
  {ns : Names} {m : Machine} {f : Frame} {marks : Marks} {st : Store} {guarded : String -> Prop}

/-- What has to hold of an anchor, a machine and a store for sites to be hoisted. -/
structure Hoistable (o : Options) (m : Machine) (f : Frame) (s : Stmt) (marks : Marks) (ns : Names)
    (st : Store) : Prop where
  native : Native o m
  plain : NoLambda (.expr s.anchorExpr)
  arrays : ∀ n ∈ (Node.expr s.anchorExpr).nodes, hasOneList n = true
  classes : ∀ e k, o.registry.resolve e = some k ->
    ns.Spares [k.name] ∧ st.get? f.scope k.name = none
  bound : ∀ x ∈ writtenNames s.anchorExpr, (st.get? f.scope x).isSome = true
  served : Served m f marks s.anchorExpr st
  thrown : ∀ span e, s = .throw span e -> OnlySites m marks e

def stagingOf (m : Machine) (f : Frame) (s : Stmt) (marks : Marks) (exit : Exit)
    (names : List String) (guarded : String -> Prop) (st : Store) : Staging where
  machine := m
  frame := f
  view := hoisting names guarded s.anchorExpr f.scope st
  exit
  strict := OnlySites m marks s.anchorExpr

namespace Hoistable

variable (h : Hoistable o m f s marks ns st) (hkept : ∀ x, InPlace o s.anchorExpr x -> guarded x)

include h hkept

theorem fits (exit : Exit) (count : Nat) :
    (stagingOf m f s marks exit (ns.several count) guarded st).Fits o
      ⟨exit, writtenNames s.anchorExpr⟩ where
  native := h.native
  scope := rfl
  exit := rfl
  classes e k hk := by
    obtain ⟨hspares, hnone⟩ := h.classes e k hk
    refine ⟨⟨hkept _ (.inr (.inr ⟨e, k, hk, rfl⟩)), fun hwritten => ?_⟩, hnone, ?_⟩
    · simpa [hnone] using h.bound _ hwritten
    · show (ns.several count).contains k.name = false
      simpa using fun hx => hspares.several hx (List.mem_singleton.2 rfl)
  stays hs := hs.1

theorem suits (hspares : ns.Spares (usedNames (.expr s.anchorExpr))) (exit : Exit) (count : Nat) :
    Everywhere ((stagingOf m f s marks exit (ns.several count) guarded st).Suits
      ⟨exit, writtenNames s.anchorExpr⟩) (.expr s.anchorExpr) := by
  have hvisible {x : String} (hx : x ∈ usedNames (.expr s.anchorExpr)) :
      (ns.several count).contains x = false := by
    simpa using fun hmem => hspares.several hmem hx
  intro n hn
  exact {
    read := fun x hx => ⟨hvisible (View.readName_mem hn hx), fun hnot =>
      ⟨hkept x (.inl ⟨hnot, n, hn, hx⟩), hnot⟩⟩
    write := fun x hx => ⟨hvisible (View.writtenName_mem hn hx), fun hk =>
      absurd (List.mem_filterMap.2 ⟨n, hn, hx⟩) hk.2⟩
    amended := fun x hx => hkept x (.inr (.inl ⟨n, hn, hx⟩))
    plain := h.plain n hn
    array := fun _ _ dims elements listed heq => by
      have hone := h.arrays n hn
      subst heq
      simpa [hasOneList] using hone }

end Hoistable

theorem usedNames_at {root n : Node} {p : Path} (h : root.at? p = some n) {x : String}
    (hx : x ∈ usedNames n) : x ∈ usedNames root := by
  obtain ⟨c, hc, hname⟩ := List.mem_filterMap.1 hx
  obtain ⟨q, hq⟩ := mem_nodes.1 hc
  exact List.mem_filterMap.2 ⟨c, mem_nodes.2 ⟨p ++ q, by rw [at?_append, h]; exact hq⟩, hname⟩

theorem spares_anchorExpr (hat : root.at? anchor = some (.stmt s)) (hslot : s.anchorSlot? = some slot)
    (hspares : ns.Spares (usedNames root)) : ns.Spares (usedNames (.expr s.anchorExpr)) := by
  intro x hx
  cases hmissing : s.anchorExpr.isMissing with
  | false =>
      exact hspares x (usedNames_at hat (usedNames_anchorExpr (by simp [hslot]) hmissing hx))
  | true =>
      rw [Expr.eq_missing hmissing, usedNames, nodes_eq] at hx
      cases hx

/-- The statements for an anchor stage its expression, from a store that compares with itself. -/
theorem hoistAnchor_staged (hat : root.at? anchor = some (.stmt s))
    (hslot : s.anchorSlot? = some slot) (hsome : ts ≠ [])
    (hts : ∀ t ∈ ts, t ∈ acceptedAt o root anchor) (exit : Exit) (hspares : ns.Spares (usedNames root))
    (h : Hoistable o m f s ((taskMarks anchor ts).under slot) ns st)
    (hkept : ∀ x, InPlace o s.anchorExpr x -> guarded x)
    (hquiet : ∀ count, Quiet (ns.several count) guarded f.scope st) :
    s.anchorExpr.isMissing = false ∧ ∃ new v count,
      hoistAnchor ns s exit (taskMarks anchor ts) = .ok ⟨new, s.withAnchorExpr v, ns.later count⟩ ∧
      v.isMissing = false ∧
      let S := stagingOf m f s ((taskMarks anchor ts).under slot) exit (ns.several count) guarded st
      (S.view.having (st.binding? f.scope)).Sees (st.known f.scope) st st ∧
      S.view.realm.Here (st.known f.scope) f.scope ∧
      S.Staged ns (st.known f.scope) (evalFully m f s.anchorExpr) st new (evalFully m f v)
        S.view.realm.Val := by
  have hts : ∀ t ∈ ts, t.At o root anchor := fun t ht => Task.at_of_mem (hts t ht)
  obtain ⟨t, ht⟩ := List.exists_mem_of_ne_nil ts hsome
  obtain ⟨⟨x, hx, hof⟩, hplace⟩ := hts t ht
  obtain ⟨slot', hanchor⟩ := Anchor.of_task hx hof hplace hat
  obtain rfl : slot' = slot := by
    rw [hanchor.hslot] at hslot
    exact Option.some.inj hslot
  obtain ⟨v, new, ns', hrun, hhoists⟩ := hoist_hoists ⟨exit, writtenNames s.anchorExpr⟩
    s.anchorExpr _ (hanchor.selected hts) ns
  obtain ⟨count, rfl, hstages⟩ := hhoists.stages
  have hok : hoistAnchor ns s exit (taskMarks anchor ts) =
      .ok ⟨new, s.withAnchorExpr v, ns.later count⟩ := by
    have hrun' := hrun []
    rw [List.nil_append] at hrun'
    simp only [hoistAnchor, hanchor.hslot, EStateM.run, hrun']
  have hfilled : v.isMissing = false := by
    cases hmissing : v.isMissing with
    | false => rfl
    | true =>
        obtain rfl := Expr.eq_missing hmissing
        have hnone := hanchor.hfilled
        rw [← (hhoists.atom (.inr rfl)).1] at hnone
        cases hnone
  let S := stagingOf m f s ((taskMarks anchor ts).under slot') exit (ns.several count) guarded st
  have hspares' := spares_anchorExpr hat hslot hspares
  have hfits := h.fits hkept exit count
  have hquiet := hquiet count
  have hsees : (S.view.having (st.binding? f.scope)).Sees (st.known f.scope) st st :=
    View.sees_known hquiet.sound hquiet.closures rfl (fun _ _ => rfl) rfl fun _ _ => rfl
  have hhere : S.view.realm.Here (st.known f.scope) f.scope := View.home_known hquiet.sound
  have hready : S.Ready ⟨exit, writtenNames s.anchorExpr⟩ (st.known f.scope)
      ((taskMarks anchor ts).under slot') s.anchorExpr st :=
    ⟨(h.suits hkept hspares' exit count).inExpr, h.served, fun hs => hs.2, hhere, h.bound⟩
  obtain ⟨hstaged, _⟩ := hstages S (fun x hx => by
    show (ns.several count).contains x = true
    simpa using hx) _ st hfits hready
  exact ⟨hanchor.hfilled, new, v, count, hok, hfilled, hsees, hhere, hstaged⟩

/--
If an anchor ends and does not fail, the statements for it end as it does, and the first of
them leave every guarded variable alone that the anchor does not write.
-/
theorem hoistAnchor_follows (hat : root.at? anchor = some (.stmt s))
    (hslot : s.anchorSlot? = some slot) (hsome : ts ≠ [])
    (hts : ∀ t ∈ ts, t ∈ acceptedAt o root anchor) (exit : Exit) (hspares : ns.Spares (usedNames root))
    (h : Hoistable o m f s ((taskMarks anchor ts).under slot) ns st)
    (hkept : ∀ x, InPlace o s.anchorExpr x -> guarded x)
    (hquiet : ∀ count, Quiet (ns.several count) guarded f.scope st) :
    ∃ hoisted count, hoistAnchor ns s exit (taskMarks anchor ts) = .ok hoisted ∧
      hoisted.names = ns.later count ∧
      ∀ n ending st₁, exec m n f s st = ended ending st₁ -> ending ≠ .error .outOfFuel ->
        (∀ err, ending ≠ .error (.failed err)) ->
        (∀ st₂, Finishes (fun n => (inner m n).execAll f hoisted.prologue) st (.ok .normal st₂) ->
          ∀ x, guarded x -> x ∉ writtenNames s.anchorExpr -> x ∉ ns.several count ->
            st₂.get? f.scope x = st.get? f.scope x) ∧
        ∃ ending' st₁',
          Finishes (fun n => (inner m n).execAll f hoisted.statements) st (ended ending' st₁') ∧
            Follows m f s exit ((taskMarks anchor ts).under slot) (ns.several count) st ending st₁
              ending' st₁' := by
  have hisSome : s.anchorSlot?.isSome = true := by simp [hslot]
  obtain ⟨hgiven, new, v, count, hok, hfilled, hsees, hhere, hstaged⟩ :=
    hoistAnchor_staged hat hslot hsome hts exit hspares h hkept hquiet
  refine ⟨_, count, hok, rfl, fun n ending st₁ hexec hends hfailed => ?_⟩
  have hfully : execFully m f s st = ended ending st₁ :=
    (finishes_exec.1 ⟨n, hexec, not_wantsFuel_ended hends⟩).1
  let S := stagingOf m f s ((taskMarks anchor ts).under slot) exit (ns.several count) guarded st
  have hhidden (x : String) (hx : S.view.hidden x = true) : x ∈ ns.several count := by
    simpa [S, stagingOf, hoisting, watching] using hx
  have hvisible : ∀ x ∈ usedNames (.stmt s), S.view.hidden x = false := fun x hx => by
    show (ns.several count).contains x = false
    simpa using fun hmem => hspares.several hmem (usedNames_at hat hx)
  have hthrow (span : Span) (e : Expr) (heq : s = .throw span e) : S.strict := by
    subst heq
    exact h.thrown span e rfl
  constructor
  · intro st₂ hprologue x hx hwritten hnot
    obtain ⟨_, w, st', hsees'⟩ := sees_of_staged hstaged hisSome hgiven hsees hfully hends hfailed
      (finishes_execAll.1 hprologue).1
    refine hsees'.get?_kept ⟨hx, hwritten⟩ ?_
    show (ns.several count).contains x = false
    simpa using hnot
  · obtain ⟨ending', st₁', hruns, hfollows⟩ := follows_of_staged hstaged rfl rfl (fun hs => hs) hthrow
      h.native.hosts hisSome hgiven hfilled hhidden hvisible hsees hhere hfully hends hfailed
    refine ⟨ending', st₁', finishes_execAll.2 ⟨hruns, not_wantsFuel_ended ?_⟩, hfollows⟩
    cases hfollows with
    | same => exact hends
    | left => exact exitWith_ne_outOfFuel exit _

end Hoisted

end EarlyExit.Eval
