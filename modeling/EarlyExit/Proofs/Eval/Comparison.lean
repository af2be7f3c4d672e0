import EarlyExit.Proofs.Eval.Confined
import EarlyExit.Proofs.Eval.Hidden
import EarlyExit.Proofs.Eval.Limit

/-!
# Runs that compare

Code that does not mention what is hidden runs alike in stores that compare: it ends in the
same way, and leaves stores that compare.  The second run may have all the fuel it wants.
-/

namespace EarlyExit

namespace Store

theorem elems_of_arrays {st st' : Store} (h : st'.arrays = st.arrays) (r : Nat) :
    st'.elems r = st.elems r := by
  rw [elems, h, elems]

/-- The text of a value depends on the arrays and the memory alone. -/
theorem text?_congr {st st' : Store} (harrays : st'.arrays = st.arrays)
    (hmemory : st'.memory = st.memory) : st'.text? = st.text? := by
  funext v
  rw [text?, pieces, harrays, hmemory, text?, pieces]

theorem elems_alloc (st : Store) (elems : Array Value) (r : Nat) :
    (st.alloc elems).2.elems r = if r = st.arrays.size then elems else st.elems r := by
  simp only [Store.elems, alloc, Array.getD_eq_getD_getElem?, Array.getElem?_push]
  split <;> rfl

theorem mem_setElem {st : Store} {ref i r : Nat} {u v : Value}
    (h : v ∈ (st.setElem ref i u).elems r) : v ∈ st.elems r ∨ v = u := by
  simp only [Store.elems, setElem, Array.getD_eq_getD_getElem?, Array.getElem?_modify] at h ⊢
  split at h
  next heq =>
    subst heq
    cases hr : st.arrays[ref]? with
    | none => simp [hr] at h
    | some xs =>
        simp only [hr, Option.map_some, Option.getD_some] at h ⊢
        rw [Array.mem_iff_getElem?] at h
        obtain ⟨j, hj⟩ := h
        rw [Array.getElem?_setIfInBounds] at hj
        split at hj
        · split at hj
          · exact .inr (Option.some.inj hj).symm
          · cases hj
        · exact .inl (Array.mem_of_getElem? hj)
  next => exact .inl h

end Store

namespace Eval

open Run Value Filter Realm

namespace View

variable (V : View)

/-- If the first computation ends then the second one does, in the same way. -/
def Matches (w : V.realm.World) (x : Unit -> Run α) (y : Run α)
    (Q : V.realm.World -> α -> Prop) : Prop :=
  ∀ st st', V.Sees w st st' -> WantsFuel (x () st) ∨
    ∃ ending st₁ st₁' w', x () st = ended ending st₁ ∧ y st' = ended ending st₁' ∧
      ending ≠ .error .outOfFuel ∧ V.realm.Later w w' ∧ V.Sees w' st₁ st₁' ∧
      V.realm.Ends Q w' ending


variable {V} {w : Known} {α β : Type}

/-! ## Rules -/

theorem matches_ended {x : Run α} {y : Run α} {Q : V.realm.World -> α -> Prop}
    (h : ∀ st st', V.Sees w st st' -> ∃ ending st₁ st₁' w', x st = ended ending st₁ ∧
      y st' = ended ending st₁' ∧ V.realm.Later w w' ∧ V.Sees w' st₁ st₁' ∧
      V.realm.Ends Q w' ending) : V.Matches w (fun _ => x) y Q := by
  intro st st' hst
  obtain ⟨ending, st₁, st₁', w', hx, hy, hlater, hsees, hends⟩ := h st st' hst
  by_cases hfuel : ending = .error .outOfFuel
  · subst hfuel
    exact .inl ⟨st₁, hx⟩
  · exact .inr ⟨ending, st₁, st₁', w', hx, hy, hfuel, hlater, hsees, hends⟩

/-- A computation that looks at arrays and changes nothing. -/
theorem matches_reading {x : Run α} {Q : V.realm.World -> α -> Prop}
    (h : ∀ st st', V.Sees w st st' -> ∃ ending, x st = ended ending st ∧
      x st' = ended ending st' ∧ V.realm.Ends Q w ending) : V.Matches w (fun _ => x) x Q :=
  matches_ended fun st st' hst => by
    obtain ⟨ending, hx, hy, hends⟩ := h st st' hst
    exact ⟨ending, st, st', w, hx, hy, V.realm.refl w, hst, hends⟩

theorem matches_attempt {x : Unit -> Run α} {y : Run α} {P : V.realm.World -> α -> Prop}
    {k : Unit -> Except Stop α -> Run β} {k' : Except Stop α -> Run β}
    {Q : V.realm.World -> β -> Prop} (hx : V.Matches w x y P)
    (hk : ∀ w' ending, V.realm.Later w w' -> V.realm.Ends P w' ending ->
      V.Matches w' (fun i => k i ending) (k' ending) Q) :
    V.Matches w (fun i => (x i).attempt (k i)) (y.attempt k') Q := by
  intro st st' hst
  rcases hx st st' hst with hwants | ⟨ending, st₁, st₁', w₁, hxi, hy, hends, hlater, hst₁, hP⟩
  · exact .inl (attempt_wantsFuel hwants _)
  · have hx' := attempt_ended hxi hends (k ())
    have hy' := attempt_ended hy hends k'
    refine (hk w₁ ending hlater hP st₁ st₁' hst₁).imp (fun h => by
      show WantsFuel ((x ()).attempt (k ()) st)
      rw [hx']
      exact h) ?_
    rintro ⟨ending', st₂, st₂', w₂, hrest⟩
    exact ⟨ending', st₂, st₂', w₂, hx'.trans hrest.1, hy'.trans hrest.2.1, hrest.2.2.1,
      V.realm.trans hlater hrest.2.2.2.1, hrest.2.2.2.2⟩

theorem matches_bind {x : Unit -> Run α} {y : Run α} {P : V.realm.World -> α -> Prop}
    {g : Unit -> α -> Run β} {g' : α -> Run β} {Q : V.realm.World -> β -> Prop}
    (hx : V.Matches w x y P)
    (hg : ∀ w' a, V.realm.Later w w' -> P w' a -> V.Matches w' (fun i => g i a) (g' a) Q) :
    V.Matches w (fun i => x i >>= g i) (y >>= g') Q := by
  simp only [bind_eq]
  refine matches_attempt hx fun w' ending hlater hends => ?_
  cases ending with
  | ok a => exact hg w' a hlater hends
  | error stop =>
      exact matches_ended fun st st' hst =>
        ⟨.error stop, st, st', w', rfl, rfl, V.realm.refl w', hst, hends⟩

/-- What is known of stores that compare alike. -/
theorem matches_told {g : Store -> Option α}
    (h : ∀ st st', V.Sees w st st' -> g st' = g st) :
    V.Matches w (fun _ => do told (g (← get))) (do told (g (← get))) fun _ _ => True := by
  refine matches_reading fun st st' hst => ⟨tell (g st), told_eq (g st) st, ?_, ?_⟩
  · rw [← h st st' hst]
    exact told_eq (g st') st'
  · cases g st <;> trivial

theorem matches_counted {m : Machine} {x : Unit -> Run Value} {y : Run Value}
    {Q : V.realm.World -> Value -> Prop} (hx : V.Matches w x y Q) :
    V.Matches w (fun i => counted m (x i)) (counted m y) Q := by
  intro st st' hst
  by_cases hdepth : st.depth < m.maxDepth
  · refine (hx st.enter st'.enter hst.enter).imp (fun h => wantsFuel_counted.2 ⟨hdepth, h⟩) ?_
    rintro ⟨ending, st₁, st₁', w', hxi, hy, hends, hlater, hst₁, hQ⟩
    exact ⟨ending, st₁.leave, st₁'.leave, w', counted_ended hdepth hxi,
      counted_ended (hst.depth ▸ hdepth) hy, hends, hlater, hst₁.leave, hQ⟩
  · exact .inr ⟨_, st, st', w, counted_over hdepth _, counted_over (hst.depth ▸ hdepth) _, nofun,
      V.realm.refl w, hst, trivial, trivial⟩

theorem matches_rebind {f : Frame} {span : Span} {x : String} {v : Value}
    (hf : V.realm.Here w f.scope) (hx : V.realm.Writes w f.scope x) (hv : V.realm.Val w v) :
    V.Matches w (fun _ => rebind f span x v) (rebind f span x v) fun _ _ => True := by
  refine matches_ended fun st st' hst => ?_
  obtain ⟨l, hl⟩ := hf
  have hfind := hst.find? ⟨l, hl⟩ fun l' hl' => (hx l' hl').1
  cases hfound : st.find? f.scope x with
  | none =>
      exact ⟨_, st, st', w, rebind_none hfound span v, rebind_none (hfind.trans hfound) span v,
        V.realm.refl w, hst, trivial⟩
  | some found =>
      obtain ⟨t, u⟩ := found
      obtain ⟨ht, hbinding⟩ := Store.mem_chain_of_find? hfound
      rw [(hst.scope _ l hl).2.1] at ht
      refine ⟨.ok (), _, _, w, rebind_some hfound span v, rebind_some (hfind.trans hfound) span v,
        V.realm.refl w, hst.define ⟨?_, ?_⟩ hv, trivial⟩
      · rintro rfl
        exact (hx l hl).1 ht
      · intro haround hkept
        have hseen := (hx l hl).2 ⟨t, ht, haround⟩ hkept
        rw [← hst.kept x hkept] at hseen
        have hsome : (st.get? V.home x).isSome = true := Store.isSome_get?.2
          ⟨t, by rw [hst.around]; exact haround, by rw [hbinding]; rfl⟩
        simp [hseen] at hsome

theorem matches_push {outer : Nat} (houter : V.realm.Here w outer) :
    V.Matches w (fun _ => Run.push (some outer)) (Run.push (some outer))
      (V.realm.Opened w outer) := by
  refine matches_ended fun st st' hst => ?_
  obtain ⟨l, hl⟩ := houter
  obtain ⟨hlt, hchain, hmem⟩ := hst.scope outer l hl
  refine ⟨.ok st.scopes.size, (st.push (some outer)).2, (st'.push (some outer)).2,
    w.opened st.scopes.size l, rfl, ?_, later_opened hst.fresh, ?_, hst.opened hl⟩
  · rw [← hst.size]
    rfl
  · refine hst.push ?_ hmem
    rw [Store.chain_push_new st hlt, hchain]

theorem matches_root :
    V.Matches w (fun _ => Run.push none) (Run.push none) V.realm.Free := by
  refine matches_ended fun st st' hst => ?_
  refine ⟨.ok st.scopes.size, (st.push none).2, (st'.push none).2,
    w.opened st.scopes.size [], rfl, ?_, later_opened hst.fresh, ?_, hst.free⟩
  · rw [← hst.size]
    rfl
  · exact hst.push (Store.chain_push_root st) (by simp)

theorem matches_alloc {vs : List Value} (hvs : V.realm.Vals w vs) :
    V.Matches w (fun _ => Run.alloc vs) (Run.alloc vs) V.realm.Val := by
  refine matches_ended fun st st' hst => ?_
  have hlater : V.realm.Later w (w.allocated (· = st.arrays.size)) := later_allocated _
  refine ⟨.ok (.array st.arrays.size), (st.alloc vs.toArray).2, (st'.alloc vs.toArray).2,
    w.allocated (· = st.arrays.size), rfl, ?_, hlater, ?_, .inr rfl⟩
  · rw [← hst.arrays]
    rfl
  · refine hst.beside (st.alloc vs.toArray).2 rfl ?_ hlater rfl fun r hr => ?_
    · simp only [Store.alloc, hst.arrays, hst.closures, hst.calls, hst.depth, hst.memory]
    · have hsize : (st.alloc vs.toArray).2.arrays.size = st.arrays.size + 1 := Array.size_push _
      rw [hsize, Store.elems_alloc]
      rcases hr with hr | rfl
      · obtain ⟨hlt, hval⟩ := hst.array r hr
        rw [if_neg (Nat.ne_of_lt hlt)]
        exact ⟨Nat.lt_succ_of_lt hlt, fun v hv => (hval v hv).later hlater⟩
      · rw [if_pos rfl]
        exact ⟨Nat.lt_succ_self _, fun v hv =>
          (vals_iff.1 hvs v (List.mem_toArray.1 hv)).later hlater⟩

theorem matches_writeElement {ref i : Nat} {v : Value} (hv : V.realm.Val w v) :
    V.Matches w (fun _ => writeElement ref i v) (writeElement ref i v) fun _ _ => True := by
  refine matches_ended fun st st' hst => ?_
  refine ⟨.ok (), st.setElem ref i v, st'.setElem ref i v, w, rfl, rfl, V.realm.refl w, ?_, trivial⟩
  refine hst.beside (st.setElem ref i v) rfl ?_ (V.realm.refl w) rfl fun r hr => ?_
  · simp only [Store.setElem, hst.arrays, hst.closures, hst.calls, hst.depth, hst.memory]
  · obtain ⟨hlt, hval⟩ := hst.array r hr
    refine ⟨by simpa [Store.setElem] using hlt, fun u hu => ?_⟩
    rcases Store.mem_setElem hu with hu | rfl
    · exact hval u hu
    · exact hv

theorem matches_element {a i : Value} (ha : V.realm.Val w a) :
    V.Matches w (fun _ => element a i) (element a i) fun w place => V.realm.Refers w place.1 := by
  refine matches_reading fun st st' hst => ?_
  have hfail {β : Type} (f : String -> Failure) (v : Value) (Q : V.realm.World -> β -> Prop) :
      ∃ ending, (do Run.fail (f (← Run.text v)) : Run β) st = ended ending st ∧
        (do Run.fail (f (← Run.text v)) : Run β) st' = ended ending st' ∧
        V.realm.Ends Q w ending := by
    rw [fail_text_eq, fail_text_eq, Store.text?_congr hst.arrays hst.memory]
    refine ⟨_, rfl, rfl, ?_⟩
    cases st.text? v <;> trivial
  unfold element
  split
  next ref =>
    split
    next n =>
      have hrun (st : Store) : (do
          let size := ((← get).elems ref).size
          let n := n.toInt
          if 0 ≤ n && n < size then return (ref, n.toNat)
          Run.raise "ArrayIndexOutOfBoundsException"
            ("Index " ++ toString n ++ " out of bounds for length " ++ toString size) :
          Run (Nat × Nat)) st =
          if 0 ≤ n.toInt && n.toInt < (st.elems ref).size then .ok (ref, n.toInt.toNat) st
          else .error (.thrown (.exception "ArrayIndexOutOfBoundsException"
            ("Index " ++ toString n.toInt ++ " out of bounds for length " ++
              toString (st.elems ref).size))) st := by
        show (if _ then _ else _ : Run (Nat × Nat)) st = _
        split <;> rfl
      rw [hrun, hrun, Store.elems_of_arrays hst.arrays]
      split
      · exact ⟨.ok _, rfl, rfl, ha⟩
      · exact ⟨.error _, rfl, rfl, trivial, trivial⟩
    next => exact hfail _ _ _
  · exact ⟨.error _, rfl, rfl, trivial, trivial⟩
  · exact hfail _ _ _

theorem matches_host {fn : HostFunction} {args : List Value} (hfn : Confined fn)
    (hargs : V.realm.Vals w args) :
    V.Matches w (fun _ => fn args) (fn args) V.realm.Val := by
  refine matches_ended fun st st' hst => ?_
  obtain ⟨answer, hrun, hanswer⟩ := hfn
  let made : Nat -> Prop := fun r => st.arrays.size ≤ r ∧ r < (answer args st.arrays).2.size
  have hlater : V.realm.Later w (w.allocated made) := later_allocated _
  have hthen := hanswer args st.arrays w.arrays (V.realm.Val w) ((allMadeOf_iff args).2 hargs)
    fun r hr => ⟨(hst.array r hr).1, fun v hv => (madeOf_iff v).2 ((hst.array r hr).2 v hv)⟩
  have hval {v : Value} (h : MadeOf (fun r => w.arrays r ∨ made r) (V.realm.Val w) v) :
      V.realm.Val (w.allocated made) v :=
    (madeOf_iff v).1 (madeOf_imp (fun _ hr => hr) (fun u hu => Val.later hu hlater) v h)
  refine ⟨(answer args st.arrays).1, { st with arrays := (answer args st.arrays).2 },
    { st' with arrays := (answer args st.arrays).2 }, w.allocated made, hrun args st, ?_, hlater,
    ?_, ?_⟩
  · rw [hrun, ← hst.arrays]
  · refine hst.beside { st with arrays := (answer args st.arrays).2 } rfl ?_ hlater rfl
      fun r hr => ⟨?_, fun v hv => hval (hthen.elements r hr v hv)⟩
    · simp only [hst.closures, hst.calls, hst.depth, hst.memory]
    · rcases hr with hr | hr
      · exact Nat.lt_of_lt_of_le (hst.array r hr).1 hthen.size
      · exact hr.2
  · cases hend : (answer args st.arrays).1 with
    | ok v => exact hval (hthen.value v (.inl hend))
    | error stop =>
        cases stop with
        | thrown v => exact hval (hthen.value v (.inr (.inl hend)))
        | exit v => exact hval (hthen.value v (.inr (.inr hend)))
        | _ => trivial

theorem matches_log (name : String) (texts : List String) :
    V.Matches w (fun _ => (modify (Store.log name texts) : Run Unit))
      (modify (Store.log name texts)) fun _ _ => True :=
  matches_ended fun st st' hst => ⟨.ok (), st.log name texts, st'.log name texts, w, rfl, rfl,
    V.realm.refl w, hst.besideArrays rfl (by
      simp only [Store.log, hst.arrays, hst.closures, hst.calls, hst.depth, hst.memory]) rfl,
    trivial⟩

theorem matches_callHost {name : String} {fn : HostFunction} {args : List Value}
    (hfn : Confined fn) (hargs : V.realm.Vals w args) :
    V.Matches w (fun _ => callHost name fn args) (callHost name fn args) V.realm.Val := by
  have htexts : V.Matches w (fun _ => Run.texts args) (Run.texts args) fun _ _ => True :=
    matches_told fun st st' hst => by rw [Store.text?_congr hst.arrays hst.memory]
  refine matches_bind htexts fun w₁ texts hw₁ _ => ?_
  exact matches_bind (matches_log name texts) fun w₂ _ hw₂ _ =>
    matches_host hfn ((hargs.later hw₁).later hw₂)

def comparison (V : View) : Logic V.realm Unit where
  Rel w x y Q := V.Matches w x y Q
  Hosts := Confined
  lax := True
  pure h := matches_ended fun st st' hst => ⟨.ok _, st, st', _, rfl, rfl, V.realm.refl _, hst, h⟩
  stop h := matches_ended fun st st' hst => ⟨.error _, st, st', _, rfl, rfl, V.realm.refl _, hst, h⟩
  below _ := fun st _ _ => .inl ⟨st, rfl⟩
  attempt := matches_attempt
  counted := matches_counted
  text {w v} _ := matches_told fun st st' hst => by
    rw [Store.text?_congr hst.arrays hst.memory]
  find {w s x} hs hx := matches_reading fun st st' hst => by
    refine ⟨.ok (st.get? s x), rfl, ?_, ?_⟩
    · rw [Store.get?, ← hst.find? hs hx]
      rfl
    · intro v hv
      obtain ⟨⟨t, u⟩, hfound, rfl⟩ := Option.map_eq_some_iff.1 hv
      obtain ⟨l, hl⟩ := hs
      obtain ⟨ht, hbinding⟩ := Store.mem_chain_of_find? hfound
      rw [(hst.scope _ l hl).2.1] at ht
      refine hst.binding t x u ((hst.scope _ l hl).2.2 t ht) ?_ hbinding
      rintro rfl
      exact hx l hl ht
  rebind := matches_rebind
  define {w s x v} _ hx hv := matches_ended fun st st' hst =>
    ⟨.ok (), _, _, w, rfl, rfl, V.realm.refl w, hst.define hx hv, trivial⟩
  root := matches_root
  push := matches_push
  alloc := matches_alloc
  element := matches_element
  readElement {w ref i} href := matches_reading fun st st' hst => by
    refine ⟨.ok ((st.elems ref).getD i .null), rfl, ?_, ?_⟩
    · rw [← Store.elems_of_arrays hst.arrays]
      rfl
    · show V.realm.Val w ((st.elems ref).getD i .null)
      rw [Array.getD_eq_getD_getElem?]
      cases hv : (st.elems ref)[i]? with
      | none => trivial
      | some v => exact (hst.array ref href).2 v (Array.mem_of_getElem? hv)
  writeElement _ hv := matches_writeElement hv
  size {w ref} _ := matches_reading fun st st' hst =>
    ⟨.ok (st.elems ref).size, rfl, by rw [← Store.elems_of_arrays hst.arrays]; rfl, trivial⟩
  close {w params body s} hs hbody := matches_ended fun st st' hst =>
    ⟨.ok (.closure st.closures params body s), { st with closures := st.closures + 1 },
      { st' with closures := st'.closures + 1 }, w, rfl, by rw [← hst.closures]; rfl,
      V.realm.refl w,
      hst.besideArrays rfl (by
        simp only [hst.arrays, hst.closures, hst.calls, hst.depth, hst.memory]) rfl, hs, hbody⟩
  host := matches_callHost

/-- If an interpreter that may want fuel is like the one with some fuel, it is like the one with all. -/
theorem alike_of_inner {r : Unit -> Inner} {m : Machine} {n : Nat}
    (h : V.comparison.Alike r (inner m n)) : V.comparison.Alike r (fully m) where
  eval hf he st st' hst := by
    refine (h.eval hf he st st' hst).imp id ?_
    rintro ⟨ending, st₁, st₁', w', hx, hy, hends, hrest⟩
    refine ⟨ending, st₁, st₁', w', hx, ?_, hends, hrest⟩
    rw [← hy]
    exact (steady_eval m _ _).limit_eq (n := n) (by
      show ¬WantsFuel ((inner m n).eval _ _ st')
      rw [hy]
      exact not_wantsFuel_ended hends)
  exec hf ht st st' hst := by
    refine (h.exec hf ht st st' hst).imp id ?_
    rintro ⟨ending, st₁, st₁', w', hx, hy, hends, hrest⟩
    refine ⟨ending, st₁, st₁', w', hx, ?_, hends, hrest⟩
    rw [← hy]
    exact (steady_exec m _ _).limit_eq (n := n) (by
      show ¬WantsFuel ((inner m n).exec _ _ st')
      rw [hy]
      exact not_wantsFuel_ended hends)

/-- Code runs alike in stores that compare. -/
theorem alike (V : View) {m : Machine} (hm : ∀ name fn, m.hosts name = some fn -> Confined fn)
    (n : Nat) : V.comparison.Alike (fun _ => inner m n) (fully m) :=
  alike_of_inner (V.comparison.alike_inner hm n)

/-- The same with all the fuel that is wanted on both sides. -/
theorem alike_self (V : View) {m : Machine}
    (hm : ∀ name fn, m.hosts name = some fn -> Confined fn) :
    V.comparison.Alike (fun _ => fully m) (fully m) where
  eval {w f e} hf he st st' hst := by
    by_cases hwants : WantsFuel (evalFully m f e st)
    · exact .inl hwants
    · obtain ⟨n, hn⟩ := Steady.ends_of_limit hwants
      have hrun := (V.alike hm n).eval hf he st st' hst
      simp only [inner, ← hn] at hrun
      exact hrun
  exec {w f t} hf ht st st' hst := by
    by_cases hwants : WantsFuel (execFully m f t st)
    · exact .inl hwants
    · obtain ⟨n, hn⟩ := Steady.ends_of_limit hwants
      have hrun := (V.alike hm n).exec hf ht st st' hst
      simp only [inner, ← hn] at hrun
      exact hrun

end View

end Eval

end EarlyExit
