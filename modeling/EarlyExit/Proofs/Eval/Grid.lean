import EarlyExit.Eval.Operation
import Mathlib.Data.List.Nodup

/-!
# New arrays of several dimensions

An array made with its sizes given is a grid: as many elements as the first size says, each
an array of the sizes behind, down to zeros.  No two of these arrays are one.  A size is
looked at when an array of that size is made, so a negative one is noticed unless a size in
front of it is zero.
-/

namespace EarlyExit

namespace Store

/-- The arrays that were there are still there, and nothing else has changed. -/
def Extends (st st' : Store) : Prop :=
  ∃ new : Array (Array Value), st' = { st with arrays := st.arrays ++ new }

/-- A value with arrays of the given sizes in it, the outermost first, down to a value. -/
def Grid (st : Store) (leaf : Value) : List Nat -> Value -> Prop
  | [], v => v = leaf
  | size :: inner, v => ∃ ref, v = .array ref ∧ ref < st.arrays.size ∧
      (st.elems ref).size = size ∧ ∀ w ∈ st.elems ref, Grid st leaf inner w

/-- The arrays in a value down to a depth, each as often as it is come across. -/
def rows (st : Store) : Nat -> Value -> List Nat
  | depth + 1, .array ref => ref :: (st.elems ref).toList.flatMap (rows st depth)
  | _, _ => []

variable {st st' st'' : Store} {leaf v : Value} {sizes : List Nat}

namespace Extends

theorem refl (st : Store) : st.Extends st :=
  ⟨#[], by simp⟩

theorem trans (h : st.Extends st') (h' : st'.Extends st'') : st.Extends st'' := by
  obtain ⟨new, rfl⟩ := h
  obtain ⟨new', rfl⟩ := h'
  exact ⟨new ++ new', by simp [Array.append_assoc]⟩

theorem alloc (st : Store) (xs : Array Value) : st.Extends (st.alloc xs).2 :=
  ⟨#[xs], by simp [Store.alloc]⟩

theorem size_le (h : st.Extends st') : st.arrays.size ≤ st'.arrays.size := by
  obtain ⟨new, rfl⟩ := h
  simp

theorem elems_eq (h : st.Extends st') {ref : Nat} (href : ref < st.arrays.size) :
    st'.elems ref = st.elems ref := by
  obtain ⟨new, rfl⟩ := h
  simp [elems, Array.getD_eq_getD_getElem?, Array.getElem?_append_left href]

/-- A grid stays one, -/
theorem grid (h : st.Extends st') (hv : st.Grid leaf sizes v) : st'.Grid leaf sizes v := by
  induction sizes generalizing v with
  | nil => exact hv
  | cons size inner ih =>
      obtain ⟨ref, rfl, hlt, hsize, helems⟩ := hv
      refine ⟨ref, rfl, Nat.lt_of_lt_of_le hlt h.size_le, ?_⟩
      rw [h.elems_eq hlt]
      exact ⟨hsize, fun w hw => ih (helems w hw)⟩

/-- with the same arrays in it. -/
theorem rows_eq (h : st.Extends st') (hv : st.Grid leaf sizes v) :
    st'.rows sizes.length v = st.rows sizes.length v := by
  induction sizes generalizing v with
  | nil => rfl
  | cons size inner ih =>
      obtain ⟨ref, rfl, hlt, -, helems⟩ := hv
      simp only [List.length_cons, rows, h.elems_eq hlt]
      refine congrArg (ref :: ·) (List.flatMap_congr fun w hw => ?_)
      exact ih (helems w (Array.mem_toList_iff.1 hw))

end Extends

/-- Grids of one shape, with no array in common and none that was there before. -/
structure NewGrids (st st' : Store) (leaf : Value) (sizes : List Nat) (vs : List Value) :
    Prop where
  extended : st.Extends st'
  grid : ∀ v ∈ vs, st'.Grid leaf sizes v
  fresh : ∀ r ∈ vs.flatMap (st'.rows sizes.length), st.arrays.size ≤ r ∧ r < st'.arrays.size
  nodup : (vs.flatMap (st'.rows sizes.length)).Nodup

namespace NewGrids

variable {vs : List Value}

theorem nil (st : Store) : NewGrids st st leaf sizes [] :=
  ⟨.refl st, by simp, by simp, by simp⟩

/-- Grids without dimensions are the values themselves. -/
theorem leaves (st : Store) (leaf : Value) (count : Nat) :
    NewGrids st st leaf [] (List.replicate count leaf) := by
  have hrows : (List.replicate count leaf).flatMap (st.rows 0) = [] :=
    List.flatMap_eq_nil_iff.2 fun _ _ => by simp [rows]
  refine ⟨.refl st, fun v hv => List.eq_of_mem_replicate hv, ?_, ?_⟩
  · rw [List.length_nil, hrows]
    simp
  · rw [List.length_nil, hrows]
    exact List.nodup_nil

/-- What is made later has no array in common with what is there. -/
theorem concat (h : NewGrids st st' leaf sizes vs) (h' : NewGrids st' st'' leaf sizes [v]) :
    NewGrids st st'' leaf sizes (vs ++ [v]) := by
  have hrows : (vs ++ [v]).flatMap (st''.rows sizes.length) =
      vs.flatMap (st'.rows sizes.length) ++ st''.rows sizes.length v := by
    rw [List.flatMap_append, List.flatMap_singleton]
    exact congrArg (· ++ _) (List.flatMap_congr fun w hw => h'.extended.rows_eq (h.grid w hw))
  have hfresh : ∀ r ∈ st''.rows sizes.length v, st'.arrays.size ≤ r ∧ r < st''.arrays.size := by
    simpa using h'.fresh
  have hnodup : (st''.rows sizes.length v).Nodup := by
    simpa using h'.nodup
  refine ⟨h.extended.trans h'.extended, ?_, ?_, ?_⟩
  · intro w hw
    rcases List.mem_append.1 hw with hw | hw
    · exact h'.extended.grid (h.grid w hw)
    · exact h'.grid w hw
  · intro r hr
    rw [hrows] at hr
    rcases List.mem_append.1 hr with hr | hr
    · exact ⟨(h.fresh r hr).1, Nat.lt_of_lt_of_le (h.fresh r hr).2 h'.extended.size_le⟩
    · exact ⟨Nat.le_trans h.extended.size_le (hfresh r hr).1, (hfresh r hr).2⟩
  · rw [hrows, List.nodup_append']
    refine ⟨h.nodup, hnodup, fun r hr hr' => ?_⟩
    exact absurd (h.fresh r hr).2 (Nat.not_lt.2 (hfresh r hr').1)

/-- An array of grids is a grid of one dimension more. -/
theorem alloc (h : NewGrids st st' leaf sizes vs) :
    NewGrids st (st'.alloc vs.toArray).2 leaf (vs.length :: sizes) [(st'.alloc vs.toArray).1] := by
  have hext : st'.Extends (st'.alloc vs.toArray).2 := .alloc st' _
  have helems : (st'.alloc vs.toArray).2.elems st'.arrays.size = vs.toArray := by
    simp [Store.alloc, elems, Array.getD_eq_getD_getElem?]
  have hsize : (st'.alloc vs.toArray).2.arrays.size = st'.arrays.size + 1 := Array.size_push _
  have hrows : [(st'.alloc vs.toArray).1].flatMap
      ((st'.alloc vs.toArray).2.rows (vs.length :: sizes).length) =
        st'.arrays.size :: vs.flatMap (st'.rows sizes.length) := by
    rw [List.flatMap_singleton]
    show st'.arrays.size :: ((st'.alloc vs.toArray).2.elems st'.arrays.size).toList.flatMap _ = _
    rw [helems]
    exact congrArg (_ :: ·) (List.flatMap_congr fun w hw => hext.rows_eq (h.grid w hw))
  refine ⟨h.extended.trans hext, ?_, ?_, ?_⟩
  · intro w hw
    obtain rfl := List.mem_singleton.1 hw
    refine ⟨st'.arrays.size, rfl, by omega, by simp [helems], fun u hu => ?_⟩
    rw [helems] at hu
    exact hext.grid (h.grid u (List.mem_toArray.1 hu))
  · intro r hr
    rw [hrows] at hr
    rcases List.mem_cons.1 hr with rfl | hr
    · exact ⟨h.extended.size_le, by omega⟩
    · have hr := h.fresh r hr
      omega
  · rw [hrows, List.nodup_cons]
    exact ⟨fun hr => Nat.lt_irrefl _ (h.fresh _ hr).2, h.nodup⟩

end NewGrids

end Store

namespace Eval

open Store

variable {st st' : Store} {type : String}

/-- Making one grid after another. -/
theorem collect_grids {x : Run Value} {leaf : Value} {sizes : List Nat}
    (hx : ∀ st, ∃ v st', x st = .ok v st' ∧ NewGrids st st' leaf sizes [v]) (count : Nat)
    (done : List Value) (hdone : NewGrids st st' leaf sizes done.reverse) :
    ∃ vs st'', collect x count done st' = .ok vs st'' ∧ vs.length = done.length + count ∧
      NewGrids st st'' leaf sizes vs := by
  induction count generalizing st' done with
  | zero => exact ⟨done.reverse, st', rfl, by simp, hdone⟩
  | succ count ih =>
      obtain ⟨v, st₁, hrun, hv⟩ := hx st'
      have hdone' : NewGrids st st₁ leaf sizes (v :: done).reverse := by
        rw [List.reverse_cons]
        exact hdone.concat hv
      obtain ⟨vs, st₂, hrest, hlength, hvs⟩ := ih (v :: done) hdone'
      refine ⟨vs, st₂, ?_, by simp only [hlength, List.length_cons]; omega, hvs⟩
      show EStateM.bind x (fun a => collect x count (a :: done)) st' = _
      simp only [EStateM.bind, hrun]
      exact hrest

theorem makeArray_negative {n : Int64} (hn : n < 0) (inner : List Value) (st : Store) :
    makeArray type (.int n :: inner) st = .error (.thrown
      (.exception "NegativeArraySizeException" (toString n.toInt))) st := by
  rw [makeArray, if_pos hn]
  rfl

theorem makeArray_row {n : Int64} (hn : ¬n < 0) :
    makeArray type [.int n] = Run.alloc (List.replicate n.toInt.toNat (.zero type)) := by
  simp [makeArray, hn]

theorem makeArray_rows {n : Int64} (hn : ¬n < 0) {inner : List Value} (hinner : inner ≠ []) :
    makeArray type (.int n :: inner) =
      (do Run.alloc (← collect (makeArray type inner) n.toInt.toNat [])) := by
  simp [makeArray, hn, hinner]

theorem toNat_pos {n : Int64} (h : 0 < n) : 0 < n.toInt.toNat := by
  have := Int64.lt_iff_toInt_lt.1 h
  simp at this
  omega

/-- A negative size is noticed if all sizes in front of it are positive. -/
theorem makeArray_throws {outer inner : List Int64} {n : Int64} (hn : n < 0)
    (houter : ∀ d ∈ outer, 0 < d) (st : Store) :
    makeArray type ((outer ++ n :: inner).map .int) st = .error (.thrown
      (.exception "NegativeArraySizeException" (toString n.toInt))) st := by
  induction outer with
  | nil => exact makeArray_negative hn _ st
  | cons d outer ih =>
      have hd : (0 : Int64) < d := houter d List.mem_cons_self
      obtain ⟨count, hcount⟩ := Nat.exists_eq_add_one_of_ne_zero (Nat.pos_iff_ne_zero.1 (toNat_pos hd))
      have hfirst := ih fun e he => houter e (List.mem_cons_of_mem d he)
      rw [List.cons_append, List.map_cons, makeArray_rows (Int64.not_lt.2 (Int64.le_of_lt hd))
        (by simp), hcount]
      show EStateM.bind (EStateM.bind (makeArray type _) _) _ st = _
      simp only [EStateM.bind, hfirst]

/-- Without a negative size that is noticed there is a new grid. -/
theorem makeArray_makes (type : String) {dims : List Int64} (hdims : dims ≠ [])
    (hnoticed : ∀ outer n inner, dims = outer ++ n :: inner -> n < 0 -> ∃ d ∈ outer, d ≤ 0)
    (st : Store) :
    ∃ v st', makeArray type (dims.map .int) st = .ok v st' ∧
      NewGrids st st' (.zero type) (dims.map fun n => n.toInt.toNat) [v] := by
  induction dims generalizing st with
  | nil => exact absurd rfl hdims
  | cons n inner ih =>
      have hn : ¬n < 0 := fun hn => by simpa using hnoticed [] n inner rfl hn
      by_cases hinner : inner = []
      · subst hinner
        have hgrid := (NewGrids.leaves st (.zero type) n.toInt.toNat).alloc
        rw [List.length_replicate] at hgrid
        refine ⟨_, _, ?_, hgrid⟩
        rw [List.map_cons, List.map_nil, makeArray_row hn]
        rfl
      · by_cases hzero : n = 0
        · subst hzero
          refine ⟨_, _, ?_, (NewGrids.nil st).alloc⟩
          rw [List.map_cons, makeArray_rows hn (by simpa using hinner)]
          rfl
        · have hinner' : ∀ outer k rest, inner = outer ++ k :: rest -> k < 0 -> ∃ d ∈ outer, d ≤ 0 := by
            intro outer k rest hsplit hk
            obtain ⟨d, hd, hle⟩ := hnoticed (n :: outer) k rest (by simp [hsplit]) hk
            rcases List.mem_cons.1 hd with rfl | hd
            · exact absurd (Int64.le_antisymm hle (Int64.not_lt.1 hn)) hzero
            · exact ⟨d, hd, hle⟩
          obtain ⟨vs, st', hrun, hlength, hvs⟩ :=
            collect_grids (ih hinner hinner') n.toInt.toNat [] (NewGrids.nil st)
          have hgrid := hvs.alloc
          rw [hlength, List.length_nil, Nat.zero_add] at hgrid
          refine ⟨_, _, ?_, hgrid⟩
          rw [List.map_cons, makeArray_rows hn (by simpa using hinner)]
          show EStateM.bind (collect _ _ []) _ st = _
          simp only [EStateM.bind, hrun]
          rfl

/--
Making an array of one dimension or more.  A negative size is thrown, before anything is made,
if all sizes in front of it are positive.  If every negative size has one in front of it that
is not, the result is a new grid of exactly these sizes that ends in zeros, all of its arrays
are different ones, and nothing that was there changes.
-/
theorem makeArray_shape (type : String) {dims : List Int64} (hdims : dims ≠ []) (st : Store) :
    (∀ outer n inner, dims = outer ++ n :: inner -> n < 0 -> (∀ d ∈ outer, 0 < d) ->
      makeArray type (dims.map .int) st = .error (.thrown
        (.exception "NegativeArraySizeException" (toString n.toInt))) st) ∧
    ((∀ outer n inner, dims = outer ++ n :: inner -> n < 0 -> ∃ d ∈ outer, d ≤ 0) ->
      ∃ v st', makeArray type (dims.map .int) st = .ok v st' ∧ st.Extends st' ∧
        st'.Grid (.zero type) (dims.map fun n => n.toInt.toNat) v ∧
        (st'.rows dims.length v).Nodup ∧
        ∀ r ∈ st'.rows dims.length v, st.arrays.size ≤ r) := by
  constructor
  · rintro outer n inner rfl hn houter
    exact makeArray_throws hn houter st
  · intro hnoticed
    obtain ⟨v, st', hrun, hv⟩ := makeArray_makes type hdims hnoticed st
    have hfresh := hv.fresh
    have hnodup := hv.nodup
    rw [List.flatMap_singleton, List.length_map] at hfresh hnodup
    exact ⟨v, st', hrun, hv.extended, hv.grid v (by simp), hnodup, fun r hr => (hfresh r hr).1⟩

/-- Two rows without elements: the negative size behind them is not noticed. -/
theorem makeArray_shape_emptyRows :
    ∃ v st', makeArray "int" [.int 2, .int 0, .int (-1)] {} = .ok v st' ∧
      st'.Grid (.zero "int") [2, 0, 0] v ∧ (st'.rows 3 v).Nodup := by
  have hnoticed : ∀ outer n inner, ([2, 0, -1] : List Int64) = outer ++ n :: inner -> n < 0 ->
      ∃ d ∈ outer, d ≤ 0 := by
    rintro (_ | ⟨a, _ | ⟨b, _ | ⟨c, _ | ⟨d, outer⟩⟩⟩⟩) n inner hsplit hn
    all_goals simp at hsplit
    · obtain ⟨rfl, -⟩ := hsplit
      cases hn
    · obtain ⟨rfl, rfl, -⟩ := hsplit
      cases hn
    · exact ⟨0, by simp [hsplit.2.1], by decide⟩
  obtain ⟨v, st', hrun, -, hgrid, hnodup, -⟩ :=
    (makeArray_shape "int" (by simp : ([2, 0, -1] : List Int64) ≠ []) {}).2 hnoticed
  exact ⟨v, st', hrun, hgrid, hnodup⟩

end Eval

end EarlyExit
