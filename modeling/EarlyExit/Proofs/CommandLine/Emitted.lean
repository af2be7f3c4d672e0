import EarlyExit.CommandLine.Execute
import Mathlib.Data.List.Induction

/-!
# Documents in the output folder

The document of an expanded unit is written under the base name of its path.  Paths from
different folders can have one base name, and of the documents written to a file the last
one counts; every other document is lost.
-/

namespace EarlyExit

/-! ## Base names -/

structure IsFileName (name : String) : Prop where
  whole : '/' ∉ name.toList
  not_empty : name ≠ ""
  not_here : name ≠ "."
  not_above : name ≠ ".."

namespace Files

theorem parts_below (folder : String) {name : String} (h : IsFileName name) :
    parts (folder ++ "/" ++ name) = parts folder ++ [name] := by
  have hname : name.toList.splitOnP (· == '/') = [name.toList] :=
    List.splitOnP_eq_singleton fun c hc => by
      simp only [beq_eq_false_iff_ne]
      rintro rfl
      exact h.whole hc
  have htext : (folder ++ "/" ++ name).toList = folder.toList ++ '/' :: name.toList := by
    simp
  simp only [parts, htext, List.splitOn]
  rw [List.splitOnP_append_cons _ _ (by simp), hname, List.map_append, List.map_singleton,
    String.ofList_toList]

/-- A last part that is a name is kept as it is. -/
theorem reduce_concat {name : String} (h : IsFileName name) (rooted : Bool)
    (done ps : List String) :
    reduce rooted done (ps ++ [name]) = reduce rooted done ps ++ [name] := by
  fun_induction reduce rooted done ps with
  | case1 done => simp [reduce, h.not_empty, h.not_here, h.not_above]
  | _ => simp_all [reduce]

theorem intercalate_concat (ps : List String) (name : String) :
    ("/".intercalate (ps ++ [name])).toList =
      ps.flatMap (fun p => p.toList ++ ['/']) ++ name.toList := by
  rw [String.toList_intercalate, List.map_append, List.map_singleton]
  induction ps with
  | nil => simp
  | cons p rest ih =>
      have hne : rest.map String.toList ++ [name.toList] ≠ [] := by simp
      obtain ⟨q, qs, hq⟩ := List.exists_cons_of_ne_nil hne
      rw [List.map_cons, List.cons_append, hq, List.intercalate_cons_cons, ← hq, ih]
      simp

/-- Below one folder, different names are different paths. -/
theorem join_injective {folder a b : String} (hfolder : folder ≠ "") (ha : IsFileName a)
    (hb : IsFileName b) : join folder a = join folder b ↔ a = b := by
  refine ⟨fun h => ?_, fun h => by rw [h]⟩
  have hrooted (name : String) :
      (folder ++ "/" ++ name).startsWith "/" = folder.startsWith "/" := by
    obtain ⟨c, cs, hcs⟩ := List.exists_cons_of_ne_nil (mt String.toList_eq_nil_iff.1 hfolder)
    rw [Bool.eq_iff_iff, String.startsWith_string_iff, String.startsWith_string_iff]
    simp [hcs]
  have hclean {name : String} (h : IsFileName name) : join folder name =
      (if folder.startsWith "/" then "/" else "") ++
        "/".intercalate (reduce (folder.startsWith "/") [] (parts folder) ++ [name]) := by
    have hkept : ("/".intercalate
        (reduce (folder.startsWith "/") [] (parts folder) ++ [name])).isEmpty = false := by
      rw [Bool.eq_false_iff, Ne, String.isEmpty_iff, ← String.toList_inj, intercalate_concat]
      simp [h.not_empty]
    rw [join, if_neg (by simpa using hfolder), clean, hrooted, parts_below folder h,
      reduce_concat h]
    simp only [hkept]
    split <;> simp
  rw [hclean ha, hclean hb, String.append_right_inj, ← String.toList_inj, intercalate_concat,
    intercalate_concat] at h
  exact String.toList_inj.1 (List.append_cancel_left h)

end Files

namespace CommandLine

open Batch (Outcome)

/-! ## What is left of several writes -/

theorem lookup_filter_ne (l : List (String × Data)) (k path : String) :
    (l.filter fun y => y.1 != k).lookup path = if path = k then none else l.lookup path := by
  induction l with
  | nil => simp
  | cons x rest ih =>
      obtain ⟨n, d⟩ := x
      by_cases hk : n = k
      · subst hk
        rw [List.filter_cons_of_neg (by simp), ih]
        by_cases hp : path = n
        · simp [hp]
        · simp [hp, List.lookup_cons, show (path == n) = false by simpa using hp]
      · rw [List.filter_cons_of_pos (by simpa using hk), List.lookup_cons, List.lookup_cons, ih]
        by_cases hp : path = n
        · subst hp
          simp [hk]
        · simp [show (path == n) = false by simpa using hp]

/-- A file holds what was written to it last. -/
theorem Output.files_lookup {o : Output} {path : String} {d : Data} :
    o.files.lookup path = some d ↔
      ∃ l r, o.written = l ++ (path, d) :: r ∧ ∀ x ∈ r, x.1 ≠ path := by
  unfold Output.files
  induction o.written using List.reverseRecOn with
  | nil => simp
  | append_singleton ws x ih =>
      obtain ⟨n, e⟩ := x
      have hlast {l : List (String × Data)} : ws ++ [(n, e)] = l ++ [(path, d)] ↔
          ws = l ∧ n = path ∧ e = d := by
        rw [List.append_singleton_inj, Prod.mk.injEq]
      have hmore {l r : List (String × Data)} {y : String × Data} :
          ws ++ [(n, e)] = l ++ (path, d) :: (r ++ [y]) ↔
            ws = l ++ (path, d) :: r ∧ (n, e) = y := by
        rw [← List.cons_append, ← List.append_assoc, List.append_singleton_inj]
      rw [List.foldl_append, List.foldl_cons, List.foldl_nil, List.lookup_append,
        lookup_filter_ne]
      by_cases hn : path = n
      · subst hn
        rw [if_pos rfl, Option.none_or, List.lookup_cons, BEq.rfl]
        constructor
        · intro h
          obtain rfl := Option.some.inj h
          exact ⟨ws, [], rfl, by simp⟩
        · rintro ⟨l, r, hsplit, hr⟩
          rcases List.eq_nil_or_concat r with rfl | ⟨r, y, rfl⟩
          · rw [(hlast.1 hsplit).2.2]
          · rw [List.concat_eq_append] at hsplit hr
            obtain ⟨-, rfl⟩ := hmore.1 hsplit
            exact absurd rfl (hr (path, e) (by simp))
      · have hbeq : (path == n) = false := by simpa using hn
        rw [if_neg hn, List.lookup_cons, hbeq, List.lookup_nil, Option.or_none, ih]
        constructor
        · rintro ⟨l, r, hsplit, hr⟩
          refine ⟨l, r ++ [(n, e)], hmore.2 ⟨hsplit, rfl⟩, fun y hy => ?_⟩
          rcases List.mem_append.1 hy with hy | hy
          · exact hr y hy
          · obtain rfl := List.mem_singleton.1 hy
            exact fun h => hn h.symm
        · rintro ⟨l, r, hsplit, hr⟩
          rcases List.eq_nil_or_concat r with rfl | ⟨r, y, rfl⟩
          · exact absurd (hlast.1 hsplit).2.1.symm hn
          · rw [List.concat_eq_append] at hsplit hr
            exact ⟨l, r, (hmore.1 hsplit).1, fun z hz => hr z (by simp [hz])⟩

/-! ## What is written -/

theorem failed_eq_false {o : Outcome} : o.failed = false ↔ ∃ u, o.unit? = some u := by
  unfold Outcome.failed Outcome.failure? Outcome.unit? Expansion.Report.unit?
  cases o.result with
  | error t => simp
  | ok r => cases h : r.result <;> simp [h]

theorem andThen_failure {o p : Output} (h : (o.andThen p).failure = none) :
    o.failure = none ∧ p.failure = none ∧ (o.andThen p).written = o.written ++ p.written := by
  unfold Output.andThen at h ⊢
  split at h
  next hf => simp [hf] at h
  next hf => exact ⟨hf, h, rfl⟩

theorem writeUnit_ok {fs : Files} {folder name : String} {u : CompilationUnit}
    (h : (writeUnit fs folder name u).failure = none) :
    ∃ d, Document.write u = .ok d ∧
      (writeUnit fs folder name u).written = [(outputPath folder name, d)] := by
  unfold writeUnit at h ⊢
  split at h
  · cases h
  next d hd =>
    rw [hd]
    dsimp only at h ⊢
    split at h
    · cases h
    · exact ⟨d, rfl, rfl⟩

def write? (folder : String) (o : Outcome) : Option (String × Data) :=
  o.unit?.bind fun u => (Document.write u).toOption.map fun d => (outputPath folder o.name, d)

theorem write?_eq_some {folder path : String} {d : Data} {o : Outcome} :
    write? folder o = some (path, d) ↔
      ∃ u, o.unit? = some u ∧ Document.write u = .ok d ∧ outputPath folder o.name = path := by
  unfold write?
  cases o.unit? with
  | none => simp
  | some u => cases h : Document.write u <;> simp [h, Except.toOption, and_comm]

/-- Outcomes are written in order. -/
theorem foldl_writeUnit {fs : Files} {folder : String} {f : Output -> Outcome -> Output}
    (hskip : ∀ done o, o.unit? = none -> f done o = done)
    (hstep : ∀ done o u, o.unit? = some u ->
      f done o = done.andThen (writeUnit fs folder o.name u))
    {os : List Outcome} {done : Output} (h : (os.foldl f done).failure = none) :
    done.failure = none ∧
      (os.foldl f done).written = done.written ++ os.filterMap (write? folder) ∧
      ∀ o ∈ os, ∀ u, o.unit? = some u -> ∃ d, Document.write u = .ok d := by
  induction os generalizing done with
  | nil => exact ⟨h, by simp, by simp⟩
  | cons o rest ih =>
      rw [List.foldl_cons] at h ⊢
      obtain ⟨hone, hwritten, hrest⟩ := ih h
      rw [hwritten]
      cases hu : o.unit? with
      | none =>
          rw [hskip done o hu] at hone ⊢
          rw [List.filterMap_cons_none (by simp [write?, hu])]
          exact ⟨hone, rfl, by simpa [hu] using hrest⟩
      | some u =>
          rw [hstep done o u hu] at hone ⊢
          obtain ⟨hdone, hone, hboth⟩ := andThen_failure hone
          obtain ⟨d, hd, hpath⟩ := writeUnit_ok hone
          have hwrite : write? folder o = some (outputPath folder o.name, d) :=
            write?_eq_some.2 ⟨u, hu, hd, rfl⟩
          rw [List.filterMap_cons_some hwrite, hboth, hpath]
          refine ⟨hdone, by simp, fun o' ho' v hv => ?_⟩
          rcases List.mem_cons.1 ho' with rfl | ho'
          · obtain rfl := Option.some.inj (hu.symm.trans hv)
            exact ⟨d, hd⟩
          · exact hrest o' ho' v hv

theorem emit_ok {fs : Files} {folder format : String} {os : List Outcome} (hfolder : folder ≠ "")
    (h : (emit fs folder format os).failure = none) :
    (emit fs folder format os).written = os.filterMap (write? folder) ∧
      ∀ o ∈ os, ∀ u, o.unit? = some u -> ∃ d, Document.write u = .ok d := by
  have hempty : folder.isEmpty = false := by simpa using hfolder
  unfold emit at h ⊢
  simp only [hempty, Bool.false_eq_true, if_false] at h ⊢
  cases hfs : fs.makeFolder folder with
  | error m => simp [hfs, Output.failing] at h
  | ok fs' =>
      simp only [hfs] at h ⊢
      simpa using (foldl_writeUnit (fun _ o hu => by rw [hu]) (fun _ o u hu => by rw [hu]) h).2

/-! ## Lost and kept documents -/

/-- The outcome's document is in its file: nothing that comes later goes to the same file. -/
def LastAt (folder path : String) (os : List Outcome) (o : Outcome) : Prop :=
  outputPath folder o.name = path ∧ ∃ before after, os = before ++ o :: after ∧
    ∀ o' ∈ after, o'.failed = false -> outputPath folder o'.name ≠ path

variable {fs : Files} {folder format : String} {os : List Outcome}

theorem emit_lookup (hfolder : folder ≠ "") (h : (emit fs folder format os).failure = none)
    {path : String} {d : Data} : (emit fs folder format os).files.lookup path = some d ↔
      ∃ o u, LastAt folder path os o ∧ o.unit? = some u ∧ Document.write u = .ok d := by
  obtain ⟨hwritten, hall⟩ := emit_ok hfolder h
  rw [Output.files_lookup, hwritten]
  constructor
  · rintro ⟨l, r, hsplit, hr⟩
    obtain ⟨before, rest, rfl, rfl, hrest⟩ := List.filterMap_eq_append_iff.1 hsplit
    obtain ⟨skipped, o, after, rfl, -, ho, rfl⟩ := List.filterMap_eq_cons_iff.1 hrest
    obtain ⟨u, hu, hd, hpath⟩ := write?_eq_some.1 ho
    refine ⟨o, u, ⟨hpath, before ++ skipped, after, by simp, fun o' ho' hok => ?_⟩, hu, hd⟩
    obtain ⟨u', hu'⟩ := failed_eq_false.1 hok
    obtain ⟨d', hd'⟩ := hall o' (by simp [ho']) u' hu'
    exact hr (outputPath folder o'.name, d')
      (List.mem_filterMap.2 ⟨o', ho', write?_eq_some.2 ⟨u', hu', hd', rfl⟩⟩)
  · rintro ⟨o, u, ⟨hpath, before, after, rfl, hafter⟩, hu, hd⟩
    refine ⟨before.filterMap (write? folder), after.filterMap (write? folder), ?_, fun x hx => ?_⟩
    · rw [List.filterMap_append, List.filterMap_cons_some (write?_eq_some.2 ⟨u, hu, hd, hpath⟩)]
    · obtain ⟨o', ho', hx⟩ := List.mem_filterMap.1 hx
      obtain ⟨u', hu', -, hpath'⟩ := write?_eq_some.1 hx
      rw [← hpath']
      exact hafter o' ho' (failed_eq_false.2 ⟨u', hu'⟩)

/--
Emitting that ends well.  A file of the folder holds the document of the last unit that goes
there.  So no document is lost if the units go to different files, which paths of files do
just if their base names are different; of two units with one base name the first is lost.
-/
theorem emit_holds (hfolder : folder ≠ "") (h : (emit fs folder format os).failure = none) :
    (∀ path d, (emit fs folder format os).files.lookup path = some d ↔
      ∃ o u, LastAt folder path os o ∧ o.unit? = some u ∧ Document.write u = .ok d) ∧
    (os.Pairwise (fun a b => a.failed = false -> b.failed = false ->
        outputPath folder a.name ≠ outputPath folder b.name) ->
      ∀ o ∈ os, o.failed = false -> ∃ u d, o.unit? = some u ∧ Document.write u = .ok d ∧
        (emit fs folder format os).files.lookup (outputPath folder o.name) = some d) ∧
    ∀ a b, IsFileName (baseName a) -> IsFileName (baseName b) ->
      (outputPath folder a = outputPath folder b ↔ baseName a = baseName b) := by
  refine ⟨fun path d => emit_lookup hfolder h, fun hapart o ho hok => ?_,
    fun a b ha hb => Files.join_injective hfolder ha hb⟩
  obtain ⟨u, hu⟩ := failed_eq_false.1 hok
  obtain ⟨d, hd⟩ := (emit_ok hfolder h).2 o ho u hu
  obtain ⟨before, after, rfl⟩ := List.append_of_mem ho
  refine ⟨u, d, hu, hd, (emit_lookup hfolder h).2 ⟨o, u, ⟨rfl, before, after, rfl, ?_⟩, hu, hd⟩⟩
  intro o' ho' hok' heq
  have hafter := (List.pairwise_append.1 hapart).2.1
  exact (List.pairwise_cons.1 hafter).1 o' ho' hok hok' heq.symm

def bareUnit (method : String) : CompilationUnit where
  file := "X.java"
  methods := [{ name := method }]

/-- Units from two folders, under one base name. -/
def sameNames : List Outcome :=
  [("a/x.yaml", "first"), ("b/x.yaml", "second")].map fun (name, method) =>
    ⟨name, .ok { result := .ok (bareUnit method), sites := 0, events := [] }⟩

/-- The document of the second unit is in the place of the first. -/
theorem emit_holds_sameNames :
    (emit {} "out" "yaml" sameNames).failure = none ∧
      ∃ d, Document.write (bareUnit "second") = .ok d ∧
        (emit {} "out" "yaml" sameNames).files.lookup "out/x.yaml" = some d := by
  have hdone : (emit {} "out" "yaml" sameNames).failure = none :=
    Option.isNone_iff_eq_none.1 (by decide +kernel)
  have hfolder : "out" ≠ "" := by decide
  have hpath : outputPath "out" "b/x.yaml" = "out/x.yaml" := by decide +kernel
  have hlast : LastAt "out" "out/x.yaml" sameNames
      ⟨"b/x.yaml", .ok { result := .ok (bareUnit "second"), sites := 0, events := [] }⟩ :=
    ⟨hpath, sameNames.take 1, [], rfl, by simp⟩
  obtain ⟨d, hd⟩ := (emit_ok hfolder hdone).2 _ (List.mem_cons_of_mem _ List.mem_cons_self)
    (bareUnit "second") rfl
  exact ⟨hdone, d, hd, ((emit_holds hfolder hdone).1 _ _).2 ⟨_, _, hlast, rfl, hd⟩⟩

end CommandLine

end EarlyExit
