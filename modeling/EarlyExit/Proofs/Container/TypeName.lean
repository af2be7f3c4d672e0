import EarlyExit.Container.Registry
import Mathlib.Data.List.Basic

/-!
# Type names in parts

A type name is written with its qualifier in front, and with type arguments and the brackets of
an array type behind it.  What is left of it when the kind is looked up is the name, except that
the brackets are only dropped together with type arguments: on a raw type they stay.
-/

namespace EarlyExit

/-! ## Blanks around a text -/

namespace Text

/-- A text that neither begins nor ends in a blank. -/
structure Tight (cs : List Char) : Prop where
  first : ∃ c, cs.head? = some c ∧ isBlank c = false
  last : ∃ c, cs.getLast? = some c ∧ isBlank c = false

theorem dropWhile_blanks {before cs : List Char} (hbefore : ∀ c ∈ before, isBlank c = true)
    (hfirst : ∃ c, cs.head? = some c ∧ isBlank c = false) :
    (before ++ cs).dropWhile isBlank = cs := by
  obtain ⟨c, hhead, hc⟩ := hfirst
  obtain ⟨rest, rfl⟩ := List.head?_eq_some_iff.1 hhead
  rw [List.dropWhile_append_of_pos hbefore, List.dropWhile_cons_of_neg (by simp [hc])]

theorem trim_around {before cs after : List Char} (hcs : Tight cs)
    (hbefore : ∀ c ∈ before, isBlank c = true) (hafter : ∀ c ∈ after, isBlank c = true) :
    trim (String.ofList (before ++ cs ++ after)) = String.ofList cs := by
  obtain ⟨c, hhead, hc⟩ := hcs.first
  have hfront : (before ++ cs ++ after).dropWhile isBlank = cs ++ after := by
    rw [List.append_assoc]
    exact dropWhile_blanks hbefore ⟨c, by simp [hhead], hc⟩
  have hback : ((cs ++ after).reverse.dropWhile isBlank).reverse = cs := by
    rw [List.reverse_append, dropWhile_blanks (by simpa using hafter) (by simpa using hcs.last),
      List.reverse_reverse]
  simp only [trim, trimLeft, trimRight, String.toList_ofList, hfront, hback]

theorem trim_tight {cs : List Char} (hcs : Tight cs) :
    trim (String.ofList cs) = String.ofList cs := by
  simpa using @trim_around [] cs [] hcs (by simp) (by simp)

end Text

open Text

/-! ## Cuts -/

theorem beforeFirst_append {c : Char} {cs rest : List Char} (h : c ∉ cs) :
    beforeFirst c (cs ++ rest) = cs ++ beforeFirst c rest :=
  List.takeWhile_append_of_pos fun d hd => by
    simpa using fun heq : d = c => h (heq ▸ hd)

theorem afterLast_append {c : Char} {front cs : List Char} (h : c ∉ cs)
    (hfront : front = [] ∨ front.getLast? = some c) : afterLast c (front ++ cs) = cs := by
  have hcs : ∀ d ∈ cs.reverse, (d != c) = true := fun d hd => by
    simpa using fun heq : d = c => h (heq ▸ List.mem_reverse.1 hd)
  have hstop : front.reverse.takeWhile (· != c) = [] := by
    rcases hfront with rfl | hlast
    · rfl
    · obtain ⟨init, rfl⟩ := List.getLast?_eq_some_iff.1 hlast
      simp
  rw [afterLast, List.reverse_append, List.takeWhile_append_of_pos hcs, hstop, List.append_nil,
    List.reverse_reverse]

/-! ## Type names -/

/-- A text that can be an identifier: neither blank nor a mark that divides a type name. -/
def IsWord (s : String) : Prop :=
  s.toList ≠ [] ∧ ∀ c ∈ s.toList, c ≠ '.' ∧ c ≠ '<' ∧ isBlank c = false

theorem IsWord.tight {s : String} (h : IsWord s) : Tight s.toList where
  first := ⟨_, List.head?_eq_some_head h.1, (h.2 _ (List.head_mem _)).2.2⟩
  last := ⟨_, List.getLast?_eq_some_getLast h.1, (h.2 _ (List.getLast_mem _)).2.2⟩

structure TypeName where
  /-- The packages and classes that the name is in. -/
  qualifiers : List String
  name : String
  /-- What stands between the angle brackets; a raw type has none. -/
  arguments : Option String
  /-- How many pairs of square brackets follow. -/
  rank : Nat
  words : ∀ w ∈ name :: qualifiers, IsWord w

namespace TypeName

variable (t : TypeName)

def qualifierText : List Char :=
  t.qualifiers.flatMap fun w => w.toList ++ ['.']

def argumentText : List Char :=
  match t.arguments with
  | none => []
  | some inner => '<' :: (inner.toList ++ ['>'])

def brackets : List Char :=
  (List.replicate t.rank ['[', ']']).flatten

def text : List Char :=
  t.qualifierText ++ t.name.toList ++ t.argumentText ++ t.brackets

/-- The brackets that no type arguments are in front of. -/
def looseBrackets : List Char :=
  if t.arguments.isSome then [] else t.brackets

theorem isWord_name : IsWord t.name :=
  t.words _ List.mem_cons_self

theorem not_blank_bracket {c : Char} (h : c = '[' ∨ c = ']') : isBlank c = false := by
  rcases h with rfl | rfl <;> decide

theorem qualifierText_getLast? : t.qualifierText = [] ∨ t.qualifierText.getLast? = some '.' := by
  unfold qualifierText
  rcases List.eq_nil_or_concat t.qualifiers with hnil | ⟨init, w, hsplit⟩
  · simp [hnil]
  · simp [hsplit, List.concat_eq_append]

theorem angle_not_mem_qualifierText : '<' ∉ t.qualifierText := by
  intro hmem
  obtain ⟨w, hw, hmem⟩ := List.mem_flatMap.1 hmem
  rcases List.mem_append.1 hmem with hmem | hmem
  · exact ((t.words w (List.mem_cons_of_mem _ hw)).2 _ hmem).2.1 rfl
  · simp at hmem

theorem mem_brackets {c : Char} (h : c ∈ t.brackets) : c = '[' ∨ c = ']' := by
  obtain ⟨pair, hpair, hc⟩ := List.mem_flatten.1 h
  rw [List.eq_of_mem_replicate hpair] at hc
  simpa using hc

theorem mem_looseBrackets {c : Char} (h : c ∈ t.looseBrackets) : c = '[' ∨ c = ']' := by
  unfold looseBrackets at h
  split at h
  next => cases h
  next => exact t.mem_brackets h

theorem tight_text : Tight t.text where
  first := by
    unfold text qualifierText
    -- the text begins with its first word, which is the name if there is no qualifier
    cases hq : t.qualifiers with
    | nil =>
        obtain ⟨c, hhead, hc⟩ := t.isWord_name.tight.first
        exact ⟨c, by simp [hhead], hc⟩
    | cons w rest =>
        obtain ⟨c, hhead, hc⟩ := (t.words w (by simp [hq])).tight.first
        exact ⟨c, by simp [hhead], hc⟩
  last := by
    unfold text
    rw [List.getLast?_append]
    cases hend : t.brackets.getLast? with
    | some d => exact ⟨d, rfl, not_blank_bracket (t.mem_brackets (List.mem_of_getLast? hend))⟩
    | none =>
        unfold argumentText
        cases t.arguments with
        | some inner =>
            exact ⟨'>', by simp [List.getLast?_cons], by decide⟩
        | none =>
            obtain ⟨c, hlast, hc⟩ := t.isWord_name.tight.last
            exact ⟨c, by simp [hlast], hc⟩

theorem tight_rest : Tight (t.name.toList ++ t.looseBrackets) where
  first := by
    obtain ⟨c, hhead, hc⟩ := t.isWord_name.tight.first
    exact ⟨c, by simp [hhead], hc⟩
  last := by
    rw [List.getLast?_append]
    cases hend : t.looseBrackets.getLast? with
    | some d => exact ⟨d, rfl, not_blank_bracket (t.mem_looseBrackets (List.mem_of_getLast? hend))⟩
    | none => simpa using t.isWord_name.tight.last

/-- Type arguments are cut off with the brackets behind them. -/
theorem beforeFirst_text :
    beforeFirst '<' t.text = t.qualifierText ++ (t.name.toList ++ t.looseBrackets) := by
  have hname : '<' ∉ t.name.toList := fun hmem => (t.isWord_name.2 _ hmem).2.1 rfl
  rw [text, List.append_assoc, List.append_assoc, beforeFirst_append t.angle_not_mem_qualifierText,
    beforeFirst_append hname]
  unfold argumentText looseBrackets
  cases t.arguments with
  | some inner => simp [beforeFirst]
  | none =>
      have hbrackets : '<' ∉ t.brackets := fun hmem => by
        simpa using t.mem_brackets hmem
      simpa [beforeFirst] using @beforeFirst_append '<' t.brackets [] hbrackets

theorem afterLast_text :
    afterLast '.' (beforeFirst '<' t.text) = t.name.toList ++ t.looseBrackets := by
  rw [beforeFirst_text]
  refine afterLast_append (fun hmem => ?_) t.qualifierText_getLast?
  rcases List.mem_append.1 hmem with hmem | hmem
  · exact (t.isWord_name.2 _ hmem).1 rfl
  · simpa using t.mem_looseBrackets hmem

/-- The type name as it is written, between blanks. -/
def written (before after : List Char) : String :=
  String.ofList (before ++ t.text ++ after)

theorem baseType_eq {before after : List Char} (hbefore : ∀ c ∈ before, isBlank c = true)
    (hafter : ∀ c ∈ after, isBlank c = true) :
    baseType (t.written before after) = t.name ++ String.ofList t.looseBrackets := by
  unfold baseType written
  rw [trim_around t.tight_text hbefore hafter, String.toList_ofList, afterLast_text,
    trim_tight t.tight_rest]
  simp [String.ofList_append]

/-- A raw type without qualifier and brackets. -/
def ofWord (s : String) (h : IsWord s) : TypeName where
  qualifiers := []
  name := s
  arguments := none
  rank := 0
  words := by simpa using h

theorem baseType_word {s : String} (h : IsWord s) : baseType s = s := by
  have hwritten : (ofWord s h).written [] [] = s := by
    simp [written, text, ofWord, qualifierText, argumentText, brackets]
  have hbase := @baseType_eq (ofWord s h) [] [] (by simp) (by simp)
  rw [hwritten] at hbase
  simpa [ofWord, looseBrackets, brackets] using hbase

theorem looseBrackets_eq_nil : t.looseBrackets = [] ↔ t.arguments.isSome = true ∨ t.rank = 0 := by
  unfold looseBrackets brackets
  split
  next h => simp [h]
  next h => cases hrank : t.rank <;> simp [h, List.replicate_succ]

/--
What a type name is looked up by.  Blanks around it, its qualifier and its type arguments are
dropped, and brackets behind type arguments too, so then it denotes the kind that its name
denotes.  Brackets behind a raw type stay, and no class is named like that.
-/
theorem lookup_written {before after : List Char} (hbefore : ∀ c ∈ before, isBlank c = true)
    (hafter : ∀ c ∈ after, isBlank c = true) :
    baseType (t.written before after) = t.name ++ String.ofList t.looseBrackets ∧
      (baseType (t.written before after) = t.name ↔ t.arguments.isSome = true ∨ t.rank = 0) ∧
      (t.arguments.isSome = true ∨ t.rank = 0 ->
        (∀ r : Registry, r.lookup (t.written before after) = r.lookup t.name) ∧
          ∀ k : Kind, k.matches (t.written before after) = k.matches t.name) ∧
      ∀ r : Registry, (∀ owned ∈ r.owners, '[' ∉ owned.1.toList) ->
        ¬(t.arguments.isSome = true ∨ t.rank = 0) -> r.lookup (t.written before after) = none := by
  have hbase := t.baseType_eq hbefore hafter
  have hexact : baseType (t.written before after) = t.name ↔
      t.arguments.isSome = true ∨ t.rank = 0 := by
    rw [hbase, ← t.looseBrackets_eq_nil]
    simp
  refine ⟨hbase, hexact, fun h => ?_, fun r howners h => ?_⟩
  · have hsame : baseType (t.written before after) = baseType t.name :=
      (hexact.2 h).trans (baseType_word t.isWord_name).symm
    exact ⟨fun r => by rw [Registry.lookup, hsame, Registry.lookup],
      fun k => by simp only [Kind.matches, hsame]⟩
  · have hloose : '[' ∈ (baseType (t.written before after)).toList := by
      obtain ⟨hraw, hrank⟩ := not_or.1 h
      obtain ⟨n, hn⟩ := Nat.exists_eq_succ_of_ne_zero hrank
      simp [hbase, looseBrackets, hraw, brackets, hn, List.replicate_succ]
    refine List.lookup_eq_none_iff.2 fun owned howned => ?_
    have hne : baseType (t.written before after) ≠ owned.1 := fun heq =>
      howners owned howned (heq ▸ hloose)
    simpa using hne

/-- `io.vavr.control.Either<String, Integer>[]`, or without type arguments. -/
def eitherArray (arguments : Option String) : TypeName where
  qualifiers := ["io", "vavr", "control"]
  name := "Either"
  arguments := arguments
  rank := 1
  words := by simp [IsWord, isBlank]

/-- The array of a generic type has the kind of its elements; that of a raw type has none. -/
theorem lookup_written_eitherArray :
    (eitherArray (some "String, Integer")).written [' '] ['\t'] =
        " io.vavr.control.Either<String, Integer>[]\t" ∧
      Registry.standard.lookup " io.vavr.control.Either<String, Integer>[]\t" = some .either ∧
      (eitherArray none).written [] [] = "io.vavr.control.Either[]" ∧
      Registry.standard.lookup "io.vavr.control.Either[]" = none := by
  have hgeneric : (eitherArray (some "String, Integer")).written [' '] ['\t'] =
      " io.vavr.control.Either<String, Integer>[]\t" := by decide +kernel
  have hraw : (eitherArray none).written [] [] = "io.vavr.control.Either[]" := by decide +kernel
  have hfound := (@lookup_written (eitherArray (some "String, Integer")) [' '] ['\t']
    (by simp [isBlank]) (by simp [isBlank])).2.2.1 (.inl rfl)
  have howners : ∀ owned ∈ Registry.standard.owners, (!owned.1.toList.contains '[') = true :=
    List.all_eq_true.1 (by decide +kernel)
  have hmissed := (@lookup_written (eitherArray none) [] [] (by simp) (by simp)).2.2.2
    Registry.standard (by simpa using howners) (by decide)
  rw [hgeneric] at hfound
  rw [hraw] at hmissed
  exact ⟨hgeneric, (hfound.1 Registry.standard).trans (by decide +kernel), hraw, hmissed⟩

end TypeName

end EarlyExit
