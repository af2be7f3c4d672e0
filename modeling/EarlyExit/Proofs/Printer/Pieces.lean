import EarlyExit.Syntax.Printer
import Mathlib.Data.List.Basic

/-!
# Printed text by its brackets

The text of an expression as pieces: characters, and stretches between brackets.  What a
text says about its tree is read off the pieces outside of brackets, since a tree that
is set in brackets shows only its brackets there.  Pieces are determined by the text they
make, so two trees of one text have the same pieces.
-/

namespace EarlyExit

namespace Printer

/-! ## Cutting lists -/

section Cut

variable {α : Type} (stops : α -> Prop) {xs ys r r' : List α}

/-- A list is cut at one place only, if nothing stops it before and something stops it there. -/
theorem cut_unique (hxs : ∀ a ∈ xs, ¬ stops a) (hys : ∀ a ∈ ys, ¬ stops a)
    (hr : ∀ a ∈ r.head?, stops a) (hr' : ∀ a ∈ r'.head?, stops a) (h : xs ++ r = ys ++ r') :
    xs = ys ∧ r = r' := by
  induction xs generalizing ys with
  | nil =>
    cases ys with
    | nil => exact ⟨rfl, h⟩
    | cons y ys =>
      have hhead : y ∈ r.head? := by simp only [List.nil_append] at h; simp [h]
      exact absurd (hr y hhead) (hys y List.mem_cons_self)
  | cons x xs ih =>
    cases ys with
    | nil =>
      have hhead : x ∈ r'.head? := by simp only [List.nil_append] at h; simp [← h]
      exact absurd (hr' x hhead) (hxs x List.mem_cons_self)
    | cons y ys =>
      simp only [List.cons_append, List.cons.injEq] at h
      obtain ⟨rfl, h⟩ := h
      obtain ⟨rfl, rfl⟩ := ih (fun a ha => hxs a (List.mem_cons_of_mem _ ha))
        (fun a ha => hys a (List.mem_cons_of_mem _ ha)) h
      exact ⟨rfl, rfl⟩

/-- The same from the other end. -/
theorem cut_unique_right (hxs : ∀ a ∈ xs, ¬ stops a) (hys : ∀ a ∈ ys, ¬ stops a)
    (hr : ∀ a ∈ r.getLast?, stops a) (hr' : ∀ a ∈ r'.getLast?, stops a)
    (h : r ++ xs = r' ++ ys) : r = r' ∧ xs = ys := by
  have hrev : xs.reverse ++ r.reverse = ys.reverse ++ r'.reverse := by
    rw [← List.reverse_append, h, List.reverse_append]
  obtain ⟨hxs', hr'⟩ := cut_unique stops (by simpa using hxs) (by simpa using hys)
    (by simpa [List.head?_reverse] using hr) (by simpa [List.head?_reverse] using hr') hrev
  exact ⟨List.reverse_injective hr', List.reverse_injective hxs'⟩

/-- Parts between separators are determined, if no part is empty or holds the first separator. -/
theorem intercalate_injective {c : α} {sep : List α} {ps qs : List (List α)}
    (hps : ∀ p ∈ ps, p ≠ [] ∧ c ∉ p) (hqs : ∀ q ∈ qs, q ≠ [] ∧ c ∉ q)
    (h : (c :: sep).intercalate ps = (c :: sep).intercalate qs) : ps = qs := by
  have hne {p : List α} {rest : List (List α)} (hp : p ≠ []) :
      (c :: sep).intercalate (p :: rest) ≠ [] := by
    cases rest <;> simp [List.intercalate_cons_cons, hp]
  induction ps generalizing qs with
  | nil =>
    cases qs with
    | nil => rfl
    | cons q qs => exact absurd h.symm (hne (hqs q List.mem_cons_self).1)
  | cons p ps ih =>
    cases qs with
    | nil => exact absurd h (hne (hps p List.mem_cons_self).1)
    | cons q qs =>
      have hp := (hps p List.mem_cons_self).2
      have hq := (hqs q List.mem_cons_self).2
      match ps, qs with
      | [], [] => simpa using h
      | [], q' :: qs =>
        rw [List.intercalate_singleton, List.intercalate_cons_cons] at h
        exact absurd (by simp [h]) hp
      | p' :: ps, [] =>
        rw [List.intercalate_singleton, List.intercalate_cons_cons] at h
        exact absurd (by simp [← h]) hq
      | p' :: ps, q' :: qs =>
        rw [List.intercalate_cons_cons, List.intercalate_cons_cons, List.append_assoc,
          List.append_assoc] at h
        obtain ⟨rfl, htail⟩ := cut_unique (· = c) (fun a ha hac => hp (hac ▸ ha))
          (fun a ha hac => hq (hac ▸ ha)) (by simp) (by simp) h
        rw [ih (fun p hp => hps p (List.mem_cons_of_mem _ hp))
          (fun q hq => hqs q (List.mem_cons_of_mem _ hq)) (List.append_cancel_left htail)]

/-- Lists of the same images agree in everything that the image of an entry determines. -/
theorem map_eq_of_map_eq {β γ : Type} {f : α -> β} {g : α -> γ}
    (hfg : ∀ a ∈ xs, ∀ b ∈ ys, g a = g b -> f a = f b) (h : xs.map g = ys.map g) :
    xs.map f = ys.map f := by
  induction xs generalizing ys with
  | nil =>
    obtain rfl : ys = [] := by simpa using h.symm
    rfl
  | cons x xs ih =>
    cases ys with
    | nil => simp at h
    | cons y ys =>
      simp only [List.map_cons, List.cons.injEq] at h ⊢
      exact ⟨hfg x List.mem_cons_self y List.mem_cons_self h.1,
        ih (fun a ha b hb => hfg a (List.mem_cons_of_mem _ ha) b (List.mem_cons_of_mem _ hb)) h.2⟩

end Cut

/-! ## Pieces -/

/-- A character, or a stretch between round or square brackets. -/
inductive Piece
  | char (c : Char)
  | group (square : Bool) (inside : List Piece)
deriving Inhabited

def opening (square : Bool) : Char :=
  if square then '[' else '('

def closing (square : Bool) : Char :=
  if square then ']' else ')'

def isBracket (c : Char) : Bool :=
  c == '(' || c == ')' || c == '[' || c == ']'

namespace Piece

mutual

def render : Piece -> List Char
  | .char c => [c]
  | .group square inside => opening square :: (renderAll inside ++ [closing square])

def renderAll : List Piece -> List Char
  | [] => []
  | p :: ps => p.render ++ renderAll ps

end

/-- Brackets stand around groups only. -/
inductive Balanced : Piece -> Prop
  | char {c : Char} (h : isBracket c = false) : Balanced (.char c)
  | group {square : Bool} {inside : List Piece} (h : ∀ p ∈ inside, Balanced p) :
      Balanced (.group square inside)

@[simp] theorem renderAll_append (ps qs : List Piece) :
    renderAll (ps ++ qs) = renderAll ps ++ renderAll qs := by
  induction ps with
  | nil => rfl
  | cons p ps ih => simp [renderAll, ih]

theorem renderAll_intercalate (sep : List Piece) (parts : List (List Piece)) :
    renderAll (sep.intercalate parts) = (renderAll sep).intercalate (parts.map renderAll) := by
  induction parts with
  | nil => simp [renderAll]
  | cons p parts ih =>
    cases parts with
    | nil => simp
    | cons q parts => simpa using ih

/-- What follows a list of balanced pieces starts with a closing bracket or is nothing. -/
def Closes (r : List Char) : Prop :=
  ∀ c ∈ r.head?, c = ')' ∨ c = ']'

theorem closes_closing (square : Bool) (r : List Char) : Closes (closing square :: r) := by
  cases square <;> simp [Closes, closing]

theorem opening_injective {square square' : Bool} (h : opening square = opening square') :
    square = square' := by
  cases square <;> cases square' <;> simp_all [opening]

/-- No closing bracket is the first character of a balanced piece. -/
theorem Balanced.not_closes {p : Piece} (h : p.Balanced) (r : List Char) :
    ¬ Closes (p.render ++ r) := by
  intro hcloses
  cases h with
  | char h =>
    rename_i c
    have : c = ')' ∨ c = ']' := hcloses c (by simp [render])
    simp only [isBracket, Bool.or_eq_false_iff, beq_eq_false_iff_ne] at h
    grind
  | group h =>
    rename_i square inside
    have := hcloses (opening square) (by simp [render])
    cases square <;> simp [opening] at this

theorem Balanced.render_ne {c : Char} (h : (Piece.char c).Balanced) (square : Bool) :
    c ≠ opening square := by
  cases h with
  | char h =>
    rintro rfl
    cases square <;> simp [isBracket, opening] at h

/-- The text of balanced pieces determines them, and where it ends before a closing bracket. -/
theorem renderAll_injective : ∀ (ps qs : List Piece) {r r' : List Char},
    (∀ p ∈ ps, p.Balanced) -> (∀ q ∈ qs, q.Balanced) -> Closes r -> Closes r' ->
    renderAll ps ++ r = renderAll qs ++ r' -> ps = qs ∧ r = r'
  | [], [], r, r', _, _, _, _, h => ⟨rfl, by simpa [renderAll] using h⟩
  | [], q :: qs, r, r', _, hqs, hr, _, h => by
    refine absurd hr ?_
    have : r = q.render ++ (renderAll qs ++ r') := by simpa [renderAll] using h
    rw [this]
    exact (hqs q List.mem_cons_self).not_closes _
  | p :: ps, [], r, r', hps, _, _, hr', h => by
    refine absurd hr' ?_
    have : p.render ++ (renderAll ps ++ r) = r' := by simpa [renderAll] using h
    rw [← this]
    exact (hps p List.mem_cons_self).not_closes _
  | .char c :: ps, .char c' :: qs, r, r', hps, hqs, hr, hr', h => by
    simp only [renderAll, render, List.cons_append, List.nil_append, List.cons.injEq] at h
    obtain ⟨rfl, h⟩ := h
    obtain ⟨rfl, rfl⟩ := renderAll_injective ps qs (fun p hp => hps p (List.mem_cons_of_mem _ hp))
      (fun q hq => hqs q (List.mem_cons_of_mem _ hq)) hr hr' h
    exact ⟨rfl, rfl⟩
  | .char c :: ps, .group square inside :: qs, r, r', hps, _, _, _, h => by
    simp only [renderAll, render, List.cons_append, List.cons.injEq] at h
    exact absurd h.1 ((hps _ List.mem_cons_self).render_ne square)
  | .group square inside :: ps, .char c :: qs, r, r', _, hqs, _, _, h => by
    simp only [renderAll, render, List.cons_append, List.cons.injEq] at h
    exact absurd h.1.symm ((hqs _ List.mem_cons_self).render_ne square)
  | .group square inside :: ps, .group square' inside' :: qs, r, r', hps, hqs, hr, hr', h => by
    have hinside {sq : Bool} {ins : List Piece} (hp : (group sq ins).Balanced) :
        ∀ p ∈ ins, p.Balanced := by cases hp with | group h => exact h
    simp only [renderAll, render, List.cons_append, List.append_assoc, List.nil_append,
      List.cons.injEq] at h
    obtain ⟨hopen, h⟩ := h
    obtain rfl := opening_injective hopen
    obtain ⟨rfl, h⟩ := renderAll_injective inside inside' (hinside (hps _ List.mem_cons_self))
      (hinside (hqs _ List.mem_cons_self)) (closes_closing square _) (closes_closing square _) h
    obtain ⟨rfl, rfl⟩ := renderAll_injective ps qs (fun p hp => hps p (List.mem_cons_of_mem _ hp))
      (fun q hq => hqs q (List.mem_cons_of_mem _ hq)) hr hr' (by simpa using h)
    exact ⟨rfl, rfl⟩

end Piece

end Printer

end EarlyExit
