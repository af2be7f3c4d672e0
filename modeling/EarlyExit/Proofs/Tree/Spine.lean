import EarlyExit.Proofs.Tree.Replace

/-!
# Spines and paths

The spine of a place is made of the nodes at the beginnings of its path.  So a node
found on a spine can be reached by its own path, and what is above it is its own
spine.
-/

namespace EarlyExit

namespace Above

/-- A node above, with its path taken from further up. -/
def under (p : Path) (a : Above) : Above :=
  { a with path := p ++ a.path }

end Above

namespace Node

theorem spine_append {n c : Node} {p : Path} (h : n.at? p = some c) (q : Path) :
    n.spine (p ++ q) = (c.spine q).map (Above.under p) ++ n.spine p := by
  induction p generalizing n with
  | nil =>
      cases h
      have : (Above.under []) = id := rfl
      simp [spine, this]
  | cons slot rest ih =>
      obtain ⟨d, hd, hc⟩ := at?_cons_eq_some.1 h
      simp only [List.cons_append, spine, hd, ih hc, List.map_append, List.map_map,
        List.append_assoc]
      rfl

theorem spine_concat {n c : Node} {p : Path} (h : n.at? p = some c) {slot : Slot} {d : Node}
    (hd : c.get? slot = some d) : n.spine (p ++ [slot]) = ⟨p, c, slot⟩ :: n.spine p := by
  rw [spine_append h]
  simp [spine, hd, Above.under]

/-- The paths on a spine are the proper beginnings of its path. -/
theorem spine_paths {n c : Node} {p : Path} (h : n.at? p = some c) :
    (n.spine p).map (·.path) = p.above := by
  induction p generalizing n with
  | nil => rfl
  | cons slot rest ih =>
      obtain ⟨d, hd, hc⟩ := at?_cons_eq_some.1 h
      simp only [spine, hd, Path.above, List.map_append, List.map_map, ← ih hc]
      rfl

/-- A node on a spine stands at its path, and what follows it on the spine is above it. -/
theorem spine_split {n c : Node} {p : Path} (hc : n.at? p = some c) {low rest : List Above}
    {a : Above} (h : n.spine p = low ++ a :: rest) :
    ∃ d q, n.at? a.path = some a.node ∧ a.node.get? a.slot = some d ∧ d.at? q = some c ∧
      p = a.path ++ a.slot :: q ∧ rest = n.spine a.path ∧
      low = (d.spine q).map (Above.under (a.path ++ [a.slot])) := by
  induction low generalizing p c with
  | nil =>
      rcases List.eq_nil_or_concat p with rfl | ⟨p, slot, rfl⟩
      · simp [spine] at h
      · rw [List.concat_eq_append] at hc h ⊢
        obtain ⟨b, hb, hslot⟩ := at?_concat_eq_some.1 hc
        rw [spine_concat hb hslot] at h
        simp only [List.nil_append, List.cons.injEq] at h
        obtain ⟨rfl, rfl⟩ := h
        exact ⟨c, [], hb, hslot, rfl, rfl, rfl, rfl⟩
  | cons x low ih =>
      rcases List.eq_nil_or_concat p with rfl | ⟨p, slot, rfl⟩
      · simp [spine] at h
      · rw [List.concat_eq_append] at hc h ⊢
        obtain ⟨b, hb, hslot⟩ := at?_concat_eq_some.1 hc
        rw [spine_concat hb hslot] at h
        simp only [List.cons_append, List.cons.injEq] at h
        obtain ⟨rfl, h⟩ := h
        obtain ⟨d, q, ha, hd, hq, rfl, hrest, hlow⟩ := ih hb h
        refine ⟨d, q ++ [slot], ha, hd, at?_concat_eq_some.2 ⟨b, hq, hslot⟩, by simp, hrest, ?_⟩
        rw [spine_concat hq hslot, hlow]
        simp [Above.under]

end Node

theorem Path.mem_above {p q : Path} : q ∈ p.above ↔ ∃ slot r, p = q ++ slot :: r := by
  induction p generalizing q with
  | nil => simp [Path.above]
  | cons s rest ih =>
      simp only [Path.above, List.mem_append, List.mem_map, List.mem_singleton]
      constructor
      · rintro (⟨q, hq, rfl⟩ | rfl)
        · obtain ⟨slot, r, rfl⟩ := ih.1 hq
          exact ⟨slot, r, rfl⟩
        · exact ⟨s, rest, rfl⟩
      · rintro ⟨slot, r, h⟩
        cases q with
        | nil => exact .inr rfl
        | cons t q =>
            simp only [List.cons_append, List.cons.injEq] at h
            obtain ⟨rfl, rfl⟩ := h
            exact .inl ⟨q, ih.2 ⟨slot, r, rfl⟩, rfl⟩

theorem Path.below?_eq_some {p q r : Path} : p.below? q = some r ↔ q = p ++ r := by
  induction p generalizing q with
  | nil => cases q <;> simp [Path.below?, eq_comm]
  | cons s p ih =>
      cases q with
      | nil => simp [Path.below?]
      | cons t q =>
          by_cases hst : s = t
          · subst hst
            simp [Path.below?, ih]
          · simp [Path.below?, hst, Ne.symm hst]

theorem Path.below?_self_append (p r : Path) : p.below? (p ++ r) = some r :=
  Path.below?_eq_some.2 rfl

theorem Path.below?_append (p q x : Path) :
    Path.below? (p ++ q) x = (p.below? x).bind q.below? := by
  refine Option.ext fun r => ?_
  rw [Option.bind_eq_some_iff]
  simp only [Path.below?_eq_some]
  constructor
  · rintro rfl
    exact ⟨q ++ r, by simp, rfl⟩
  · rintro ⟨_, rfl, rfl⟩
    simp

end EarlyExit
