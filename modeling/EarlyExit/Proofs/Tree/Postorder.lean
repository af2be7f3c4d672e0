import Mathlib.Data.List.Nodup
import Mathlib.Data.List.Perm.Basic
import EarlyExit.Proofs.Tree.Swap

/-!
# Parts before the whole

The nodes of a tree in the order evaluation is done with them: the children of a node in
the order of its slots, each with all that is below it, and then the node itself.
-/

namespace EarlyExit.Node

/-- Every node of the tree with its path, children before parents. -/
def postorder (n : Node) : List (Path × Node) :=
  (n.slots.attach.flatMap fun ⟨x, _h⟩ => (postorder x.2).map fun y => (x.1 :: y.1, y.2)) ++
    [([], n)]
termination_by sizeOf n
decreasing_by exact sizeOf_lt_of_mem_slots _h

theorem postorder_eq (n : Node) : n.postorder =
    (n.slots.flatMap fun x => x.2.postorder.map fun y => (x.1 :: y.1, y.2)) ++ [([], n)] := by
  rw [postorder]
  conv => rhs; rw [← List.attach_map_subtype_val n.slots, List.flatMap_map]

/-- The same nodes are listed parents first. -/
theorem postorder_perm (n : Node) : n.postorder.Perm n.walk := by
  induction n using childInduction with
  | step n ih =>
      rw [postorder_eq, walk_eq]
      refine (List.perm_append_singleton _ _).trans (.cons _ ?_)
      exact List.Perm.flatMap_left _ fun x hx => (ih x hx).map _

theorem mem_postorder {n c : Node} {p : Path} : (p, c) ∈ n.postorder ↔ n.at? p = some c := by
  rw [n.postorder_perm.mem_iff, mem_walk]

theorem postorder_nodup (n : Node) : (n.postorder.map (·.1)).Nodup := by
  induction n using childInduction with
  | step n ih =>
      have hbelow : (n.slots.flatMap fun x => x.2.postorder.map fun y => (x.1 :: y.1, y.2)).map
          (·.1) = n.slots.flatMap fun x => (x.2.postorder.map (·.1)).map (x.1 :: ·) := by
        simp only [List.map_flatMap, List.map_map]
        rfl
      have hslots : n.slots.Pairwise fun x y => x.1 ≠ y.1 := List.pairwise_map.1 (slots_nodup n)
      rw [postorder_eq, List.map_append, hbelow, List.nodup_append]
      refine ⟨List.nodup_flatMap.2 ⟨fun x hx => (ih x hx).map List.cons_injective,
        hslots.imp fun {x y} hne p hp hp' => ?_⟩, by simp, fun p hp q hq heq => ?_⟩
      · obtain ⟨_, _, rfl⟩ := List.mem_map.1 hp
        obtain ⟨_, _, heq⟩ := List.mem_map.1 hp'
        exact hne (List.cons.inj heq).1.symm
      · obtain ⟨x, _, hp⟩ := List.mem_flatMap.1 hp
        obtain ⟨_, _, rfl⟩ := List.mem_map.1 hp
        simp_all

/-- What is found below a place only is found in the order of that part of the tree. -/
theorem filterMap_postorder {f : Path × Node -> Option α} {n c : Node} {p : Path}
    (hc : n.at? p = some c) (hf : ∀ q d, n.at? q = some d -> (f (q, d)).isSome = true ->
      ∃ r, q = p ++ r) :
    n.postorder.filterMap f = c.postorder.filterMap fun y => f (p ++ y.1, y.2) := by
  induction p generalizing n f with
  | nil =>
      cases hc
      rfl
  | cons slot rest ih =>
      obtain ⟨d, hd, hc⟩ := at?_cons_eq_some.1 hc
      obtain ⟨l, r, hslots, hne⟩ := slots_split hd
      -- nothing is found at the node and below its other children
      have hself : f ([], n) = none := by
        rw [← Option.not_isSome_iff_eq_none]
        intro hsome
        obtain ⟨q, hq⟩ := hf [] n rfl hsome
        cases hq
      have hothers {l' : List (Slot × Node)} (hl' : ∀ x ∈ l', x ∈ l ++ r) :
          (l'.flatMap fun x => x.2.postorder.map fun y => (x.1 :: y.1, y.2)).filterMap f = [] := by
        rw [List.filterMap_eq_nil_iff]
        intro y hy
        obtain ⟨x, hx, hy⟩ := List.mem_flatMap.1 hy
        obtain ⟨z, hz, rfl⟩ := List.mem_map.1 hy
        have hx := hl' x hx
        have hslot : x ∈ n.slots := by
          rw [hslots, List.mem_append, List.mem_cons]
          exact (List.mem_append.1 hx).imp_right .inr
        rw [← Option.not_isSome_iff_eq_none]
        intro hsome
        have hat : n.at? (x.1 :: z.1) = some z.2 :=
          at?_cons_eq_some.2 ⟨x.2, get?_eq_some.2 hslot, mem_postorder.1 hz⟩
        obtain ⟨q, hq⟩ := hf _ _ hat hsome
        exact hne x hx (List.cons.inj hq).1
      rw [postorder_eq, hslots, List.flatMap_append, List.flatMap_cons, List.filterMap_append,
        List.filterMap_append, List.filterMap_append,
        hothers fun x hx => List.mem_append_left r hx,
        hothers fun x hx => List.mem_append_right l hx]
      simp only [List.nil_append, List.append_nil, List.filterMap_cons, hself, List.filterMap_nil,
        List.filterMap_map]
      refine ih hc fun q e he hsome => ?_
      obtain ⟨q', hq'⟩ := hf (slot :: q) e (at?_cons_eq_some.2 ⟨d, hd, he⟩) hsome
      exact ⟨q', (List.cons.inj hq').2⟩

end EarlyExit.Node
