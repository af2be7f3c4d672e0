import Mathlib.Data.List.Induction
import EarlyExit.Proofs.Tree.Postorder
import EarlyExit.Proofs.Tree.Spine

/-!
# The index of a tree

An index is filled on one visit of the tree, where a node is entered with the number of
nodes entered before it.  So the parents in it are the ones that the tree has, going up from
a place meets what is above it, and the numbers follow the visit.  What is below a node is
visited right behind it, which is why numbers tell what is below what.
-/

namespace EarlyExit

namespace Node

/-! ## The order of a visit -/

/-- Every place in the tree, in the order of a visit. -/
def visit (n : Node) : List Path :=
  n.walk.map (·.1)

theorem visit_eq (n : Node) :
    n.visit = [] :: n.slots.flatMap fun x => x.2.visit.map (x.1 :: ·) := by
  simp only [visit, walk_eq n, List.map_cons, List.map_flatMap, List.map_map]
  rfl

theorem visit_nodup (n : Node) : n.visit.Nodup :=
  (n.postorder_perm.map _).nodup_iff.1 n.postorder_nodup

theorem length_visit (n : Node) : n.visit.length = n.nodes.length := by
  rw [visit, nodes, List.length_map, List.length_map]

theorem mem_visit {n : Node} {p : Path} : p ∈ n.visit ↔ ∃ c, n.at? p = some c := by
  simp [visit, mem_walk]

/-- The places below a node are visited in one stretch. -/
theorem visit_split {n c : Node} {p : Path} (h : n.at? p = some c) :
    ∃ l r, n.visit = l ++ c.visit.map (p ++ ·) ++ r := by
  induction p generalizing n with
  | nil =>
      cases h
      exact ⟨[], [], by simp⟩
  | cons slot rest ih =>
      obtain ⟨d, hd, hc⟩ := at?_cons_eq_some.1 h
      obtain ⟨l, r, hslots, -⟩ := slots_split hd
      obtain ⟨l', r', hd'⟩ := ih hc
      refine ⟨[] :: ((l.flatMap fun x => x.2.visit.map (x.1 :: ·)) ++ l'.map (slot :: ·)),
        r'.map (slot :: ·) ++ r.flatMap fun x => x.2.visit.map (x.1 :: ·), ?_⟩
      rw [visit_eq, hslots, List.flatMap_append, List.flatMap_cons, hd']
      simp only [List.map_append, List.map_map, List.cons_append, List.append_assoc]
      rfl

/-- The node at one place is a child of the node at another. -/
def IsChild (n : Node) (a d : Path) : Prop :=
  ∃ x slot y, n.at? a = some x ∧ (slot, y) ∈ x.slots ∧ d = a ++ [slot]

theorem isChild_concat {n c : Node} {p : Path} {slot : Slot} (h : n.at? (p ++ [slot]) = some c) :
    n.IsChild p (p ++ [slot]) := by
  obtain ⟨x, hx, hget⟩ := at?_concat_eq_some.1 h
  exact ⟨x, slot, c, hx, get?_eq_some.1 hget, rfl⟩

end Node

theorem Path.above_concat (p : Path) (slot : Slot) : Path.above (p ++ [slot]) = p :: p.above := by
  induction p with
  | nil => rfl
  | cons s rest ih => simp only [List.cons_append, Path.above, ih, List.map_cons]

namespace Index

open Node

/-! ## What is entered -/

theorem shorter_parent {p : Path} (slot : Slot) (q : Path) (h : some p = some q) :
    q.length < (p ++ [slot]).length := by
  cases h
  simp

theorem build_eq (n : Node) (idx : Index) (p : Path) (parent : Option Path)
    (h : ∀ q, parent = some q -> q.length < p.length) :
    build n idx p parent h = n.slots.foldl
      (fun idx x => build x.2 idx (p ++ [x.1]) (some p) (shorter_parent x.1))
      (idx.enter p parent h) := by
  rw [build]
  conv => rhs; rw [← List.foldl_attach]

/-- The parent of a place below another one, which has a given parent itself. -/
def parentBelow (p : Path) (parent : Option Path) (q : Path) : Option Path :=
  if q = [] then parent else some (p ++ q.dropLast)

theorem parentBelow_concat (p : Path) (parent : Option Path) (q : Path) (slot : Slot) :
    parentBelow p parent (q ++ [slot]) = some (p ++ q) := by
  simp [parentBelow]

/-- What has been entered in an index for some places, the latest first. -/
structure Enters (idx idx' : Index) (entries : List (Path × Option Path)) : Prop where
  root : idx'.root = idx.root
  parents : idx'.parents = entries.reverse ++ idx.parents
  numbers : idx'.numbers =
    ((entries.map (·.1)).zipIdx idx.numbers.length).reverse ++ idx.numbers

theorem Enters.trans {idx idx' idx'' : Index} {l r : List (Path × Option Path)}
    (h : Enters idx idx' l) (h' : Enters idx' idx'' r) : Enters idx idx'' (l ++ r) := by
  refine ⟨h'.root.trans h.root, ?_, ?_⟩
  · rw [h'.parents, h.parents, List.reverse_append, List.append_assoc]
  · have hlength : idx'.numbers.length = idx.numbers.length + (l.map (·.1)).length := by
      rw [h.numbers, List.length_append, List.length_reverse, List.length_zipIdx, Nat.add_comm]
    rw [h'.numbers, hlength, h.numbers, List.map_append, List.zipIdx_append, List.reverse_append,
      List.append_assoc]

theorem enters_foldl {f : Index -> α -> Index} {entries : α -> List (Path × Option Path)}
    {l : List α} (h : ∀ a ∈ l, ∀ idx, Enters idx (f idx a) (entries a)) (idx : Index) :
    Enters idx (l.foldl f idx) (l.flatMap entries) := by
  induction l generalizing idx with
  | nil => exact ⟨rfl, rfl, rfl⟩
  | cons a rest ih =>
      rw [List.foldl_cons, List.flatMap_cons]
      exact (h a List.mem_cons_self idx).trans
        (ih (fun b hb => h b (List.mem_cons_of_mem a hb)) (f idx a))

/-- Building enters the places of the tree in the order of a visit. -/
theorem enters_build (n : Node) (idx : Index) (p : Path) (parent : Option Path)
    (h : ∀ q, parent = some q -> q.length < p.length) :
    Enters idx (build n idx p parent h)
      (n.visit.map fun q => (p ++ q, parentBelow p parent q)) := by
  induction n using childInduction generalizing idx p parent with
  | step n ih =>
      have hself : Enters idx (idx.enter p parent h) [(p, parent)] := ⟨rfl, rfl, rfl⟩
      have hbelow := enters_foldl
        (f := fun idx x => build x.2 idx (p ++ [x.1]) (some p) (shorter_parent x.1))
        (fun x hx idx => ih x hx idx (p ++ [x.1]) (some p) (shorter_parent x.1))
        (idx.enter p parent h)
      rw [build_eq]
      refine cast (congrArg (Enters idx _) ?_) (hself.trans hbelow)
      rw [visit_eq, List.map_cons, List.map_flatMap, List.singleton_append]
      congr 1
      · simp [parentBelow]
      · refine List.flatMap_congr fun x _ => ?_
        rw [List.map_map]
        refine List.map_congr_left fun q _ => ?_
        refine Prod.ext (List.append_assoc p [x.1] q) ?_
        rcases List.eq_nil_or_concat q with rfl | ⟨q, slot, rfl⟩
        · simp [parentBelow]
        · rw [List.concat_eq_append, parentBelow_concat]
          exact (congrArg some (List.append_assoc p [x.1] q)).trans
            (parentBelow_concat p parent (x.1 :: q) slot).symm

variable (root : Node)

theorem enters_ofNode : Enters { root } (ofNode root)
    (root.visit.map fun q => (q, parentBelow [] none q)) :=
  enters_build root { root } [] none fun _ h => by cases h

/-! ## Going up and numbers -/

variable {root} {p q : Path}

theorem order?_eq_some {i : Nat} : (ofNode root).order? p = some i ↔ root.visit[i]? = some p := by
  have hnumbers : (ofNode root).numbers = root.visit.zipIdx.reverse := by
    simpa [Function.comp_def] using (enters_ofNode root).numbers
  have hkeys : root.visit.zipIdx.reverse.map (·.1) = root.visit.reverse := by
    rw [List.map_reverse, List.zipIdx_map_fst]
  rw [order?, hnumbers, lookup_eq_some (by rw [hkeys]; exact List.nodup_reverse.2 root.visit_nodup),
    List.mem_reverse, List.mk_mem_zipIdx_iff_getElem?]

theorem lookup_parents {parent : Option Path} : (ofNode root).parents.lookup p = some parent ↔
    (∃ c, root.at? p = some c) ∧ parent = parentBelow [] none p := by
  have hparents : (ofNode root).parents =
      (root.visit.map fun q => (q, parentBelow [] none q)).reverse := by
    simpa using (enters_ofNode root).parents
  have hkeys : ((root.visit.map fun q => (q, parentBelow [] none q)).reverse.map (·.1)) =
      root.visit.reverse := by
    rw [List.map_reverse, List.map_map]
    exact congrArg List.reverse (List.map_id _)
  rw [hparents, lookup_eq_some (by rw [hkeys]; exact List.nodup_reverse.2 root.visit_nodup),
    List.mem_reverse, List.mem_map, ← mem_visit]
  constructor
  · rintro ⟨q, hq, heq⟩
    obtain ⟨rfl, rfl⟩ := Prod.mk.inj heq
    exact ⟨hq, rfl⟩
  · rintro ⟨hp, rfl⟩
    exact ⟨p, hp, rfl⟩

theorem parent?_concat {c : Node} {slot : Slot} (h : root.at? (p ++ [slot]) = some c) :
    (ofNode root).parent? (p ++ [slot]) = some p := by
  rw [parent?, lookup_parents.2 ⟨⟨c, h⟩, rfl⟩]
  simp [parentBelow]

theorem parent?_root : (ofNode root).parent? [] = none := by
  rw [parent?, lookup_parents.2 ⟨⟨root, rfl⟩, rfl⟩]
  rfl

theorem parent?_eq_some : (ofNode root).parent? p = some q ↔ root.IsChild q p := by
  constructor
  · intro h
    obtain ⟨⟨c, hc⟩, hparent⟩ := lookup_parents.1 (Option.join_eq_some_iff.1 h)
    rcases List.eq_nil_or_concat p with rfl | ⟨r, slot, rfl⟩
    · cases hparent
    · rw [List.concat_eq_append] at hc hparent ⊢
      obtain rfl : q = r := by simpa [parentBelow] using hparent
      exact isChild_concat hc
  · rintro ⟨x, slot, y, hx, hy, rfl⟩
    exact parent?_concat (at?_concat_eq_some.2 ⟨x, hx, get?_eq_some.2 hy⟩)

theorem ancestors_eq (idx : Index) (p : Path) :
    idx.ancestors p = (idx.parent? p).elim [] fun q => q :: idx.ancestors q := by
  rw [ancestors]
  split
  next h => rw [h]; rfl
  next q h => rw [h]; rfl

/-- Going up from a place of the tree meets what is above it, as the path says. -/
theorem ancestors_ofNode {c : Node} (h : root.at? p = some c) :
    (ofNode root).ancestors p = p.above := by
  induction p using List.reverseRecOn generalizing c with
  | nil => rw [ancestors_eq, parent?_root]; rfl
  | append_singleton p slot ih =>
      obtain ⟨x, hx, -⟩ := at?_concat_eq_some.1 h
      rw [ancestors_eq, parent?_concat h, Path.above_concat, ← ih hx]
      rfl

theorem chain_above {c : Node} (h : root.at? p = some c) :
    (p :: p.above).IsChain (fun c p => root.IsChild p c) ∧ (p :: p.above).getLast? = some [] := by
  induction p using List.reverseRecOn generalizing c with
  | nil => exact ⟨.singleton [], rfl⟩
  | append_singleton p slot ih =>
      obtain ⟨x, hx, -⟩ := at?_concat_eq_some.1 h
      obtain ⟨hchain, hlast⟩ := ih hx
      rw [Path.above_concat]
      exact ⟨.cons_cons (isChild_concat h) hchain, by rwa [List.getLast?_cons_cons]⟩

theorem isAncestor_iff (idx : Index) (a : Path) :
    idx.isAncestor a p = true ↔ a ∈ idx.ancestors p := by
  fun_induction ancestors idx p with
  | case1 p h =>
      rw [isAncestor]
      split
      next => simp
      next q hq => simp [h] at hq
  | case2 p q h ih =>
      rw [isAncestor]
      split
      next hq => simp [h] at hq
      next r hr =>
        obtain rfl := Option.some.inj (h.symm.trans hr)
        rw [Bool.or_eq_true, beq_iff_eq, ih, List.mem_cons, eq_comm]

theorem isAncestor_ofNode {a d : Path} {y : Node} (hd : root.at? d = some y) :
    (ofNode root).isAncestor a d = true ↔ ∃ q, q ≠ [] ∧ d = a ++ q := by
  rw [isAncestor_iff, ancestors_ofNode hd, Path.mem_above]
  constructor
  · rintro ⟨slot, q, rfl⟩
    exact ⟨slot :: q, by simp, rfl⟩
  · rintro ⟨_ | ⟨slot, q⟩, hne, rfl⟩
    · exact absurd rfl hne
    · exact ⟨slot, q, rfl⟩

/-- What is below a place are the places visited next, as many as there are nodes below it. -/
theorem below_iff {a d : Path} {x y : Node} (ha : root.at? a = some x) (hd : root.at? d = some y) :
    (∃ q, q ≠ [] ∧ d = a ++ q) ↔ ∃ i j, root.visit[i]? = some a ∧ root.visit[j]? = some d ∧
      i < j ∧ j < i + x.nodes.length := by
  obtain ⟨l, r, hvisit⟩ := visit_split ha
  have hbelow {k : Nat} {q : Path} (hk : x.visit[k]? = some q) :
      root.visit[l.length + k]? = some (a ++ q) := by
    have hlt : k < x.visit.length := (List.getElem?_eq_some_iff.1 hk).1
    rw [hvisit, List.append_assoc, List.getElem?_append_right (Nat.le_add_right _ _),
      Nat.add_sub_cancel_left, List.getElem?_append_left (by rw [List.length_map]; exact hlt),
      List.getElem?_map, hk]
    rfl
  have hhead : x.visit[0]? = some [] := by
    rw [visit_eq]
    rfl
  have hself : root.visit[l.length]? = some a := by
    simpa using hbelow hhead
  have hnumber {i j : Nat} {p : Path} (hi : root.visit[i]? = some p)
      (hj : root.visit[j]? = some p) : i = j :=
    (List.getElem?_inj (List.getElem?_eq_some_iff.1 hi).1 root.visit_nodup).1 (hi.trans hj.symm)
  rw [← length_visit]
  constructor
  · rintro ⟨q, hne, rfl⟩
    have hq : ∃ z, x.at? q = some z := by
      rw [at?_append, ha] at hd
      exact ⟨y, hd⟩
    obtain ⟨k, hk⟩ := List.mem_iff_getElem?.1 (mem_visit.2 hq)
    have hpos : k ≠ 0 := by
      rintro rfl
      exact hne (Option.some.inj (hk.symm.trans hhead))
    have hlt : k < x.visit.length := (List.getElem?_eq_some_iff.1 hk).1
    exact ⟨l.length, l.length + k, hself, hbelow hk, by omega, by omega⟩
  · rintro ⟨i, j, hi, hj, hij, hlt⟩
    obtain rfl := hnumber hself hi
    obtain ⟨k, rfl⟩ := Nat.exists_eq_add_of_lt hij
    have hk := List.getElem?_eq_getElem (show k + 1 < x.visit.length by omega)
    have hplace := Option.some.inj (hj.symm.trans (hbelow hk))
    refine ⟨_, fun hnil => ?_, hplace⟩
    rw [hnil] at hk
    have := (List.getElem?_inj (by omega) x.visit_nodup).1 (hk.trans hhead.symm)
    omega

/--
The index of a tree is exact.  The parent in it is the node that has the place among its
children; going up from a place leads from child to parent, and ends at the root; the numbers
are those of the visit, from zero on, each place having one; and a place is above another one
just if the number of the other is one of those that follow its own, as many as there are
nodes below it.
-/
theorem ofNode_exact (root : Node) :
    (∀ a d, (ofNode root).parent? d = some a ↔ root.IsChild a d) ∧
    (∀ d y, root.at? d = some y ->
      (d :: (ofNode root).ancestors d).IsChain (fun c p => root.IsChild p c) ∧
      (d :: (ofNode root).ancestors d).getLast? = some []) ∧
    ((∀ p i, (ofNode root).order? p = some i ↔ root.visit[i]? = some p) ∧
      (∀ p, (∃ i, (ofNode root).order? p = some i) ↔ ∃ c, root.at? p = some c) ∧
      (∀ p q i, (ofNode root).order? p = some i -> (ofNode root).order? q = some i -> p = q) ∧
      ∀ i, (∃ p, (ofNode root).order? p = some i) ↔ i < root.nodes.length) ∧
    ∀ a d x y, root.at? a = some x -> root.at? d = some y ->
      ((ofNode root).isAncestor a d = true ↔ ∃ i j, (ofNode root).order? a = some i ∧
        (ofNode root).order? d = some j ∧ i < j ∧ j < i + x.nodes.length) := by
  refine ⟨fun a d => parent?_eq_some, fun d y hd => ?_,
    ⟨fun p i => order?_eq_some, fun p => ?_, fun p q i hp hq => ?_, fun i => ?_⟩,
    fun a d x y ha hd => ?_⟩
  · rw [ancestors_ofNode hd]
    exact chain_above hd
  · simp only [order?_eq_some, ← List.mem_iff_getElem?, mem_visit]
  · rw [order?_eq_some] at hp hq
    exact Option.some.inj (hp.symm.trans hq)
  · simp only [order?_eq_some, ← length_visit]
    constructor
    · rintro ⟨p, hp⟩
      exact (List.getElem?_eq_some_iff.1 hp).1
    · intro hi
      exact ⟨_, List.getElem?_eq_getElem hi⟩
  · simp only [order?_eq_some]
    exact (isAncestor_ofNode hd).trans (below_iff ha hd)

/-- The statement `return f(x);`. -/
def returnedCall : Node :=
  .stmt (.ret .nowhere (.call .nowhere .missing "f" [.ident .nowhere "x" "int"] "int"))

/-- The argument of the call, with the number two, stands below the call, which has the number one. -/
theorem ofNode_exact_returnedCall :
    returnedCall.at? [.value, .arg 0] = some (.expr (.ident .nowhere "x" "int")) ∧
      (ofNode returnedCall).isAncestor [.value] [.value, .arg 0] = true ∧
      ([.value, .arg 0] :: (ofNode returnedCall).ancestors [.value, .arg 0]).getLast? = some [] := by
  have hcall : returnedCall.at? [.value] =
      some (.expr (.call .nowhere .missing "f" [.ident .nowhere "x" "int"] "int")) := rfl
  have harg : returnedCall.at? [.value, .arg 0] = some (.expr (.ident .nowhere "x" "int")) := rfl
  have hvisit : returnedCall.visit = [[], [.value], [.value, .arg 0]] := by
    decide +kernel
  obtain ⟨-, hchain, ⟨horder, -⟩, hinterval⟩ := ofNode_exact returnedCall
  refine ⟨harg, (hinterval _ _ _ _ hcall harg).2 ⟨1, 2, ?_, ?_, by decide, ?_⟩, (hchain _ _ harg).2⟩
  · rw [horder, hvisit]
    rfl
  · rw [horder, hvisit]
    rfl
  · decide +kernel

end Index

end EarlyExit
