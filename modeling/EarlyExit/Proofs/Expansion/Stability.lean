import EarlyExit.Proofs.Expansion.Fate
import EarlyExit.Proofs.Expansion.Runs

/-!
# Exits and acceptance along a run

A step takes some sites out of the tree and leaves the others.  Its flags tell which;
`weave` puts what is known of the one and the other sites back into one list, in the order of
the sites before the step.  Read that way, the list of fates of a tree never changes.
-/

namespace EarlyExit.Expansion

/-- Two lists as one: where the flag is set the next of the first, else of the second. -/
def weave : List Bool -> List α -> List α -> List α
  | true :: flags, x :: now, later => x :: weave flags now later
  | false :: flags, now, y :: later => y :: weave flags now later
  | _, _, _ => []

@[simp] theorem weave_nil (now later : List α) : weave [] now later = [] := by
  cases now <;> rfl

theorem weave_later {flags fs : List Bool} {l now later : List α} (hlength : fs.length = l.length)
    (hflags : ∀ f ∈ fs, f = false) :
    weave (fs ++ flags) now (l ++ later) = l ++ weave flags now later := by
  induction l generalizing fs with
  | nil =>
      obtain rfl := List.length_eq_zero_iff.1 hlength
      rfl
  | cons y l ih =>
      cases fs with
      | nil => cases hlength
      | cons f fs =>
          obtain rfl := hflags f (by simp)
          have := ih (Nat.succ.inj hlength) fun g hg => hflags g (by simp [hg])
          simpa [weave] using this

theorem weave_now {flags fs : List Bool} {l now later : List α} (hlength : fs.length = l.length)
    (hflags : ∀ f ∈ fs, f = true) :
    weave (fs ++ flags) (l ++ now) later = l ++ weave flags now later := by
  induction l generalizing fs with
  | nil =>
      obtain rfl := List.length_eq_zero_iff.1 hlength
      rfl
  | cons y l ih =>
      cases fs with
      | nil => cases hlength
      | cons f fs =>
          obtain rfl := hflags f (by simp)
          have := ih (Nat.succ.inj hlength) fun g hg => hflags g (by simp [hg])
          simpa [weave] using this

theorem weave_all {fs : List Bool} {l now : List α} (hlength : fs.length = l.length)
    (hflags : ∀ f ∈ fs, f = false) : weave fs now l = l := by
  have := @weave_later _ [] fs l now [] hlength hflags
  simpa using this

theorem map_weave (f : α -> β) (flags : List Bool) (now later : List α) :
    (weave flags now later).map f = weave flags (now.map f) (later.map f) := by
  fun_induction weave flags now later with
  | case1 flags x now later ih => simp [weave, ih]
  | case2 flags now y later ih => simp [weave, ih]
  | case3 flags now later h1 h2 =>
      cases flags with
      | nil => simp
      | cons f flags =>
          cases f with
          | true =>
              cases now with
              | nil => rfl
              | cons x now => exact (h1 flags x now rfl rfl).elim
          | false =>
              cases later with
              | nil => cases now <;> rfl
              | cons y later => exact (h2 flags y later rfl rfl).elim

/-! ## Fates -/

def fates (o : Options) (root : Node) : List (Option Exit) :=
  (ways o root).map fate

theorem fate_eq {u v : List Shape} (h : Follows u v)
    (hsome : (prospect? .walking u).isSome = true) : fate v = fate u := by
  obtain ⟨p, hp⟩ := Option.isSome_iff_exists.1 hsome
  rw [h p hp, fate, hp]
  rfl

theorem map_fate_eq {l l' : List (List Shape)} (h : List.Forall₂ Follows l l')
    (hsome : ∀ w ∈ l, (prospect? .walking w).isSome = true) : l'.map fate = l.map fate := by
  induction h with
  | nil => rfl
  | cons hw _ ih =>
      simp only [List.map_cons, List.cons.injEq]
      exact ⟨fate_eq hw (hsome _ (by simp)), ih fun v hv => hsome v (by simp [hv])⟩

/-- What becomes of the sites of a tree in one step. -/
inductive Remains (o : Options) (root : Node) : List Bool × List Exit -> Node -> Prop
  /-- All sites remain. -/
  | kept {root' : Node} (h : List.Forall₂ Follows (ways o root) (ways o root')) :
      Remains o root ((sites o root).map fun _ => false, []) root'
  /-- The sites in the anchor slot of a statement are hoisted, all others remain. -/
  | hoisted {root' : Node} {anchor : Path} {s : Stmt} {slot : Slot} {exit : Exit} {above : Shape}
      {x up : List Shape} {l r : List (Path × List Shape)} {v : Expr}
      (hslot : s.anchorSlot? = some slot) (hdirect : Direct o s.anchorExpr)
      (hholds : above.holds = true) (hx : Stands above x)
      (hexit : prospectAt (stmtShape s slot).throws false false (above :: up) =
        some ⟨exit, some exit⟩)
      (hlocated : located o root = l ++
        (located o (.stmt s)).map (fun y => (anchor ++ y.1, y.2 ++ above :: up)) ++ r)
      (hother : ∀ y ∈ l ++ r, anchor.below? y.1 = none) (hv : isLive o (.expr v) = false)
      (hways : ways o root' = l.map (·.2) ++
        (ways o (.stmt (s.withAnchorExpr v))).map (· ++ (x ++ up)) ++ r.map (·.2)) :
      Remains o root ((sites o root).map fun x => ((anchor ++ [slot]).below? x.path).isSome,
        List.replicate (siteCount o (.expr s.anchorExpr)) exit) root'

/-- A step that hoists nothing keeps all fates. -/
theorem fates_kept {o : Options} {root root' : Node} (hplace : Placeable o root)
    (h : List.Forall₂ Follows (ways o root) (ways o root')) :
    fates o root = weave ((sites o root).map fun _ => false) [] (fates o root') := by
  have heq := map_fate_eq h hplace
  have hlength : (ways o root).length = (sites o root).length := by simp [ways, located]
  rw [fates, fates, heq, weave_all]
  · simp [hlength]
  · simp

theorem follows_around {l r m m' : List (List Shape)} (h : List.Forall₂ Follows m m') :
    List.Forall₂ Follows (l ++ m ++ r) (l ++ m' ++ r) := by
  have hself (l : List (List Shape)) : List.Forall₂ Follows l l :=
    List.forall₂_same.2 fun w _ => follows_refl w
  exact List.rel_append (List.rel_append (hself l) h) (hself r)

theorem ways_returned (o : Options) (e : Expr) :
    ways o (.stmt (.block (.mk e.span [.ret e.span e]))) =
      (ways o (.expr e)).map (· ++ [.stmt returnShape, .stmt blockShape]) := by
  have hret := ways_leaves o (s := .ret e.span .missing) rfl rfl e
  have hshape : stmtShape (.ret e.span .missing) .value = returnShape := rfl
  rw [Stmt.withAnchorExpr, hshape] at hret
  rw [ways_outline, outline_block]
  simp [siteKind?, Node.ofStmt?, hret, Function.comp_def]

/-- The sites of a lambda's value stay where they are when the value is returned. -/
theorem follows_wrap (o : Options) (s : Span) (ps : List Param) (e : Expr) (up : List Shape) :
    List.Forall₂ Follows ((ways o (.expr (.lambda s ps (.value e)))).map (· ++ up))
      ((ways o (.expr (.lambda s ps (.block (.mk e.span [.ret e.span e]))))).map (· ++ up)) := by
  have hbody : List.Forall₂ Follows ((ways o (.expr e)).map (· ++ .lambda :: up))
      ((ways o (.expr e)).map
        (· ++ .stmt returnShape :: .stmt blockShape :: .lambda :: up)) :=
    forall₂_follows fun w hw => follows_expr hw (keeps_wrap up)
  rw [ways_eq, ways_eq o (.expr (.lambda s ps (.block _)))]
  simp only [Node.slots, Node.exprSlots, Node.bodySlot_eq, Node.ofBody?, List.flatMap_append,
    ways_single]
  simpa [siteKind?, shape, Node.single, Node.ofBlock, ways_returned, Function.comp_def] using
    List.rel_append (List.forall₂_same.2 fun w _ => follows_refl w) hbody

/-- The sites of a direct anchor have the exit that they are hoisted with. -/
theorem fate_direct {o : Options} {e : Expr} (hd : Direct o e) {s : StmtShape} {up : List Shape}
    {exit : Exit} (hanchors : s.anchors = true)
    (hexit : prospectAt s.throws false false up = some ⟨exit, some exit⟩) {w : List Shape}
    (hw : w ∈ ways o (.expr e)) : fate (w ++ .stmt s :: up) = some exit := by
  rw [fate, prospect?_passes (hd w hw), prospect?, if_pos hanchors, hexit]
  rfl

theorem ways_dead {o : Options} {new : List Stmt} (h : anyLiveStmt o new = false) :
    (new.flatMap fun t => ways o (.stmt t)) = [] := by
  rw [List.flatMap_eq_nil_iff]
  intro t ht
  refine isLive_eq_false.1 ?_
  simp only [anyLiveStmt, List.any_eq_false, Bool.not_eq_true] at h
  exact h t ht

/-- Which sites are hoisted: those in the anchor slot, and none of the others. -/
theorem flags_hoisted {o : Options} {root : Node} {anchor : Path} {slot : Slot} {s : Stmt}
    {l m rest r : List (Path × List Shape)} {f : List Shape -> List Shape}
    (hlocated : located o root = l ++ (m.map (raise (.stmt s) slot) ++ rest).map
      (fun y => (anchor ++ y.1, f y.2)) ++ r)
    (hother : ∀ y ∈ l ++ r, anchor.below? y.1 = none)
    (hbelow : ∀ y ∈ rest, Path.below? [slot] y.1 = none) :
    ((sites o root).map fun x => ((anchor ++ [slot]).below? x.path).isSome) =
      l.map (fun _ => false) ++ (m.map (fun _ => true) ++ (rest ++ r).map fun _ => false) := by
  have hsites : ((sites o root).map fun x => ((anchor ++ [slot]).below? x.path).isSome) =
      (located o root).map fun y => ((anchor ++ [slot]).below? y.1).isSome := by
    simp [located, Function.comp_def]
  have hout : ∀ y ∈ l ++ r, ((anchor ++ [slot]).below? y.1).isSome = false := by
    intro y hy
    simp [Path.below?_append, hother y hy]
  have hrest : ∀ y ∈ rest, ((anchor ++ [slot]).below? (anchor ++ y.1)).isSome = false := by
    intro y hy
    simp [Path.below?_append, Path.below?_self_append, hbelow y hy]
  have hin (q : Path) : ((anchor ++ [slot]).below? (anchor ++ slot :: q)).isSome = true := by
    have := Path.below?_self_append (anchor ++ [slot]) q
    rw [List.append_assoc, List.singleton_append] at this
    simp [this]
  rw [hsites, hlocated]
  simp only [List.map_append, List.map_map, List.append_assoc]
  congr 1
  · exact List.map_congr_left fun y hy => hout y (by simp [hy])
  congr 1
  · exact List.map_congr_left fun y _ => hin y.1
  congr 1
  · exact List.map_congr_left hrest
  · exact List.map_congr_left fun y hy => hout y (by simp [hy])

/-- A step keeps the fates of the sites that remain, and hoists the others with theirs. -/
theorem Remains.weave_fates {o : Options} {root root' : Node} {settled : List Bool × List Exit}
    (h : Remains o root settled root') (hplace : Placeable o root) :
    fates o root = weave settled.1 (settled.2.map some) (fates o root') := by
  cases h with
  | kept h => exact fates_kept hplace h
  | @hoisted root' anchor s slot exit above x up l r v hslot hdirect hholds hx hexit hlocated
      hother hv hways =>
      obtain ⟨rest, hbelow, hstmts, hrest⟩ := located_anchor o hslot
      have hself := hrest s.anchorExpr
      rw [withAnchorExpr_self (by simp [hslot])] at hself
      have hflags := flags_hoisted (f := (· ++ above :: up)) (hself ▸ hlocated) hother hbelow
      have hcount : siteCount o (.expr s.anchorExpr) =
          (located o (.expr s.anchorExpr)).length := by
        simp [located, siteCount]
      have hexits : (located o (.expr s.anchorExpr)).map
          (fun y => fate (y.2 ++ .stmt (stmtShape s slot) :: above :: up)) =
            List.replicate (siteCount o (.expr s.anchorExpr)) (some exit) := by
        rw [hcount, List.eq_replicate_iff]
        refine ⟨by simp, ?_⟩
        intro e he
        obtain ⟨y, hy, rfl⟩ := List.mem_map.1 he
        exact fate_direct hdirect (by simp [stmtShape, hslot]) hexit (List.mem_map_of_mem hy)
      have hkept : (rest.map fun y => fate (y.2 ++ above :: up)) =
          rest.map fun y => fate (y.2 ++ (x ++ up)) := by
        refine List.map_congr_left fun y hy => ?_
        obtain ⟨t, ht⟩ := hstmts y hy
        have hfollows := follows_stmt ht (by rw [hx.holds up]; simp [hholds]) (hx.exit up).symm
        refine (fate_eq hfollows (hplace _ ?_)).symm
        rw [ways, hlocated, hself]
        simp only [List.map_append, List.map_map, List.mem_append, List.mem_map]
        exact .inl (.inr (.inr ⟨y, hy, rfl⟩))
      have hafter : ways o (.stmt (s.withAnchorExpr v)) = rest.map (·.2) := by
        have hnone : located o (.expr v) = [] := by
          simpa [ways] using isLive_eq_false.1 hv
        simp [ways, hrest, hnone]
      have hold : fates o root = (l.map fun y => fate y.2) ++
          (List.replicate (siteCount o (.expr s.anchorExpr)) (some exit) ++
            ((rest.map fun y => fate (y.2 ++ (x ++ up))) ++ r.map fun y => fate y.2)) := by
        rw [← hexits, ← hkept, fates, ways, hlocated, hself]
        simp [raise, shape, Function.comp_def]
      have hnew : fates o root' = (l.map fun y => fate y.2) ++
          ((rest.map fun y => fate (y.2 ++ (x ++ up))) ++ r.map fun y => fate y.2) := by
        rw [fates, hways, hafter]
        simp [Function.comp_def]
      rw [hold, hnew, hflags, List.map_replicate, weave_later (by simp) (by simp),
        ← List.append_nil (List.replicate _ (some exit)), weave_now (by simp [hcount]) (by simp),
        weave_all (by simp) (by simp), List.append_nil]

/-- A site is taken away only with a test for it, and no site is added. -/
theorem Remains.count_sites {o : Options} {root root' : Node} {settled : List Bool × List Exit}
    (h : Remains o root settled root') :
    siteCount o root' + settled.2.length = siteCount o root := by
  cases h with
  | kept h => simp [← length_ways, h.length_eq]
  | @hoisted root' anchor s slot exit above x up l r v hslot hdirect hholds hx hexit hlocated
      hother hv hways =>
      obtain ⟨rest, _, _, hrest⟩ := located_anchor o hslot
      have hself := hrest s.anchorExpr
      rw [withAnchorExpr_self (by simp [hslot])] at hself
      have hnone : located o (.expr v) = [] := by
        simpa [ways] using isLive_eq_false.1 hv
      have hcount (n : Node) : siteCount o n = (located o n).length := by
        simp [located, siteCount]
      rw [← length_ways o root', hways, hcount root, hlocated, hself]
      simp [ways, hrest, hnone, hcount]
      omega

/-- Every step is of one of the two sorts. -/
theorem Stepped.remains {o : Options} (ho : o.Apart) {w w' : Work}
    {settled : List Bool × List Exit} (h : Stepped o w settled w') :
    Remains o w.root settled w'.root := by
  cases h with
  | wrapped hat hfilled hlive hput =>
      obtain ⟨l, r, hl, hr, _⟩ := located_put (o := o) hat hput rfl rfl
      refine .kept ?_
      rw [hr, ways, hl]
      simpa [ways, Function.comp_def] using follows_around (follows_wrap o _ _ _ _)
  | lifted hat hup hholds hlive hlifted hsplice =>
      obtain ⟨l, x, r, hx, hl, hr, _⟩ := splice_ways (o := o) hat hup hholds hlifted.filled hsplice
      refine .kept ?_
      rw [hr, ways, hl]
      simpa [ways, Function.comp_def] using follows_around (hlifted.follows hx hholds)
  | @hoisted anchor s slot exit above up v new names root' hat hup hholds hslot hexit hdirect
      hlive hhoist hsplice =>
      obtain ⟨hclear, htidy⟩ := hoistAll_run ho hdirect hhoist
      obtain ⟨l, x, r, hx, hl, hr, hother⟩ :=
        splice_ways (o := o) hat hup hholds (htidy.filled_anchor hslot v) hsplice
      have hways : ((new ++ [s.withAnchorExpr v]).flatMap fun t => ways o (.stmt t)) =
          ways o (.stmt (s.withAnchorExpr v)) := by
        simp [ways_dead htidy.dead]
      rw [hways] at hr
      rw [htidy.guards]
      exact .hoisted hslot hdirect hholds hx hexit hl hother hclear.dead hr

end EarlyExit.Expansion
