import EarlyExit.Proofs.Expansion.Census
import EarlyExit.Proofs.Expansion.Turns

/-!
# Names in use

A step brings no name into a tree but those it draws and, in the code that rebuilds a
container, the class of a kind.  Of these only the drawn ones are declared.
-/

namespace EarlyExit.Expansion

open Node

/-- The name that a node uses, and whether the node declares it as a variable. -/
def mentionsHere (n : Node) : List (Bool × String) :=
  (usedName? n).toList.map fun x => ((declaredName? n).isSome, x)

def mentions (n : Node) : List (Bool × String) :=
  gather mentionsHere n

theorem local_mentions : Local mentionsHere where
  silent n hn := by
    cases n with
    | expr e => cases e <;> simp_all [isSilent, mentionsHere, usedName?]
    | stmt s => cases s <;> simp_all [isSilent, mentionsHere, usedName?]
    | _ => simp_all [isSilent, mentionsHere, usedName?]
  var _ _ _ _ _ _ _ := rfl
  forEach _ _ _ _ _ _ := rfl
  set _ hset _ _ := by
    rw [mentionsHere, mentionsHere, usedName?_set hset, declaredName?_set hset]

theorem mem_mentionsHere {n : Node} {m : Bool × String} :
    m ∈ mentionsHere n ↔ usedName? n = some m.2 ∧ (declaredName? n).isSome = m.1 := by
  simp only [mentionsHere, List.mem_map, Option.mem_toList]
  constructor
  · rintro ⟨x, hx, rfl⟩
    exact ⟨hx, rfl⟩
  · rintro ⟨hx, hm⟩
    exact ⟨m.2, hx, by rw [hm]⟩

theorem mem_usedNames {n : Node} {x : String} :
    x ∈ usedNames n ↔ ∃ declared, (declared, x) ∈ mentions n := by
  simp only [usedNames, List.mem_filterMap, mentions, mem_gather, mem_mentionsHere]
  constructor
  · rintro ⟨c, hc, hx⟩
    exact ⟨_, c, hc, hx, rfl⟩
  · rintro ⟨_, c, hc, hx, _⟩
    exact ⟨c, hc, hx⟩

theorem usedName?_of_declared {n : Node} {x : String} (h : declaredName? n = some x) :
    usedName? n = some x := by
  cases n with
  | stmt s => cases s <;> first | exact h | cases h
  | _ => cases h

theorem declared_mem_mentions {n c : Node} {x : String} (hc : c ∈ n.nodes)
    (hx : declaredName? c = some x) : (true, x) ∈ mentions n :=
  mem_gather.2 ⟨c, hc, mem_mentionsHere.2 ⟨usedName?_of_declared hx, by simp [hx]⟩⟩

section Mentions

variable {o : Options} {c : Setting} {kinds : List String}

@[simp] theorem mentions_ident (s : Span) (x type : String) :
    gather mentionsHere (.expr (.ident s x type)) = [(false, x)] := by
  rw [gather_ident]
  rfl

@[simp] theorem mentions_var (s : Span) (x type : String) (e : Expr) :
    gather mentionsHere (.stmt (.var s x type e)) =
      (true, x) :: gather mentionsHere (.expr e) := by
  rw [local_mentions.gather_var]
  rfl

@[simp] theorem mentions_call (s : Span) (receiver : Expr) (name : String) (args : List Expr)
    (type : String) : gather mentionsHere (.expr (.call s receiver name args type)) =
      gather mentionsHere (.expr receiver) ++
        args.flatMap fun a => gather mentionsHere (.expr a) := by
  rw [local_mentions.gather_call]
  rfl

/-- Names that a temporary brings in. -/
def Brings (kinds : List String) (x : String) (m : Bool × String) : Prop :=
  m.2 = x ∨ (m.1 = false ∧ m.2 ∈ kinds)

theorem mentions_guard (hkinds : Knows o kinds) {g : Guard} {e : Expr}
    (hkind : o.registry.resolve e = some g.kind) {m : Bool × String}
    (hm : m ∈ g.statements.flatMap fun s => mentions (.stmt s)) :
    m ∈ mentions (.expr g.receiver) ∨ Brings kinds g.name m := by
  have hl := local_mentions
  have hname := hkinds.resolve hkind
  have hreconstruct : ∀ m ∈ gather mentionsHere (.expr (g.kind.reconstruct
      (.ident g.span g.name g.type) g.span)), Brings kinds g.name m := by
    intro m hm
    unfold Kind.reconstruct at hm
    split at hm
    next =>
      simp only [mentions_call, mentions_ident, List.flatMap_nil, List.append_nil,
        List.mem_singleton] at hm
      subst hm
      exact .inr ⟨rfl, hname⟩
    next =>
      simp only [mentions_call, mentions_ident, List.flatMap_cons, List.flatMap_nil,
        List.append_nil, List.mem_append, List.mem_singleton] at hm
      rcases hm with rfl | rfl
      · exact .inr ⟨rfl, hname⟩
      · exact .inl rfl
  simp only [Guard.statements, guardStatements, Kind.guard, mentions, List.flatMap_cons,
    List.flatMap_nil, mentions_var, mentions_call, mentions_ident, hl.gather_branch,
    hl.gather_block, hl.gather_exit, hl.gather_missingStmt, List.append_nil, List.mem_append,
    List.mem_cons, List.not_mem_nil, or_false] at hm
  rcases hm with (rfl | hm) | rfl | hm
  · exact .inr (.inl rfl)
  · exact .inl hm
  · exact .inr (.inl rfl)
  · exact .inr (hreconstruct m hm)

theorem Move.mentions (hkinds : Knows o kinds) {x : String} {a b : Expr} {t : Temp}
    (h : Move o c x a t b) {m : Bool × String}
    (hm : m ∈ (t.statements.flatMap fun s => Expansion.mentions (.stmt s)) ++
      Expansion.mentions (.expr b)) :
    m ∈ Expansion.mentions (.expr a) ∨ Brings kinds x m := by
  have hl := local_mentions
  rw [List.mem_append] at hm
  cases h with
  | @spilled _ p p' e slot hget hset _ _ _ _ _ hswap =>
      obtain ⟨l, r, hp, hp'⟩ := gather_set hget hset rfl (hl.set hget hset rfl fun hbare => by
        simp_all)
      obtain ⟨l', r', ha, hb⟩ := hl.swap hswap (alike_set hset) (isFilled_set hset)
      simp only [Expansion.mentions, Temp.statements, List.flatMap_cons, List.flatMap_nil,
        mentions_var, mentions_ident, ha, hb, hp, hp', List.append_nil, List.mem_append,
        List.mem_cons, List.not_mem_nil, or_false] at hm ⊢
      rcases hm with (rfl | hm) | (hm | (hm | rfl) | hm) | hm
      all_goals first
        | exact .inr (.inl rfl)
        | simp [hm]
  | @hoisted _ receiver s type kind hkind _ hswap =>
      obtain ⟨l, r, ha, hb⟩ := hl.swap hswap ⟨rfl, rfl⟩ rfl
      rcases hm with hm | hm
      · rcases mentions_guard hkinds (g := ⟨c.exit, kind, s, x, receiver.staticType, receiver⟩)
          hkind hm with hm | hm
        · left
          rw [Expansion.mentions] at hm ⊢
          simp [ha, hm]
        · exact .inr hm
      · rw [Expansion.mentions, hb] at hm
        rw [Expansion.mentions, ha]
        simp only [Kind.extract, mentions_call, mentions_ident, List.flatMap_nil, List.append_nil,
          List.mem_append, List.mem_singleton] at hm ⊢
        rcases hm with (hm | rfl) | hm
        all_goals first
          | exact .inr (.inl rfl)
          | simp [hm]
  | @kept _ t value s op applied _ _ _ _ _ hswap =>
      obtain ⟨l, r, ha, hb⟩ := hl.swap hswap ⟨rfl, rfl⟩ rfl
      simp only [Expansion.mentions, Temp.statements, List.flatMap_cons, List.flatMap_nil,
        mentions_var, mentions_ident, hl.gather_assign, hl.gather_binary, ha, hb, List.append_nil,
        List.mem_append, List.mem_cons, List.not_mem_nil, or_false] at hm ⊢
      rcases hm with (rfl | hm) | (hm | hm | rfl | hm) | hm
      all_goals first
        | exact .inr (.inl rfl)
        | simp [hm]

theorem Moves.mentions (hkinds : Knows o kinds) {ns ns' : Names} {a v : Expr} {ts : List Temp}
    (h : Moves o c ns a ts v ns') {m : Bool × String}
    (hm : m ∈ ((ts.flatMap Temp.statements).flatMap fun s => Expansion.mentions (.stmt s)) ++
      Expansion.mentions (.expr v)) :
    m ∈ Expansion.mentions (.expr a) ∨ ∃ t ∈ ts, Brings kinds t.name m := by
  induction h with
  | none => exact .inl (by simpa using hm)
  | @more ns ns' a b v t ts hmove _ ih =>
      have hone {m : Bool × String} (hm : m ∈ (t.statements.flatMap fun s =>
          Expansion.mentions (.stmt s)) ++ Expansion.mentions (.expr b)) :
          m ∈ Expansion.mentions (.expr a) ∨ ∃ u ∈ t :: ts, Brings kinds u.name m := by
        refine (hmove.mentions hkinds hm).imp_right fun hbrings => ⟨t, by simp, ?_⟩
        rwa [hmove.name]
      simp only [List.flatMap_cons, List.flatMap_append, List.append_assoc] at hm
      rcases List.mem_append.1 hm with hm | hm
      · exact hone (List.mem_append_left _ hm)
      · rcases ih hm with hm | ⟨u, hu, hbrings⟩
        · exact hone (List.mem_append_right _ hm)
        · exact .inr ⟨u, by simp [hu], hbrings⟩

theorem mem_assigning {cond : Conditional} {s : Span} {x type : String} {op : Operator}
    {m : Bool × String} (hm : m ∈ mentions (.stmt (cond.assigning (.ident s x type) op))) :
    m ∈ mentions (.expr cond.expr) ∨ m = (false, x) := by
  have hl := local_mentions
  simp only [mentions, Conditional.assigning, Conditional.branches, hl.gather_branch,
    hl.gather_exprStmt, hl.gather_assign, hl.gather_conditional, mentions_ident, List.mem_append,
    List.mem_singleton] at hm ⊢
  tauto

/-- A declared variable is assigned after a lift, so it is then also used. -/
def Covered (l : List (Bool × String)) (m : Bool × String) : Prop :=
  m ∈ l ∨ (m.1 = false ∧ (true, m.2) ∈ l)

theorem Lifted.mentions {cond : Conditional} {ns ns' : Names} {s : Stmt} {new : List Stmt}
    (h : Lifted cond ns s new ns') {m : Bool × String}
    (hm : m ∈ new.flatMap fun t => Expansion.mentions (.stmt t)) :
    Covered (Expansion.mentions (.stmt s)) m ∨ ∃ t ∈ liftTemps cond ns s, m.2 = t.name := by
  have hl := local_mentions
  cases h with
  | exit hleaves hexpr =>
      left
      have hself := gather_leaves hl hleaves s.anchorExpr
      rw [withAnchorExpr_self (anchorSlot?_of_leaves hleaves), hexpr, hl.gather_conditional] at hself
      rw [Expansion.mentions, hself]
      left
      simpa only [Expansion.mentions, Conditional.branches, List.flatMap_cons, List.flatMap_nil,
        hl.gather_branch, hl.explicit, gather_leaves hl hleaves, List.append_nil] using hm
  | declared s name type type' =>
      left
      simp only [List.flatMap_cons, List.flatMap_nil, List.append_nil, List.mem_append] at hm
      rw [Expansion.mentions, mentions_var]
      rcases hm with hm | hm
      · rw [Expansion.mentions, mentions_var, hl.missing, List.mem_singleton] at hm
        exact .inl (by simp [hm])
      · rcases mem_assigning hm with hm | rfl
        · exact .inl (List.mem_cons_of_mem _ hm)
        · exact .inr ⟨rfl, by simp⟩
  | assigned s s' s'' x t op =>
      left
      simp only [List.flatMap_cons, List.flatMap_nil, List.append_nil] at hm
      rw [Expansion.mentions, hl.gather_exprStmt, hl.gather_assign, mentions_ident]
      left
      rw [List.mem_append, List.mem_singleton]
      exact (mem_assigning hm).symm
  | evaluated s =>
      left
      left
      simpa only [Expansion.mentions, Conditional.branches, List.flatMap_cons, List.flatMap_nil,
        hl.gather_branch, hl.gather_exprStmt, hl.gather_conditional, List.append_nil] using hm
  | stored hheaded hexpr =>
      obtain ⟨slot, hslot⟩ := Option.isSome_iff_exists.1 (anchorSlot?_of_isHeaded hheaded)
      obtain ⟨rest, hrest⟩ := gather_anchor hl hslot
      have hself := hrest s.anchorExpr
      rw [withAnchorExpr_self (by simp [hslot]), hexpr] at hself
      have htemp : ∃ t ∈ liftTemps cond ns s, ns.fresh.1 = t.name := by
        rw [liftTemps, if_pos hheaded]
        exact ⟨_, List.mem_singleton.2 rfl, rfl⟩
      simp only [List.flatMap_cons, List.flatMap_nil, List.append_nil, List.mem_append] at hm
      rcases hm with hm | hm | hm
      · rw [Expansion.mentions, mentions_var, hl.missing, List.mem_singleton] at hm
        subst hm
        exact .inr htemp
      · rcases mem_assigning hm with hm | rfl
        · left
          left
          rw [Expansion.mentions] at hm
          rw [Expansion.mentions, hself]
          simp [hm]
        · exact .inr htemp
      · rw [Expansion.mentions, hrest, mentions_ident] at hm
        simp only [List.mem_append, List.mem_singleton] at hm
        rcases hm with (hm | rfl) | hm
        · exact .inl (.inl (by rw [Expansion.mentions, hself]; simp [hm]))
        · exact .inr htemp
        · exact .inl (.inl (by rw [Expansion.mentions, hself]; simp [hm]))

theorem Turn.mentions (hkinds : Knows o kinds) {ns ns' : Names} {s : Stmt} {ts : List Temp}
    {new : List Stmt} (h : Turn o ns s ts new ns') {m : Bool × String}
    (hm : m ∈ new.flatMap fun t => Expansion.mentions (.stmt t)) :
    Covered (Expansion.mentions (.stmt s)) m ∨ ∃ t ∈ ts, Brings kinds t.name m := by
  cases h with
  | lifted h =>
      refine (h.mentions hm).imp_right ?_
      rintro ⟨t, ht, hname⟩
      exact ⟨t, ht, .inl hname⟩
  | @hoisted c slot ts v ns' hslot _ hmoves =>
      have hl := local_mentions
      obtain ⟨rest, hrest⟩ := gather_anchor hl hslot
      have hself := hrest s.anchorExpr
      rw [withAnchorExpr_self (by simp [hslot])] at hself
      have hinside (h : m ∈ Expansion.mentions (.expr s.anchorExpr)) :
          Covered (Expansion.mentions (.stmt s)) m := by
        left
        rw [Expansion.mentions] at h
        rw [Expansion.mentions, hself]
        simp [h]
      rw [List.flatMap_append, List.flatMap_singleton, List.mem_append] at hm
      rcases hm with hm | hm
      · exact (hmoves.mentions hkinds (List.mem_append_left _ hm)).imp_left hinside
      · rw [Expansion.mentions, hrest, List.mem_append, List.mem_append] at hm
        rcases hm with (hm | hm) | hm
        · exact .inl (.inl (by rw [Expansion.mentions, hself]; simp [hm]))
        · exact (hmoves.mentions hkinds (List.mem_append_right _ hm)).imp_left hinside
        · exact .inl (.inl (by rw [Expansion.mentions, hself]; simp [hm]))

/-- What a tree mentions after a step it has mentioned before, or the step has brought it in. -/
theorem Turns.mentions (hkinds : Knows o kinds) {w w' : Work} {ts : List Temp}
    (h : Turns o w ts w') {m : Bool × String} (hm : m ∈ Expansion.mentions w'.root) :
    Covered (Expansion.mentions w.root) m ∨ ∃ t ∈ ts, Brings kinds t.name m := by
  have hl := local_mentions
  cases h with
  | @wrapped p s ps e root' hat hfilled hlive hput =>
      obtain ⟨l, r, hold, hnew⟩ := hl.swap (swap_of_put hat hput) ⟨rfl, rfl⟩ rfl
      left
      left
      rw [Expansion.mentions, hnew, hl.gather_wrapped] at hm
      rwa [Expansion.mentions, hold]
  | @turned p slot parent s ts new names root' hp hparent hget hlive hfilled hturn hsplice =>
      have hat : w.root.at? (p ++ [slot]) = some (.stmt s) := at?_concat_eq_some.2 ⟨_, hp, hget⟩
      obtain ⟨l, r, hold, hnew⟩ := splice_gather hl hat hfilled hsplice
      rw [Expansion.mentions, hnew, List.mem_append, List.mem_append] at hm
      rw [Expansion.mentions, hold]
      rcases hm with (hm | hm) | hm
      · exact .inl (.inl (by simp [hm]))
      · refine (hturn.mentions hkinds hm).imp_left ?_
        rintro (hm | ⟨hflag, hm⟩)
        · exact .inl (List.mem_append_left _ (List.mem_append_right _ hm))
        · exact .inr ⟨hflag, List.mem_append_left _ (List.mem_append_right _ hm)⟩
      · exact .inl (.inl (by simp [hm]))

end Mentions

end EarlyExit.Expansion
