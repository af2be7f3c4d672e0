import EarlyExit.Proofs.Expansion.Fresh
import EarlyExit.Proofs.Expansion.Gather
import EarlyExit.Proofs.Expansion.Workload

/-!
# The census of a tree

The census lists the sites of a tree, and the declarations and member calls of variables
that are not among given old names.  A step takes sites out of the census and puts in
what its temporaries bring: nothing is lost and nothing counted twice, unless an
assignment that reads its target first has to repeat a part of the target with something
to count in it.
-/

namespace EarlyExit.Expansion

open Node

/-! ## Traits -/

inductive Trait
  | declared (name : String)
  | member (receiver name : String)
  | site (span : Span) (kind : Kind)
deriving DecidableEq

def Trait.site? : Trait -> Option (Span × Kind)
  | site span kind => some (span, kind)
  | _ => none

def declaredName? : Node -> Option String
  | .stmt (.var _ name _ _) => some name
  | _ => none

/-- A call without arguments on a variable: the variable and the member called. -/
def memberCall? : Node -> Option (String × String)
  | .expr (.call _ (.ident _ x _) member [] _) => some (x, member)
  | _ => none

section Census

variable (o : Options) (old : List String)

def traits (n : Node) : List Trait :=
  ((declaredName? n).filter fun x => x ∉ old).toList.map .declared ++
    ((memberCall? n).filter fun x => x.1 ∉ old ∧ x.2 ≠ o.sentinel).toList.map
      (fun x => .member x.1 x.2) ++
    (siteKind? o n).toList.map (.site n.span)

def census (n : Node) : List Trait :=
  gather (traits o old) n

/-- The parts of a target that stand in two places once its old value is kept. -/
def isFunction : Expr -> Bool
  | .lambda .. => true
  | _ => false

def repeated : Expr -> List Expr
  | .ident .. | .lambda .. => []
  | .index _ array position _ => [array, position].filter isFunction
  | .field _ target _ _ => [target].filter isFunction
  | e => [e]

/-- A compound assignment repeats nothing that is counted while its value has a site. -/
def Steady : Node -> Prop
  | .expr (.assign _ target op value) => op.isCompound = true -> isLive o (.expr value) = true ->
      ∀ e ∈ repeated target, census o old (.expr e) = []
  | _ => True

end Census

namespace Temp

def sites : Temp -> List Trait
  | guard g => [.site g.span g.kind]
  | plain .. => []

def traits : Temp -> List Trait
  | guard g => [.declared g.name, .member g.name g.kind.predicate] ++
      (if g.kind.alternateAccessor.isEmpty then []
       else [.member g.name g.kind.alternateAccessor]) ++ [.member g.name g.kind.accessor]
  | plain _ name _ _ => [.declared name]

end Temp

/-! ## Traits are local -/

theorem declaredName?_set {n n' c : Node} {slot : Slot} (h : n.set? slot c = some n') :
    declaredName? n' = declaredName? n :=
  eq_of_bare (fun n => by cases n with | stmt s => cases s <;> rfl | _ => rfl) h

theorem usedName?_set {n n' c : Node} {slot : Slot} (h : n.set? slot c = some n') :
    usedName? n' = usedName? n :=
  eq_of_bare (fun n => by
    cases n with
    | stmt s => cases s <;> rfl
    | expr e => cases e <;> rfl
    | _ => rfl) h

theorem span_set {n n' c : Node} {slot : Slot} (h : n.set? slot c = some n') :
    n'.span = n.span :=
  eq_of_bare (fun n => by
    cases n with
    | stmt s => cases s <;> rfl
    | expr e => cases e <;> rfl
    | _ => rfl) h

theorem memberCall?_eq_none {n : Node} (h : n.isBareCall = false) : memberCall? n = none := by
  unfold memberCall?
  split
  · cases h
  · rfl

/-- A call without arguments has only its receiver to change. -/
theorem memberCall?_bare {n n' c c' : Node} {slot : Slot} (hn : n.isBareCall = true)
    (hget : n.get? slot = some c) (hset : n.set? slot c' = some n')
    (hvar : c.varName? = c'.varName?) : memberCall? n' = memberCall? n := by
  unfold isBareCall at hn
  split at hn
  next s receiver name type =>
    rw [get?_eq_some] at hget
    simp only [slots, exprSlots, listed, List.append_nil, mem_single, ofExpr?_eq_some] at hget
    obtain ⟨rfl, rfl, _⟩ := hget
    cases c' <;> simp only [set?, setExprSlot, Option.map_some, Option.map_none, reduceCtorEq,
      Option.some.injEq] at hset
    subst hset
    rename_i e
    cases e <;> cases receiver <;> simp_all [memberCall?, varName?]
  next => cases hn

theorem isBareCall_set {n n' c : Node} {slot : Slot} (h : n.set? slot c = some n') :
    n'.isBareCall = n.isBareCall :=
  eq_of_bare (fun n => by
    cases n with
    | expr e =>
        cases e with
        | call s receiver name args type => cases args <;> rfl
        | _ => rfl
    | _ => rfl) h

theorem local_traits (o : Options) (old : List String) : Local (traits o old) where
  silent n hn := by
    cases n with
    | expr e => cases e <;> simp_all [isSilent, traits, declaredName?, memberCall?, siteKind?]
    | stmt s => cases s <;> simp_all [isSilent, traits, declaredName?, memberCall?, siteKind?]
    | _ => simp_all [isSilent, traits, declaredName?, memberCall?, siteKind?]
  var _ _ _ _ _ _ _ := by simp [traits, declaredName?, memberCall?, siteKind?]
  forEach _ _ _ _ _ _ := by simp [traits, declaredName?, memberCall?, siteKind?]
  set {n n' c c' slot} hget hset htype hvar := by
    have hmember : memberCall? n' = memberCall? n := by
      cases hbare : n.isBareCall with
      | true => exact memberCall?_bare hbare hget hset (hvar hbare)
      | false =>
          rw [memberCall?_eq_none hbare, memberCall?_eq_none ((isBareCall_set hset).trans hbare)]
    rw [traits, traits, declaredName?_set hset, hmember, siteKind?_set hget hset htype,
      span_set hset]

def usedHere (n : Node) : List String :=
  (usedName? n).toList

theorem local_used : Local usedHere where
  silent n hn := by
    cases n with
    | expr e => cases e <;> simp_all [isSilent, usedHere, usedName?]
    | stmt s => cases s <;> simp_all [isSilent, usedHere, usedName?]
    | _ => simp_all [isSilent, usedHere, usedName?]
  var _ _ _ _ _ _ _ := rfl
  forEach _ _ _ _ _ _ := rfl
  set _ hset _ _ := by rw [usedHere, usedHere, usedName?_set hset]

theorem usedNames_eq (n : Node) : usedNames n = gather usedHere n :=
  List.filterMap_eq_flatMap_toList usedName? n.nodes

/-! ## Sites in the census -/

theorem mem_census {o : Options} {old : List String} {n : Node} {t : Trait} :
    t ∈ census o old n ↔ ∃ c ∈ n.nodes, t ∈ traits o old c :=
  mem_gather

theorem site_mem_traits {o : Options} {old : List String} {n : Node} {s : Span} {k : Kind} :
    .site s k ∈ traits o old n ↔ siteKind? o n = some k ∧ s = n.span := by
  simp only [traits, List.mem_append, List.mem_map, reduceCtorEq, and_false, exists_false,
    false_or, Option.mem_toList, Trait.site.injEq]
  constructor
  · rintro ⟨k', hk, rfl, rfl⟩
    exact ⟨hk, rfl⟩
  · rintro ⟨hk, rfl⟩
    exact ⟨k, hk, rfl, rfl⟩

/-- A live node has something in the census. -/
theorem census_ne_nil {o : Options} {old : List String} {n : Node} (h : isLive o n = true) :
    census o old n ≠ [] := by
  obtain ⟨p, c, k, hc, hk⟩ := isLive_iff.1 h
  have hmem : Trait.site c.span k ∈ census o old n :=
    mem_census.2 ⟨c, mem_nodes.2 ⟨p, hc⟩, site_mem_traits.2 ⟨hk, rfl⟩⟩
  exact List.ne_nil_of_mem hmem

/-- The sites in the census are the sites of the tree. -/
theorem census_sites (o : Options) (old : List String) (n : Node) :
    (census o old n).filterMap Trait.site? = (sites o n).map fun x => (x.span, x.kind) := by
  have hnode (c : Node) : (traits o old c).filterMap Trait.site? =
      ((siteKind? o c).map fun k => (c.span, k)).toList := by
    have hdeclared (l : List String) : (l.map Trait.declared).filterMap Trait.site? = [] := by
      simp [Trait.site?]
    have hmember (l : List (String × String)) :
        (l.map fun x => Trait.member x.1 x.2).filterMap Trait.site? = [] := by
      simp [Trait.site?]
    rw [traits, List.filterMap_append, List.filterMap_append, hdeclared, hmember]
    cases siteKind? o c <;> rfl
  rw [census, gather, nodes, sites, List.filterMap_flatMap, List.flatMap_map, List.map_filterMap]
  simp only [hnode]
  induction n.walk with
  | nil => rfl
  | cons x rest ih =>
      rw [List.flatMap_cons, List.filterMap_cons, ih]
      simp only [siteAt?, Option.map_map]
      cases siteKind? o x.2 <;> rfl

/-! ## Moves in the census -/

section Moves

variable {o : Options} {c : Setting} {old : List String}

theorem traits_ident (s : Span) (name type : String) :
    traits o old (.expr (.ident s name type)) = [] := by
  simp [traits, declaredName?, memberCall?, siteKind?]

theorem census_ident (s : Span) (name type : String) :
    census o old (.expr (.ident s name type)) = [] := by
  rw [census, gather_ident, traits_ident]

theorem traits_var {s : Span} {name type : String} {e : Expr} (h : name ∉ old) :
    traits o old (.stmt (.var s name type e)) = [.declared name] := by
  simp [traits, declaredName?, memberCall?, siteKind?, Option.filter, h]

/-- A call of a member of a temporary. -/
theorem census_member {s s' : Span} {x type member result : String} (hx : x ∉ old)
    (hmember : member ≠ o.sentinel) :
    census o old (.expr (.call s (.ident s' x type) member [] result)) = [.member x member] := by
  rw [census, (local_traits o old).gather_call, gather_ident, traits_ident]
  simp [traits, declaredName?, memberCall?, siteKind?, Option.filter, hx, hmember]

/-- The names of kinds count as old. -/
def Knows (o : Options) (old : List String) : Prop :=
  ∀ type k, o.registry.lookup type = some k -> k.name ∈ old

theorem Knows.resolve (h : Knows o old) {e : Expr} {k : Kind}
    (hk : o.registry.resolve e = some k) : k.name ∈ old := by
  unfold Registry.resolve at hk
  split at hk
  · cases hk
  · exact h _ k hk

theorem census_reconstruct {kind : Kind} {s : Span} {x type : String} (hx : x ∉ old)
    (hkind : kind.name ∈ old) (hmember : kind.alternateAccessor ≠ o.sentinel) :
    census o old (.expr (kind.reconstruct (.ident s x type) s)) =
      if kind.alternateAccessor.isEmpty then [] else [.member x kind.alternateAccessor] := by
  unfold Kind.reconstruct
  rw [census, (local_traits o old).gather_call, gather_ident, traits_ident]
  split
  next =>
    simp [traits, declaredName?, memberCall?, siteKind?, Option.filter, hkind, Registry.resolve,
      Expr.staticType]
  next =>
    have harg : census o old (.expr (.call s (.ident s x type) kind.alternateAccessor [] "")) =
        [.member x kind.alternateAccessor] := census_member hx hmember
    rw [census] at harg
    simp [traits, declaredName?, memberCall?, siteKind?, harg]

/-- What the statements of a test add, apart from the container. -/
theorem census_guard (ho : o.Apart) (hknows : Knows o old) {g : Guard} {e : Expr}
    (hkind : o.registry.resolve e = some g.kind) (hname : g.name ∉ old) {a : Trait} :
    (g.statements.flatMap fun t => census o old (.stmt t)).count a + [Trait.member g.name
      g.kind.accessor].count a = (census o old (.expr g.receiver)).count a +
        (Temp.guard g).traits.count a := by
  have hmembers := ho.resolve hkind
  simp only [Settings.calledMembers, List.mem_cons, List.not_mem_nil, or_false, not_or] at hmembers
  have hl := local_traits o old
  have htest : census o old (.expr (.call g.span (.ident g.span g.name g.type) g.kind.predicate []
      "boolean")) = [.member g.name g.kind.predicate] :=
    census_member hname (Ne.symm hmembers.1)
  have hreconstruct : census o old (.expr (g.kind.reconstruct (.ident g.span g.name g.type)
      g.span)) = if g.kind.alternateAccessor.isEmpty then []
        else [.member g.name g.kind.alternateAccessor] :=
    census_reconstruct hname (hknows.resolve hkind) (Ne.symm hmembers.2.2)
  simp only [census] at htest hreconstruct
  simp only [Guard.statements, guardStatements, Kind.guard, census, List.flatMap_cons,
    List.flatMap_nil, hl.gather_var, hl.gather_branch, hl.gather_block, hl.gather_exit,
    hl.gather_missingStmt, traits_var hname, htest, hreconstruct, Temp.traits, List.count_append,
    List.append_nil]
  rw [show (Trait.declared g.name :: [Trait.member g.name g.kind.predicate]) =
    [Trait.declared g.name] ++ [Trait.member g.name g.kind.predicate] from rfl, List.count_append]
  omega

/-- A target with settled operands has in it what is repeated, and variables. -/
theorem census_target {written : List String} {t value : Expr} (hsettled : Settled t)
    (hmoves : targetMoves written t value = true)
    (h : ∀ e ∈ repeated t, census o old (.expr e) = []) : census o old (.expr t) = [] := by
  have hl := local_traits o old
  -- a settled operand is counted only if it is a function
  have hatom {e : Expr} (hatom : isAtom e = true)
      (hfunction : isFunction e = true -> census o old (.expr e) = []) :
      gather (traits o old) (.expr e) = [] := by
    cases e with
    | lambda => exact hfunction rfl
    | ident => exact census_ident ..
    | missing => exact hl.missing
    | literal =>
        rw [gather_eq, hl.silent _ rfl]
        rfl
    | _ => cases hatom
  cases t with
  | ident => exact census_ident ..
  | lambda => simp [targetMoves, isStable] at hmoves
  | index s array position type =>
      have harray := hatom hsettled.1 fun hf => h array (by simp [repeated, hf])
      have hposition := hatom hsettled.2 fun hf => h position (by simp [repeated, hf])
      rw [census, hl.gather_index, harray, hposition]
      rfl
  | field s target name type =>
      rw [census, hl.gather_field]
      exact hatom hsettled fun hf => h target (by simp [repeated, hf])
  | _ => exact h _ (by simp [repeated])

/-- A move takes the site of its temporary out of the census and puts in what the code adds. -/
theorem Move.census (ho : o.Apart) (hknows : Knows o old) {x : String} {a b : Expr} {t : Temp}
    (h : Move o c x a t b) (hx : x ∉ old) (hsteady : Everywhere (Steady o old) (.expr a)) :
    ((t.statements.flatMap fun s => Expansion.census o old (.stmt s)) ++
      Expansion.census o old (.expr b) ++ t.sites).Perm
        (Expansion.census o old (.expr a) ++ t.traits) := by
  have hl := local_traits o old
  rw [List.perm_iff_count]
  intro trait
  cases h with
  | @spilled _ p p' e slot hget hset _ hcall _ _ _ hswap =>
      obtain ⟨l, r, hp, hp'⟩ := gather_set hget hset rfl
        (hl.set hget hset rfl fun hbare => by rw [hcall] at hbare; cases hbare)
      obtain ⟨l', r', ha, hb⟩ := hl.swap hswap (alike_set hset) (isFilled_set hset)
      simp only [Temp.statements, Temp.sites, Temp.traits, Expansion.census, List.flatMap_cons,
        List.flatMap_nil, hl.gather_var, traits_var hx, gather_ident, traits_ident, ha, hb, hp, hp',
        List.count_append, List.count_nil]
      omega
  | @hoisted _ receiver s type kind hkind _ hswap =>
      have hmembers := ho.resolve hkind
      simp only [Settings.calledMembers, List.mem_cons, List.not_mem_nil, or_false,
        not_or] at hmembers
      have hextract : Expansion.census o old (.expr (.call s (.ident s x receiver.staticType)
          kind.accessor [] type)) = [.member x kind.accessor] :=
        census_member hx (Ne.symm hmembers.2.1)
      obtain ⟨l, r, ha, hb⟩ := hl.swap hswap ⟨rfl, rfl⟩ rfl
      have hguard := census_guard ho hknows (g := ⟨c.exit, kind, s, x, receiver.staticType,
        receiver⟩) hkind hx (a := trait)
      have hsite : traits o old (.expr (.call s receiver o.sentinel [] type)) = [.site s kind] := by
        have hmember : ((memberCall? (.expr (.call s receiver o.sentinel [] type))).filter
            fun x => x.1 ∉ old ∧ x.2 ≠ o.sentinel) = none := by
          cases receiver <;> simp [memberCall?, Option.filter]
        rw [traits, hmember]
        simp [declaredName?, siteKind?, hkind, Node.span, Expr.span]
      simp only [Expansion.census] at hextract hguard ⊢
      simp only [Kind.extract, Temp.statements, ha, hb, hextract, hl.gather_call, hsite,
        Temp.sites, List.count_append, List.flatMap_nil, List.append_nil] at hguard ⊢
      omega
  | @kept _ t value s op applied happlied hmoves hsettled _ hlive hswap =>
      have hassign : Steady o old (.expr (.assign s t op value)) := (hsteady.old hswap).self
      have hcompound : op.isCompound = true := by simp [Operator.isCompound, happlied]
      have htarget : Expansion.census o old (.expr t) = [] :=
        census_target hsettled hmoves (hassign hcompound hlive)
      obtain ⟨l, r, ha, hb⟩ := hl.swap hswap ⟨rfl, rfl⟩ rfl
      simp only [Expansion.census] at htarget
      simp only [Temp.statements, Temp.sites, Temp.traits, Expansion.census, List.flatMap_cons,
        List.flatMap_nil, hl.gather_var, hl.gather_assign, hl.gather_binary, traits_var hx,
        gather_ident, traits_ident, htarget, ha, hb, List.count_append, List.count_nil]
      omega

end Moves

end EarlyExit.Expansion
