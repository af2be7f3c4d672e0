import EarlyExit.Proofs.Expansion.Temporaries

/-!
# Accounts of sites

Hoisting loses no site and makes none: those it found, those in the statements it put in front
and those in the value it left are together the sites that there were.  The one exception is
a compound assignment that repeats a site in its target to keep the old value.
-/

namespace EarlyExit.Expansion

open Node

/-! ## Keys -/

/-- What tells a site once it has moved. -/
def Site.key (x : Site) : Span × Kind :=
  (x.span, x.kind)

def keys (o : Options) (n : Node) : List (Span × Kind) :=
  (sites o n).map Site.key

def ownKey (o : Options) (n : Node) : List (Span × Kind) :=
  ((siteKind? o n).map (n.span, ·)).toList

def keysIn (o : Options) (new : List Stmt) : List (Span × Kind) :=
  new.flatMap fun t => keys o (.stmt t)

section Keys

variable {o : Options} {s : Span}

theorem keys_eq_gather (o : Options) (n : Node) : keys o n = gather (ownKey o) n := by
  rw [keys, sites, List.map_filterMap, gather, nodes, List.flatMap_map]
  induction n.walk with
  | nil => rfl
  | cons x rest ih =>
      rw [List.flatMap_cons, List.filterMap_cons, ih]
      simp only [siteAt?, Option.map_map, ownKey]
      cases siteKind? o x.2 <;> rfl

theorem local_ownKey (o : Options) : Local (ownKey o) where
  silent n hn := by
    cases n with
    | expr e => cases e <;> simp_all [isSilent, ownKey, siteKind?]
    | stmt s => cases s <;> simp_all [isSilent, ownKey, siteKind?]
    | _ => simp_all [isSilent, ownKey, siteKind?]
  var _ _ _ _ _ _ _ := by simp [ownKey, siteKind?]
  forEach _ _ _ _ _ _ := by simp [ownKey, siteKind?]
  set hget hset htype _ := by rw [ownKey, ownKey, siteKind?_set hget hset htype, span_set hset]

theorem keys_eq_nil {n : Node} (h : isLive o n = false) : keys o n = [] := by
  rw [keys, List.map_eq_nil_iff, List.eq_nil_iff_forall_not_mem]
  intro x hx
  obtain ⟨c, hc, hkind, _⟩ := mem_sites.1 hx
  have hlive := isLive_of_at hc (isLive_of_site hkind)
  rw [h] at hlive
  cases hlive

theorem keys_ident (name type : String) : keys o (.expr (.ident s name type)) = [] :=
  keys_eq_nil (isLive_ident o s name type)

theorem keys_var (name type : String) (e : Expr) :
    keys o (.stmt (.var s name type e)) = keys o (.expr e) := by
  rw [keys_eq_gather, keys_eq_gather, (local_ownKey o).gather_var]
  simp [ownKey, siteKind?]

theorem keys_call (receiver : Expr) (name : String) (args : List Expr) (type : String) :
    keys o (.expr (.call s receiver name args type)) =
      ownKey o (.expr (.call s receiver name args type)) ++
        (keys o (.expr receiver) ++ args.flatMap fun a => keys o (.expr a)) := by
  simp only [keys_eq_gather, (local_ownKey o).gather_call, List.append_assoc]

theorem keys_field (target : Expr) (name type : String) :
    keys o (.expr (.field s target name type)) = keys o (.expr target) := by
  simp only [keys_eq_gather, (local_ownKey o).gather_field]

theorem keys_index (array position : Expr) (type : String) :
    keys o (.expr (.index s array position type)) =
      keys o (.expr array) ++ keys o (.expr position) := by
  simp only [keys_eq_gather, (local_ownKey o).gather_index]

theorem keys_binary (left : Expr) (op : Operator) (right : Expr) :
    keys o (.expr (.binary s left op right)) = keys o (.expr left) ++ keys o (.expr right) := by
  simp only [keys_eq_gather, (local_ownKey o).gather_binary]

theorem keys_assign (target : Expr) (op : Operator) (value : Expr) :
    keys o (.expr (.assign s target op value)) =
      keys o (.expr target) ++ keys o (.expr value) := by
  simp only [keys_eq_gather, (local_ownKey o).gather_assign]

theorem keys_unary (op : Operator) (operand : Expr) (trailing : Bool) :
    keys o (.expr (.unary s op operand trailing)) = keys o (.expr operand) := by
  rw [keys_eq_gather, keys_eq_gather, gather_eq, (local_ownKey o).silent _ rfl]
  simp [slots, exprSlots, gather_single, (local_ownKey o).ofExpr?]

theorem keys_newArray (elemType : String) (dims elements : List Expr) (isListed : Bool) :
    keys o (.expr (.newArray s elemType dims elements isListed)) =
      (dims.flatMap fun d => keys o (.expr d)) ++ elements.flatMap fun e => keys o (.expr e) := by
  simp only [keys_eq_gather]
  rw [gather_eq, (local_ownKey o).silent _ rfl]
  simp [slots, exprSlots, gather_listed, (local_ownKey o).ofExpr?]

theorem keys_newObject (className : String) (args : List Expr) :
    keys o (.expr (.newObject s className args)) = args.flatMap fun a => keys o (.expr a) := by
  simp only [keys_eq_gather]
  rw [gather_eq, (local_ownKey o).silent _ rfl]
  simp [slots, exprSlots, gather_listed, (local_ownKey o).ofExpr?]

theorem keys_switch (selector : Expr) (cases : List Case) (type : String) :
    keys o (.expr (.switch s selector cases type)) =
      keys o (.expr selector) ++ cases.flatMap fun a => keys o (.arm a) := by
  simp only [keys_eq_gather]
  rw [gather_eq, (local_ownKey o).silent _ rfl]
  simp [slots, exprSlots, gather_single, gather_listed, (local_ownKey o).ofExpr?]

end Keys

/-! ## Accounts -/

/-- Sites found, sites in new statements and sites that are still there make up all there were. -/
def Accounts (o : Options) (found : List (Span × Kind)) (new : List Stmt)
    (before after : List (Span × Kind)) : Prop :=
  (found ++ keysIn o new ++ after).Perm before

section Accounts

variable {o : Options} {found found' before before' after after' : List (Span × Kind)}
  {new new' : List Stmt}

theorem accounts_refl (o : Options) (l : List (Span × Kind)) : Accounts o [] [] l l :=
  .refl l

/-- Two parts of one expression. -/
theorem Accounts.append (h : Accounts o found new before after)
    (h' : Accounts o found' new' before' after') :
    Accounts o (found ++ found') (new ++ new') (before ++ before') (after ++ after') := by
  simp only [Accounts, keysIn, List.perm_iff_count, List.flatMap_append, List.count_append] at *
  intro key
  have := h key
  have := h' key
  omega

/-- One part after the other. -/
theorem Accounts.trans (h : Accounts o found new before after)
    (h' : Accounts o [] new' after after') : Accounts o found (new ++ new') before after' := by
  simp only [Accounts, keysIn, List.perm_iff_count, List.flatMap_append, List.count_append,
    List.nil_append] at *
  intro key
  have := h key
  have := h' key
  omega

/-- Sites beside the part that is hoisted from. -/
theorem Accounts.beside (l : List (Span × Kind)) (h : Accounts o found new before after) :
    Accounts o found new (l ++ before) (l ++ after) := by
  simpa using (accounts_refl o l).append h

theorem Accounts.nil_append (h : Accounts o found new before after) (l : List (Span × Kind)) :
    Accounts o found new (before ++ l) (after ++ l) := by
  simpa using h.append (accounts_refl o l)

/-- A site that is found beside those in its parts. -/
theorem Accounts.add (key : Span × Kind) (h : Accounts o found new before after) :
    Accounts o (found ++ [key]) new (key :: before) after := by
  simp only [Accounts, List.perm_iff_count, List.count_append, List.count_cons,
    List.count_nil] at *
  intro other
  have := h other
  omega

theorem accounts_var {s : Span} {name type : String} (e : Expr) :
    Accounts o [] [.var s name type e] (keys o (.expr e)) [] := by
  simp [Accounts, keysIn, keys_var]

/-! ## Single steps -/

variable {c : Setting} {ns : Names}

theorem accounts_settle (o : Options) (written : List String) (e : Expr) :
    Emits ns (settle written e) fun v new _ =>
      Accounts o [] new (keys o (.expr e)) (keys o (.expr v)) := by
  unfold settle
  split
  next => exact .pure (accounts_refl o _)
  next =>
    refine .spill ?_
    rw [keys_ident]
    exact accounts_var e

/-- What stands for a site has none in it, and its test has those of the receiver. -/
theorem accounts_guard (ho : o.Apart) {exit : Exit} {kind : Kind} {s : Span} {name type : String}
    {receiver original : Expr} (hkind : o.registry.resolve original = some kind) :
    Accounts o [] (guardStatements exit kind s name type receiver) (keys o (.expr receiver))
      [] := by
  obtain ⟨test, hguard, htest⟩ := dead_test ho hkind exit s name type receiver
  simp [Accounts, keysIn, hguard, keys_var, keys_eq_nil htest]

/-! ## Repeated targets -/

/-- What a settled operand is: nothing with a site in it, unless it is a function. -/
theorem emits_plain (written : List String) (e : Expr) :
    Emits ns (settle written e) fun v _ _ => isAtom v = true ∧ (isFunction v = true -> v = e) := by
  unfold settle
  split
  next h => exact .pure ⟨isAtom_of_stable h, fun _ => rfl⟩
  next => exact .spill ⟨rfl, by simp [isFunction]⟩

theorem keys_atom {e v : Expr} (hatom : isAtom v = true) (hfunction : isFunction v = true -> v = e)
    (h : isFunction e = true -> isLive o (.expr e) = false) : keys o (.expr v) = [] := by
  cases v with
  | lambda =>
      obtain rfl := hfunction rfl
      exact keys_eq_nil (h rfl)
  | ident => exact keys_ident ..
  | missing => exact keys_eq_nil (isLive_missing o)
  | literal =>
      rw [keys_eq_gather, gather_eq, (local_ownKey o).silent _ rfl]
      rfl
  | _ => cases hatom

/-- A target that is repeated has no site in it unless it was repeated with one. -/
theorem emits_bareTarget (o : Options) (t : Expr) : Emits ns (c.target t) fun v _ _ =>
    ∀ value, targetMoves c.written v value = true ->
      (∀ e ∈ repeated t, isLive o (.expr e) = false) -> keys o (.expr v) = [] := by
  cases t with
  | index s array position type =>
      refine .bind (emits_plain c.written array) fun a _ _ ha => ?_
      refine .bind (emits_plain c.written position) fun p _ _ hp => ?_
      refine .pure fun value _ h => ?_
      rw [keys_index, keys_atom ha.1 ha.2 fun hf => h array (by simp [repeated, hf]),
        keys_atom hp.1 hp.2 fun hf => h position (by simp [repeated, hf])]
      rfl
  | field s target name type =>
      refine .bind (emits_plain c.written target) fun t _ _ ht => ?_
      refine .pure fun value _ h => ?_
      rw [keys_field]
      exact keys_atom ht.1 ht.2 fun hf => h target (by simp [repeated, hf])
  | ident => exact .pure fun _ _ _ => keys_ident ..
  | lambda => exact .pure fun _ hmoves _ => by simp [targetMoves, isStable] at hmoves
  | _ => exact .pure fun _ _ h => keys_eq_nil (h _ (by simp [repeated]))

end Accounts

end EarlyExit.Expansion
