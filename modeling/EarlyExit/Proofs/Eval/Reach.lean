import EarlyExit.Proofs.Eval.Hidden

/-!
# What code can get hold of

The values that code in a scope reaches, through variables, arrays, the parts of values and
the scopes that closures were made in.  All that a run reads or changes is among them or
new, so a comparison of two stores has to look at nothing else.
-/

namespace EarlyExit

/-- A value without parts. -/
def Value.isPlain : Value -> Bool
  | .null | .bool _ | .int _ | .float _ | .str _ => true
  | _ => false

namespace Store

/-- The values that code in a scope can get hold of. -/
inductive Reaches (st : Store) (s : Nat) : Value -> Prop
  | bound {t : Nat} {x : String} {v : Value} (ht : t ∈ st.chain s)
      (hv : st.binding? t x = some v) : Reaches st s v
  | element {r : Nat} {v : Value} (h : Reaches st s (.array r)) (hv : v ∈ st.elems r) :
      Reaches st s v
  | argument {c : String} {args : List Value} {v : Value} (h : Reaches st s (.object c args))
      (hv : v ∈ args) : Reaches st s v
  | held {k : Kind} {alternate : Bool} {v : Value}
      (h : Reaches st s (.container k alternate v)) : Reaches st s v
  | captured {id : Nat} {ps : List Param} {body : Body} {o t : Nat} {x : String} {v : Value}
      (h : Reaches st s (.closure id ps body o)) (ht : t ∈ st.chain o)
      (hv : st.binding? t x = some v) : Reaches st s v

/-- A scope from which only arrays and scopes are reached that are there. -/
structure Sound (st : Store) (s : Nat) : Prop where
  here : s < st.scopes.size
  array : ∀ r, st.Reaches s (.array r) -> r < st.arrays.size
  closure : ∀ id ps body o, st.Reaches s (.closure id ps body o) -> o < st.scopes.size

/-- Stores that differ at most in the values that one scope binds some names to. -/
structure SameBut (home : Nat) (names : String -> Prop) (st st' : Store) : Prop where
  arrays : st'.arrays = st.arrays
  calls : st'.calls = st.calls
  closures : st'.closures = st.closures
  size : st'.scopes.size = st.scopes.size
  outer : ∀ s : Nat, st'.scopes[s]?.map Scope.outer = st.scopes[s]?.map Scope.outer
  binding : ∀ s x, (s = home -> ¬names x) -> st'.binding? s x = st.binding? s x

theorem SameBut.refl (home : Nat) (names : String -> Prop) (st : Store) :
    SameBut home names st st :=
  ⟨rfl, rfl, rfl, rfl, fun _ => rfl, fun _ _ _ => rfl⟩

theorem SameBut.imp {home : Nat} {names names' : String -> Prop} {st st' : Store}
    (h : SameBut home names st st') (hnames : ∀ x, names x -> names' x) :
    SameBut home names' st st' :=
  { h with binding := fun s x hx => h.binding s x fun hs hn => hx hs (hnames x hn) }

theorem sameBut_of_hide {home : Nat} {hidden : String -> Bool} {st st' : Store}
    (h : st'.hide home hidden = st.hide home hidden) :
    SameBut home (fun x => hidden x = true) st st' where
  arrays := congrArg (fun st => st.arrays) h
  calls := congrArg (fun st => st.calls) h
  closures := congrArg (fun st => st.closures) h
  size := by rw [← size_hide st', h, size_hide]
  outer s := by
    have hs := congrArg (fun st : Store => st.scopes[s]?.map Scope.outer) h
    simp only [scopes_hide] at hs
    split at hs
    · simpa [Option.map_map, Function.comp_def] using hs
    · exact hs
  binding s x hx := by
    have hx : s = home -> hidden x = false := fun hs => by simpa using hx hs
    rw [← binding?_hide hx st', h, binding?_hide hx]

/-- Names that are bound alike on both sides need not be left out. -/
theorem SameBut.strip {home : Nat} {names names' : String -> Prop} {st st' : Store}
    (h : SameBut home names st st')
    (hsame : ∀ x, names x -> ¬names' x -> st'.binding? home x = st.binding? home x) :
    SameBut home names' st st' :=
  { h with
    binding := fun s x hx => by
      by_cases hs : s = home
      · subst hs
        by_cases hn : names x
        · exact hsame x hn (hx rfl)
        · exact h.binding s x fun _ => hn
      · exact h.binding s x fun heq => absurd heq hs }

variable {st : Store} {s t u : Nat}

/-- From values without parts nothing else is reached. -/
theorem reaches_plain (h : ∀ t x v, st.binding? t x = some v -> v.isPlain = true) {v : Value}
    (hv : st.Reaches s v) : v.isPlain = true := by
  induction hv with
  | bound _ hv => exact h _ _ _ hv
  | element _ _ ih | argument _ _ ih | held _ ih => cases ih
  | captured _ _ hv => exact h _ _ _ hv

/-- A scope of a store of values without parts. -/
theorem sound_plain (hs : s < st.scopes.size)
    (h : ∀ t x v, st.binding? t x = some v -> v.isPlain = true) : st.Sound s where
  here := hs
  array r hr := by cases reaches_plain h hr
  closure id ps body o hreach := by cases reaches_plain h hreach

theorem mem_chain_trans (hu : u ∈ st.chain t) (ht : t ∈ st.chain s) : u ∈ st.chain s := by
  induction s using Nat.strongRecOn with
  | ind s ih =>
      cases hs : st.scopes[s]? with
      | none => simp [chain_none hs] at ht
      | some sc =>
          rw [chain_some hs] at ht
          rcases List.mem_cons.1 ht with rfl | ht
          · exact hu
          · rw [chain_some hs]
            split at ht
            next o ho =>
              split at ht
              next hlt =>
                simp only [if_pos hlt]
                exact List.mem_cons_of_mem _ (ih o hlt ht)
              next => cases ht
            next => cases ht

/-- A scope that code gets to from another one. -/
def Leads (st : Store) (s t : Nat) : Prop :=
  t ∈ st.chain s ∨ ∃ id ps body o, st.Reaches s (.closure id ps body o) ∧ t ∈ st.chain o

theorem Leads.chain (h : st.Leads s t) (hu : u ∈ st.chain t) : st.Leads s u := by
  rcases h with ht | ⟨id, ps, body, o, hreach, ht⟩
  · exact .inl (mem_chain_trans hu ht)
  · exact .inr ⟨id, ps, body, o, hreach, mem_chain_trans hu ht⟩

theorem Leads.lt (h : st.Leads s t) : t < st.scopes.size := by
  rcases h with ht | ⟨_, _, _, _, _, ht⟩ <;> exact lt_of_mem_chain ht

theorem Leads.reaches {x : String} {v : Value} (h : st.Leads s t)
    (hv : st.binding? t x = some v) : st.Reaches s v := by
  rcases h with ht | ⟨_, _, _, _, hreach, ht⟩
  · exact .bound ht hv
  · exact .captured hreach ht hv

open Classical in
/-- All that code in a scope can get hold of. -/
noncomputable def known (st : Store) (s : Nat) : Eval.Known where
  scopes t := if st.Leads s t then some (st.chain t) else none
  arrays r := st.Reaches s (.array r)

theorem known_scopes {l : List Nat} :
    (st.known s).scopes t = some l ↔ st.Leads s t ∧ st.chain t = l := by
  classical
  unfold known
  dsimp only
  split
  next h => simp [h]
  next h => simp [h]

end Store

namespace Eval

open Node Expansion

namespace View

variable {V : View} {st st' : Store}

/-- A lambda that was made inside some scopes and may be run in a comparison. -/
def Seals (V : View) (l : List Nat) (body : Body) : Prop :=
  ∀ n ∈ bodySlot .body body, Everywhere (fun c =>
    (∀ x, readName? c = some x -> V.home ∈ l -> V.hidden x = false) ∧
    ∀ x, writtenName? c = some x ->
      (V.home ∈ l -> V.hidden x = false) ∧ (V.Kin l -> ¬V.guarded x)) n.2

theorem here_known {t : Nat} : V.realm.Here (st.known V.home) t ↔ st.Leads V.home t := by
  constructor
  · rintro ⟨l, hl⟩
    exact (Store.known_scopes.1 hl).1
  · intro h
    exact ⟨_, Store.known_scopes.2 ⟨h, rfl⟩⟩

mutual

/-- Values that are reached may be come across. -/
theorem val_known (hsound : st.Sound V.home)
    (hclosures : ∀ id ps body o, st.Reaches V.home (.closure id ps body o) ->
      V.Seals (st.chain o) body) :
    (v : Value) -> st.Reaches V.home v -> V.realm.Val (st.known V.home) v
  | .array _, h => h
  | .closure id ps body o, h => by
      refine ⟨here_known.2 (.inr ⟨id, ps, body, o, h,
        Store.self_mem_chain (hsound.closure _ _ _ _ h)⟩), fun n hn => ?_⟩
      refine (hclosures id ps body o h n hn).imp fun c hc => ⟨fun x hx l hl => ?_, fun x hx l hl => ?_⟩
      · obtain ⟨_, rfl⟩ := Store.known_scopes.1 hl
        exact hc.1 x hx
      · obtain ⟨_, rfl⟩ := Store.known_scopes.1 hl
        exact hc.2 x hx
  | .object _ args, h => vals_known hsound hclosures args fun _ hv => .argument h hv
  | .container _ _ held, h => val_known hsound hclosures held (.held h)
  | .null, _ | .bool _, _ | .int _, _ | .float _, _ | .str _, _ => trivial

theorem vals_known (hsound : st.Sound V.home)
    (hclosures : ∀ id ps body o, st.Reaches V.home (.closure id ps body o) ->
      V.Seals (st.chain o) body) :
    (vs : List Value) -> (∀ v ∈ vs, st.Reaches V.home v) -> V.realm.Vals (st.known V.home) vs
  | [], _ => trivial
  | v :: rest, h =>
      ⟨val_known hsound hclosures v (h v (by simp)),
        vals_known hsound hclosures rest fun u hu => h u (by simp [hu])⟩

end

/-- Stores compare if they are the same but for what no code that is reached may mention. -/
theorem sees_known (hsound : st.Sound V.home)
    (hclosures : ∀ id ps body o, st.Reaches V.home (.closure id ps body o) ->
      V.Seals (st.chain o) body)
    (haround : st.chain V.home = V.around) (hkept : ∀ x, V.kept x -> st.get? V.home x = V.seen x)
    (halike : st'.hide V.home V.hidden = st.hide V.home V.hidden)
    (hheld : ∀ x, V.hidden x = true -> st'.binding? V.home x = V.held x) :
    V.Sees (st.known V.home) st st' where
  alike := halike
  held := hheld
  home := hsound.here
  around := haround
  kept := hkept
  scope s l hl := by
    obtain ⟨hleads, rfl⟩ := Store.known_scopes.1 hl
    exact ⟨hleads.lt, rfl, fun t ht => here_known.2 (hleads.chain ht)⟩
  binding s x v hs _ hv :=
    val_known hsound hclosures v ((here_known.1 hs).reaches hv)
  array r hr :=
    ⟨hsound.array r hr, fun v hv => val_known hsound hclosures v (.element hr hv)⟩

/-- All that is reached in a store that compares may be come across. -/
theorem Sees.reached {w : Known} (h : V.Sees w st st') (hhome : V.realm.Here w V.home)
    (hhidden : ∀ x v, V.hidden x = true -> st.binding? V.home x = some v -> V.realm.Val w v)
    {v : Value} (hv : st.Reaches V.home v) : V.realm.Val w v := by
  have hbound {t : Nat} {x : String} {v : Value} (ht : V.realm.Here w t)
      (hv : st.binding? t x = some v) : V.realm.Val w v := by
    by_cases heq : t = V.home ∧ V.hidden x = true
    · exact hhidden x v heq.2 (heq.1 ▸ hv)
    · exact h.binding t x v ht (fun hhome => by simpa [hhome] using heq) hv
  have hchain {s t : Nat} (hs : V.realm.Here w s) (ht : t ∈ st.chain s) : V.realm.Here w t := by
    obtain ⟨l, hl⟩ := hs
    obtain ⟨_, rfl, hmem⟩ := h.scope s l hl
    exact hmem t ht
  induction hv with
  | bound ht hv => exact hbound (hchain hhome ht) hv
  | element _ hv ih => exact (h.array _ ih).2 _ hv
  | argument _ hv ih => exact Realm.vals_iff.1 ih _ hv
  | held _ ih => exact ih
  | captured _ ht hv ih => exact hbound (hchain ih.1 ht) hv

/-- Closures that may be come across may be run. -/
theorem Sees.seals {w : Known} (h : V.Sees w st st') {id : Nat} {ps : List Param} {body : Body}
    {o : Nat} (hval : V.realm.Val w (.closure id ps body o)) : V.Seals (st.chain o) body := by
  obtain ⟨⟨l, hl⟩, hinside⟩ := hval
  obtain ⟨_, rfl, _⟩ := h.scope o l hl
  exact fun n hn => (hinside n hn).imp fun c hc =>
    ⟨fun x hx => hc.1 x hx _ hl, fun x hx => hc.2 x hx _ hl⟩

theorem home_known (hsound : st.Sound V.home) : V.realm.Here (st.known V.home) V.home :=
  here_known.2 (.inl (Store.self_mem_chain hsound.here))

/-! ## Code that may run -/

theorem readName_mem {n c : Node} {x : String} (hc : c ∈ n.nodes) (hx : readName? c = some x) :
    x ∈ usedNames n := by
  refine List.mem_filterMap.2 ⟨c, hc, ?_⟩
  cases c with
  | expr e => cases e <;> exact hx
  | _ => cases hx

theorem varName_mem {n c : Node} {x : String} (hc : c ∈ n.nodes) (hx : varName? c = some x) :
    x ∈ usedNames n := by
  refine List.mem_filterMap.2 ⟨c, hc, ?_⟩
  cases c with
  | stmt s => cases s <;> first | exact hx | cases hx
  | _ => cases hx

/-- A variable is written through an expression that names it. -/
theorem writtenName_mem {n c : Node} {x : String} (hc : c ∈ n.nodes)
    (hx : writtenName? c = some x) : x ∈ usedNames n := by
  obtain ⟨p, hp⟩ := mem_nodes.1 hc
  have hchild (slot : Slot) {span : Span} {t : String}
      (hget : c.get? slot = some (.expr (.ident span x t))) : x ∈ usedNames n := by
    refine readName_mem (c := .expr (.ident span x t)) ?_ rfl
    exact mem_nodes.2 ⟨p ++ [slot], by rw [at?_append, hp]; simp [Node.at?, hget]⟩
  cases c with
  | expr e =>
      cases e with
      | assign s target op value =>
          cases target <;> simp [writtenName?] at hx
          subst hx
          exact hchild .target rfl
      | unary s op operand trailing =>
          cases operand <;> simp [writtenName?] at hx
          obtain ⟨_, rfl⟩ := hx
          exact hchild .operand rfl
      | _ => cases hx
  | _ => cases hx

/-- Code that mentions nothing hidden and writes nothing watched may be evaluated. -/
theorem admits_everywhere {w : Known} {s : Nat} {n : Node}
    (hhidden : ∀ x ∈ usedNames n, V.hidden x = false)
    (hkept : ∀ c ∈ n.nodes, ∀ x, writtenName? c = some x -> V.kept x -> V.seen x = none)
    (hguarded : ∀ c ∈ n.nodes, ∀ span ps body, c = .expr (.lambda span ps body) ->
      ∀ d ∈ c.nodes, ∀ x, writtenName? d = some x -> ¬V.guarded x) :
    Everywhere (V.realm.Admits w s) n := by
  intro c hc
  refine ⟨fun x hx l _ _ => hhidden x (readName_mem hc hx), fun x hx l _ =>
    ⟨fun _ => hhidden x (writtenName_mem hc hx), fun _ => hkept c hc x hx⟩, ?_⟩
  rintro span ps body rfl n' hn' d hd
  have hd' : d ∈ (Node.expr (.lambda span ps body)).nodes := by
    rw [nodes_eq]
    refine List.mem_cons_of_mem _ (List.mem_flatMap.2 ⟨n', ?_, hd⟩)
    exact List.mem_append_right _ hn'
  have hdn : d ∈ n.nodes := by
    obtain ⟨p, hp⟩ := mem_nodes.1 hc
    obtain ⟨q, hq⟩ := mem_nodes.1 hd'
    exact mem_nodes.2 ⟨p ++ q, by rw [at?_append, hp]; exact hq⟩
  exact ⟨fun x hx l _ _ => hhidden x (readName_mem hdn hx), fun x hx l _ =>
    ⟨fun _ => hhidden x (writtenName_mem hdn hx), fun _ =>
      hguarded _ hc span ps body rfl d hd' x hx⟩⟩

/-- Code that mentions nothing hidden may run where nothing is guarded. -/
theorem runs_unguarded {w : Known} {s : Nat} {n : Node} (hguarded : ∀ x, ¬V.guarded x)
    (hhidden : ∀ x ∈ usedNames n, V.hidden x = false) : Everywhere (V.realm.Runs w s) n := by
  have hkept : ∀ x, ¬V.kept x := fun x hx => hguarded x (V.kept_guarded x hx)
  have hadmits := admits_everywhere (w := w) (s := s) hhidden
    (fun _ _ x _ hx => absurd hx (hkept x)) fun _ _ _ _ _ _ _ _ x _ => hguarded x
  exact fun c hc => ⟨hadmits c hc, fun x hx =>
    ⟨fun _ => hhidden x (varName_mem hc hx), fun _ => hkept x⟩⟩

end View

end Eval

end EarlyExit
