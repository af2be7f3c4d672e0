import EarlyExit.Proofs.Document.Complete

/-!
# What documents keep

The nodes of a document are found by their places: the fields their parents' kinds use, with
a number where the field is a list.  Of a document that is read, the document written of its
unit has a node of the same kind at every place, as long as the nodes that run at the end of
a `try` are blocks.  Such a node is the only one whose kind is not looked at: whatever it
was, a block is written for it, with the statements of its `body`.
-/

namespace EarlyExit.Document

open Data Node

/-! ## Places -/

/-- Where a node stands in the map of another one; null entries of lists are not counted. -/
inductive Place
  | field (key : String)
  | item (key : String) (i : Nat)
  | inner (key : String) (i : Nat) (part : String) (j : Nat)
deriving DecidableEq, Repr

def Place.cleanup : Place := .field "finally"

/-- How a node holds other ones: in a field, in a list, in the lists of a list of maps. -/
inductive Holding
  | one (key : String)
  | cleanup
  | many (key : String)
  | inner (key part : String)

def kindOf (d : Data) : String :=
  textField d "kind"

/-- The fields that the kind of a node uses for other nodes. -/
def holdings (d : Data) : List Holding :=
  match kindOf d with
  | "block" => [.many "body"]
  | "expr" | "var" | "return" | "throw" | "yield" => [.one "expr"]
  | "if" | "cond" => [.one "cond", .one "then", .one "else"]
  | "for" => [.many "init", .one "cond", .many "update", .one "stmt"]
  | "foreach" => [.one "expr", .one "stmt"]
  | "while" | "do" => [.one "cond", .one "stmt"]
  | "switch" | "switchexpr" => [.one "selector", .inner "cases" "labels", .inner "cases" "body"]
  | "try" => [.many "resources", .many "body", .inner "catches" "body", .cleanup]
  | "sync" => [.one "expr", .many "body"]
  | "labeled" => [.one "stmt"]
  | "assert" => [.one "cond", .one "message"]
  | "call" => [.one "recv", .many "args"]
  | "field" => [.one "target"]
  | "assign" => [.one "target", .one "expr"]
  | "binary" => [.one "left", .one "right"]
  | "unary" => [.one "operand"]
  | "index" => [.one "array", .one "index"]
  | "newarray" => [.many "dims", .many "elements"]
  | "new" => [.many "args"]
  | "lambda" => if (d.field? "expr").isSome then [.one "expr"] else [.many "body"]
  | "template" => [.many "values"]
  | _ => []

def numbered (place : Nat -> Place) : Nat -> List Data -> List (Place × Data)
  | _, [] => []
  | i, x :: rest => (place i, x) :: numbered place (i + 1) rest

/-- The nodes in one part of each map of a list. -/
def innerNodes (key part : String) : Nat -> List Data -> List (Place × Data)
  | _, [] => []
  | i, c :: rest =>
      numbered (.inner key i part) 0 (c.entriesOf part) ++ innerNodes key part (i + 1) rest

def Holding.nodes (d : Data) : Holding -> List (Place × Data)
  | .one key => (d.field? key).toList.map (Place.field key, ·)
  | .cleanup => (d.field? "finally").toList.map (Place.cleanup, ·)
  | .many key => numbered (.item key) 0 (d.entriesOf key)
  | .inner key part => innerNodes key part 0 (d.entriesOf key)

def nodesOf (d : Data) : List (Place × Data) :=
  (holdings d).flatMap (·.nodes d)

/-- The node below another one at the end of a list of places. -/
def nodeAt? : List Place -> Data -> Option Data
  | [], d => some d
  | p :: ps, d => ((nodesOf d).lookup p).bind (nodeAt? ps)

def statementsOf (d : Data) : List (Place × Data) :=
  (Holding.inner "methods" "body").nodes ((d.field? "unit").getD .null)

/-- The node of a document at the end of a list of places. -/
def documentNode? : List Place -> Data -> Option Data
  | [], _ => none
  | p :: ps, d => ((statementsOf d).lookup p).bind (nodeAt? ps)

/-- On the way along the places, what runs at the end of a `try` is a block. -/
def EndsInBlocks (node? : List Place -> Option Data) (ps : List Place) : Prop :=
  ∀ qs x, qs ++ [.cleanup] <+: ps -> node? (qs ++ [.cleanup]) = some x -> kindOf x = "block"

/-! ## Copies -/

/-- Every node is copied, up to blocks at the end of a `try`. -/
def Retained (d d' : Data) : Prop :=
  ∀ ps x, nodeAt? ps d = some x -> EndsInBlocks (nodeAt? · d) ps ->
    ∃ x', nodeAt? ps d' = some x' ∧ kindOf x' = kindOf x

/-- Whatever runs at the end of a `try` is a block. -/
def BlocksOnly (d : Data) : Prop :=
  ∀ ps x, nodeAt? (ps ++ [.cleanup]) d = some x -> kindOf x = "block"

/-- The second map is written for what was read of the first. -/
structure Copied (d d' : Data) : Prop where
  filled : d'.isNull = false
  blocks : BlocksOnly d'
  retained : Retained d d'

/-- The same at the end of a `try`, where a block is written for a node of any kind. -/
structure CopiedBlock (d d' : Data) : Prop where
  filled : d'.isNull = false
  block : kindOf d' = "block"
  blocks : BlocksOnly d'
  retained : kindOf d = "block" -> Retained d d'

def CopiedAt (p : Place) (d d' : Data) : Prop :=
  BlocksOnly d' ∧ (p = .cleanup -> kindOf d' = "block") ∧
    ((p = .cleanup -> kindOf d = "block") -> Retained d d')

theorem Copied.at {p : Place} {d d' : Data} (h : Copied d d') (hp : p ≠ .cleanup) :
    CopiedAt p d d' :=
  ⟨h.blocks, fun hp' => absurd hp' hp, fun _ => h.retained⟩

/-- The nodes in one field are copied in their order. -/
def Holding.Copies (d d' : Data) : Holding -> Prop
  | .one key => Option.Rel Copied (d.field? key) (d'.field? key)
  | .cleanup => Option.Rel CopiedBlock (d.field? "finally") (d'.field? "finally")
  | .many key => List.Forall₂ Copied (d.entriesOf key) (d'.entriesOf key)
  | .inner key part => List.Forall₂ (fun c c' => List.Forall₂ Copied (c.entriesOf part)
      (c'.entriesOf part)) (d.entriesOf key) (d'.entriesOf key)

/-- Nodes that stand at the same places in two lists, with their copies. -/
abbrev CopiedInOrder : List (Place × Data) -> List (Place × Data) -> Prop :=
  List.Forall₂ fun x y => x.1 = y.1 ∧ CopiedAt x.1 x.2 y.2

theorem numbered_copied {place : Nat -> Place} (hplace : ∀ i, place i ≠ .cleanup)
    {xs ys : List Data} (h : List.Forall₂ Copied xs ys) (i : Nat) :
    CopiedInOrder (numbered place i xs) (numbered place i ys) := by
  induction h generalizing i with
  | nil => exact .nil
  | cons hx _ ih => exact .cons ⟨rfl, hx.at (hplace i)⟩ (ih (i + 1))

theorem innerNodes_copied {key part : String} {cs cs' : List Data}
    (h : List.Forall₂ (fun c c' => List.Forall₂ Copied (c.entriesOf part) (c'.entriesOf part))
      cs cs') (i : Nat) : CopiedInOrder (innerNodes key part i cs) (innerNodes key part i cs') := by
  induction h generalizing i with
  | nil => exact .nil
  | cons hc _ ih =>
      exact List.rel_append (numbered_copied (fun j => by simp [Place.cleanup]) hc 0) (ih (i + 1))

theorem Holding.Copies.nodes {g : Holding} {d d' : Data} (h : g.Copies d d')
    (hkey : g ≠ .one "finally") : CopiedInOrder (g.nodes d) (g.nodes d') := by
  cases g with
  | one key =>
      have hplace : Place.field key ≠ .cleanup := by
        intro heq
        cases heq
        exact hkey rfl
      simp only [Holding.Copies] at h
      simp only [Holding.nodes]
      generalize d.field? key = x, d'.field? key = x' at h
      cases h with
      | none => exact .nil
      | some hx => exact .cons ⟨rfl, hx.at hplace⟩ .nil
  | cleanup =>
      simp only [Holding.Copies] at h
      simp only [Holding.nodes]
      generalize d.field? "finally" = x, d'.field? "finally" = x' at h
      cases h with
      | none => exact .nil
      | some hx =>
          exact .cons ⟨rfl, hx.blocks, fun _ => hx.block, fun hp => hx.retained (hp rfl)⟩ .nil
  | many key => exact numbered_copied (fun j => by simp [Place.cleanup]) h 0
  | inner key part => exact innerNodes_copied h 0

/-- At a place stand a node and its copy, or nothing on both sides. -/
theorem CopiedInOrder.lookup {l m : List (Place × Data)} (h : CopiedInOrder l m) (p : Place) :
    Option.Rel (CopiedAt p) (l.lookup p) (m.lookup p) := by
  induction h with
  | nil => exact .none
  | @cons x y l m hxy _ ih =>
      obtain ⟨q, x⟩ := x
      obtain ⟨q', y⟩ := y
      obtain ⟨rfl, hcopied⟩ := hxy
      rw [List.lookup_cons, List.lookup_cons]
      by_cases hq : p = q
      · subst hq
        rw [beq_self_eq_true]
        exact .some hcopied
      · rw [beq_false_of_ne hq]
        exact ih

/-- What ends in blocks below a node does so from the node on. -/
theorem EndsInBlocks.below {l : List (Place × Data)} {p : Place} {ps : List Place} {x : Data}
    (hx : l.lookup p = some x) {node? : List Place -> Option Data}
    (hnode : ∀ qs, node? (p :: qs) = (l.lookup p).bind (nodeAt? qs))
    (h : EndsInBlocks node? (p :: ps)) :
    (p = .cleanup -> kindOf x = "block") ∧ EndsInBlocks (nodeAt? · x) ps := by
  constructor
  · rintro rfl
    exact h [] x (by simp) (by rw [List.nil_append, hnode, hx]; rfl)
  · intro qs y hprefix hy
    refine h (p :: qs) y (by simpa using hprefix) ?_
    rw [List.cons_append, hnode, hx]
    exact hy

/-- What is below two lists of nodes, one copied from the other. -/
theorem CopiedInOrder.below {l m : List (Place × Data)} (h : CopiedInOrder l m) :
    (∀ p ps x', (m.lookup p).bind (nodeAt? ps) = some x' -> (p :: ps).getLast? = some .cleanup ->
      kindOf x' = "block") ∧
    ∀ node? p ps x, (∀ qs, node? (p :: qs) = (l.lookup p).bind (nodeAt? qs)) ->
      (l.lookup p).bind (nodeAt? ps) = some x -> EndsInBlocks node? (p :: ps) ->
      ∃ x', (m.lookup p).bind (nodeAt? ps) = some x' ∧ kindOf x' = kindOf x := by
  constructor
  · intro p ps x' hx' hlast
    have hrel := h.lookup p
    cases hl : l.lookup p with
    | none =>
        rw [hl] at hrel
        cases hm : m.lookup p with
        | none => simp [hm] at hx'
        | some y => rw [hm] at hrel; cases hrel
    | some x =>
        cases hm : m.lookup p with
        | none => simp [hm] at hx'
        | some y =>
            rw [hl, hm] at hrel
            cases hrel with
            | some hcopied =>
                rw [hm, Option.bind_some] at hx'
                rcases List.eq_nil_or_concat ps with rfl | ⟨qs, q, rfl⟩
                · cases hx'
                  exact hcopied.2.1 (by simpa using hlast)
                · obtain rfl : q = .cleanup := by simpa [List.getLast?_cons] using hlast
                  exact hcopied.1 qs x' (by simpa using hx')
  · intro node? p ps x hnode hx hends
    have hrel := h.lookup p
    obtain ⟨y, hl, hy⟩ := Option.bind_eq_some_iff.1 hx
    obtain ⟨hblock, hends⟩ := hends.below hl hnode
    rw [hl] at hrel
    cases hm : m.lookup p with
    | none => rw [hm] at hrel; cases hrel
    | some y' =>
        rw [hm] at hrel
        cases hrel with
        | some hcopied =>
            obtain ⟨x', hx', hkind⟩ := hcopied.2.2 hblock ps x hy hends
            exact ⟨x', hx', hkind⟩

theorem ne_of_mem_holdings {d : Data} {g : Holding} (h : g ∈ holdings d) : g ≠ .one "finally" := by
  rintro rfl
  unfold holdings at h
  split at h
  all_goals first
    | simp at h
    | split at h <;> simp at h

/-- A node is copied if its fields are. -/
theorem copied_of_holdings {d d' : Data} (hfilled : d'.isNull = false)
    (hkind : kindOf d' = kindOf d) (hholdings : holdings d' = holdings d)
    (h : ∀ g ∈ holdings d, g.Copies d d') : Copied d d' := by
  have horder : CopiedInOrder (nodesOf d) (nodesOf d') := by
    rw [nodesOf, nodesOf, hholdings]
    have hall : ∀ g ∈ holdings d, CopiedInOrder (g.nodes d) (g.nodes d') :=
      fun g hg => (h g hg).nodes (ne_of_mem_holdings hg)
    generalize holdings d = gs at hall
    induction gs with
    | nil => exact .nil
    | cons g gs ih =>
        rw [List.flatMap_cons, List.flatMap_cons]
        rw [List.forall_mem_cons] at hall
        exact List.rel_append hall.1 (ih hall.2)
  refine ⟨hfilled, fun ps x' hx' => ?_, fun ps x hx hends => ?_⟩
  · cases hps : ps ++ [Place.cleanup] with
    | nil => simp at hps
    | cons p qs =>
        rw [hps] at hx'
        exact horder.below.1 p qs x' hx' (by rw [← hps]; simp)
  · cases ps with
    | nil =>
        cases hx
        exact ⟨d', rfl, hkind⟩
    | cons p ps => exact horder.below.2 _ p ps x (fun _ => rfl) hx hends

/-! ## Copies part by part -/

def Holding.key : Holding -> String
  | .one key | .many key | .inner key _ => key
  | .cleanup => "finally"

theorem Holding.Copies.of_lookup {g : Holding} {d : Data} {es fs : Fields}
    (h : g.Copies d (.map es)) (hsame : fs.lookup g.key = es.lookup g.key) :
    g.Copies d (.map fs) := by
  have hfield : (Data.map fs).field? g.key = (Data.map es).field? g.key := by
    rw [field?_map, field?_map, hsame]
  cases g <;>
    · simp only [Holding.Copies, entriesOf, itemsOf, Holding.key] at h hfield ⊢
      rwa [hfield]

/-- Fields under one key, written as copies of the nodes that a map holds there. -/
structure Part (d : Data) (key : String) (gs : List Holding) (es : Fields) : Prop where
  copies : ∀ g ∈ gs, g.key = key ∧ g.Copies d (.map es)
  other : ∀ k, k ≠ key -> es.lookup k = none

/-- Fields under some keys, written for a node of some kind. -/
structure Written (k : String) (d : Data) (keys : List String) (gs : List Holding)
    (es : Fields) : Prop where
  kind : kindOf d = k
  kind_written : es.lookup "kind" = some (.str k)
  copies : ∀ g ∈ gs, g.key ∈ keys ∧ g.Copies d (.map es)
  other : ∀ key, key ∉ keys -> es.lookup key = none

variable {k key : String} {d : Data} {keys : List String} {gs hs : List Holding}
  {es fs : Fields}

theorem written_kind (hkind : kindOf d = k) (s : Span) :
    Written k d ["kind", "line", "col"] [] (kind k s) where
  kind := hkind
  kind_written := by simp
  copies := by simp
  other key hkey := by
    simp only [List.mem_cons, List.not_mem_nil, or_false, not_or] at hkey
    simp [hkey.1, hkey.2.1, hkey.2.2]

/-- What is added under a new key hides nothing, and nothing hides it. -/
theorem Written.add (h : Written k d keys gs es) (hpart : Part d key hs fs) (hkey : key ∉ keys) :
    Written k d (key :: keys) (gs ++ hs) (es ++ fs) where
  kind := h.kind
  kind_written := by rw [List.lookup_append, h.kind_written, Option.some_or]
  copies g hg := by
    rcases List.mem_append.1 hg with hg | hg
    · obtain ⟨hmem, hcopies⟩ := h.copies g hg
      have hne : g.key ≠ key := fun heq => hkey (heq ▸ hmem)
      refine ⟨List.mem_cons_of_mem _ hmem, hcopies.of_lookup ?_⟩
      rw [List.lookup_append, hpart.other _ hne, Option.or_none]
    · obtain ⟨heq, hcopies⟩ := hpart.copies g hg
      refine ⟨heq ▸ List.mem_cons_self, hcopies.of_lookup ?_⟩
      rw [List.lookup_append, h.other _ (heq ▸ hkey), Option.none_or]
  other key' hkey' := by
    obtain ⟨hne, hmem⟩ := not_or.1 (List.mem_cons.not.1 hkey')
    rw [List.lookup_append, h.other _ hmem, hpart.other _ hne, Option.none_or]

theorem Written.kindOf_eq (h : Written k d keys gs es) : kindOf (.map es) = k := by
  simp [kindOf, h.kind_written]

/-- A node is copied if all its parts are written. -/
theorem Written.copied_of_eq (h : Written k d keys gs es)
    (hholdings : holdings (.map es) = holdings d) (hgs : ∀ g ∈ holdings d, g ∈ gs) :
    Copied d (.map es) :=
  copied_of_holdings rfl (h.kindOf_eq.trans h.kind.symm) hholdings
    fun g hg => (h.copies g (hgs g hg)).2

theorem Written.copied {l : List Holding} (h : Written k d keys gs es)
    (hl : ∀ x, kindOf x = k -> holdings x = l) (hgs : ∀ g ∈ l, g ∈ gs) : Copied d (.map es) :=
  h.copied_of_eq ((hl _ h.kindOf_eq).trans (hl _ h.kind).symm) (hl _ h.kind ▸ hgs)

theorem part_text (key v : String) : Part d key [] (text key v) :=
  ⟨by simp, fun k hk => by simp [hk]⟩

theorem part_flag (key : String) (b : Bool) : Part d key [] (flag key b) :=
  ⟨by simp, fun k hk => by simp [hk]⟩

theorem part_items (key : String) (xs : List Data) : Part d key [] (items key xs) :=
  ⟨by simp, fun k hk => by simp [hk]⟩

theorem part_literal (value : Literal) : Part d "value" [] (literalField value) :=
  ⟨by simp, fun k hk => by cases value <;> simp [literalField, lookup_one, hk]⟩

theorem part_node {x x' : Data} (hx : d.field? key = some x) (h : Copied x x') :
    Part d key [.one key] (node key x') :=
  ⟨by simp [Holding.Copies, Holding.key, hx, Option.filter_some, h.filled, h],
    fun k hk => by simp [hk]⟩

theorem part_none (h : d.field? key = none) : Part d key [.one key] [] :=
  ⟨by simp [Holding.Copies, Holding.key, h], fun _ _ => rfl⟩

theorem part_cleanup {x x' : Data} (hx : d.field? "finally" = some x) (h : CopiedBlock x x') :
    Part d "finally" [.cleanup] (node "finally" x') :=
  ⟨by simp [Holding.Copies, Holding.key, hx, Option.filter_some, h.filled, h],
    fun k hk => by simp [hk]⟩

theorem part_no_cleanup (h : d.field? "finally" = none) : Part d "finally" [.cleanup] [] :=
  ⟨by simp [Holding.Copies, Holding.key, h], fun _ _ => rfl⟩

theorem entriesOf_items (key : String) (xs : List Data) :
    entriesOf (.map (items key xs)) key = xs.filter fun x => !x.isNull := by
  by_cases hxs : xs = [] <;> simp [entriesOf, hxs, Data.items]

/-- The entries of a written list are none of them null. -/
theorem filter_copied {xs ys : List Data} (h : List.Forall₂ Copied xs ys) :
    ys.filter (fun y => !y.isNull) = ys := by
  rw [List.filter_eq_self]
  exact forall_of_forall₂ h fun _ _ y hy => by simp [hy.filled]

theorem part_list {xs : List Data} (h : List.Forall₂ Copied (d.entriesOf key) xs) :
    Part d key [.many key] (items key xs) where
  copies g hg := by
    obtain rfl := List.mem_singleton.1 hg
    refine ⟨rfl, ?_⟩
    rw [Holding.Copies, entriesOf_items, filter_copied h]
    exact h
  other k hk := by simp [hk]

def CopiedLists (parts : List String) (c c' : Data) : Prop :=
  c'.isNull = false ∧
    ∀ part ∈ parts, List.Forall₂ Copied (c.entriesOf part) (c'.entriesOf part)

theorem filter_lists {parts : List String} {cs cs' : List Data}
    (h : List.Forall₂ (CopiedLists parts) cs cs') : cs'.filter (fun c => !c.isNull) = cs' := by
  rw [List.filter_eq_self]
  exact forall_of_forall₂ h fun _ _ c hc => by simp [hc.1]

theorem part_lists {parts : List String} {cs : List Data}
    (h : List.Forall₂ (CopiedLists parts) (d.entriesOf key) cs) :
    Part d key (parts.map (Holding.inner key)) (items key cs) where
  copies g hg := by
    obtain ⟨part, hpart, rfl⟩ := List.mem_map.1 hg
    refine ⟨rfl, ?_⟩
    rw [Holding.Copies, entriesOf_items, filter_lists h]
    exact h.imp fun _ _ hc => hc.2 part hpart
  other k hk := by simp [hk]

/-! ## What is written for what was read -/

section Parts

variable {file : String} {d : Data} {key : String}

/-- What is read of data is written as a copy of it. -/
def Copies (file : String) (d : Data) : Prop :=
  (∀ e, readExpr file d = ⟨e, []⟩ -> ∃ d', writeExpr e = .ok d' ∧ Copied d d') ∧
    ∀ s, readStmt file d = ⟨s, []⟩ -> ∃ d', writeStmt s = .ok d' ∧ Copied d d'

/-- The members of a list are written one by one. -/
theorem written_forall₂ {α : Type} {w : List α -> Writing (List Data)} {R S : Data -> α -> Prop}
    {T : Data -> Data -> Prop} {xs : List Data} {l : List α} (h : List.Forall₂ R xs l)
    (hnil : w [] = .ok [])
    (hcons : ∀ x' a l xs', S x' a -> w l = .ok xs' -> w (a :: l) = .ok (x' :: xs'))
    (hone : ∀ x ∈ xs, ∀ a, R x a -> ∃ x', S x' a ∧ T x x') :
    ∃ xs', w l = .ok xs' ∧ List.Forall₂ T xs xs' := by
  induction h with
  | nil => exact ⟨[], hnil, .nil⟩
  | cons hx _ ih =>
      rw [List.forall_mem_cons] at hone
      obtain ⟨x', hx', hT⟩ := hone.1 _ hx
      obtain ⟨xs', hxs', hall⟩ := ih hone.2
      exact ⟨x' :: xs', hcons _ _ _ _ hx' hxs', .cons hT hall⟩

section Step

variable (ih : ∀ x, sizeOf x < sizeOf d -> Copies file x)

include ih

theorem GivesExpr.part {e : Expr} (h : GivesExpr file d key e) :
    ∃ x', writeExpr e = .ok x' ∧ Part d key [.one key] (node key x') := by
  obtain ⟨x, hx, hread⟩ := h
  obtain ⟨x', hwrite, hcopied⟩ := (ih x (sizeOf_field? hx)).1 e hread
  exact ⟨x', hwrite, part_node hx hcopied⟩

theorem GivesStmt.part {s : Stmt} (h : GivesStmt file d key s) :
    ∃ x', writeStmt s = .ok x' ∧ Part d key [.one key] (node key x') := by
  obtain ⟨x, hx, hread⟩ := h
  obtain ⟨x', hwrite, hcopied⟩ := (ih x (sizeOf_field? hx)).2 s hread
  exact ⟨x', hwrite, part_node hx hcopied⟩

theorem MayGiveExpr.part {e : Expr} (h : MayGiveExpr file d key e) :
    ∃ piece, unlessMissing e.isMissing key (writeExpr e) = .ok piece ∧
      Part d key [.one key] piece := by
  rcases h with ⟨hnone, rfl⟩ | h
  · exact ⟨[], rfl, part_none hnone⟩
  · obtain ⟨x', hwrite, hpart⟩ := h.part ih
    obtain ⟨_, _, hread⟩ := h
    have hfilled := ((hasForm file _).1 e hread).filled
    exact ⟨node key x', by simp [unlessMissing, hfilled, hwrite], hpart⟩

theorem MayGiveStmt.part {s : Stmt} (h : MayGiveStmt file d key s) :
    ∃ piece, unlessMissing s.isMissing key (writeStmt s) = .ok piece ∧
      Part d key [.one key] piece := by
  rcases h with ⟨hnone, rfl⟩ | h
  · exact ⟨[], rfl, part_none hnone⟩
  · obtain ⟨x', hwrite, hpart⟩ := h.part ih
    obtain ⟨_, _, hread⟩ := h
    have hfilled := ((hasForm file _).2 s hread).filled
    exact ⟨node key x', by simp [unlessMissing, hfilled, hwrite], hpart⟩

theorem GivesExprs.copied {l : List Expr} (h : GivesExprs file d key l) :
    ∃ xs, writeExprs l = .ok xs ∧ List.Forall₂ Copied (d.entriesOf key) xs :=
  written_forall₂ h rfl (fun x' e l xs hx' hxs => by simp [writeExprs, hx', hxs])
    fun x hx e hread => (ih x (sizeOf_mem_entriesOf hx)).1 e hread

theorem GivesStmts.copied {l : List Stmt} (h : GivesStmts file d key l) :
    ∃ xs, writeStmts l = .ok xs ∧ List.Forall₂ Copied (d.entriesOf key) xs :=
  written_forall₂ h rfl (fun x' s l xs hx' hxs => by simp [writeStmts, hx', hxs])
    fun x hx s hread => (ih x (sizeOf_mem_entriesOf hx)).2 s hread

theorem GivesExprs.part {l : List Expr} (h : GivesExprs file d key l) :
    ∃ xs, writeExprs l = .ok xs ∧ Part d key [.many key] (items key xs) := by
  obtain ⟨xs, hwrite, hcopied⟩ := h.copied ih
  exact ⟨xs, hwrite, part_list hcopied⟩

theorem GivesStmts.part {l : List Stmt} (h : GivesStmts file d key l) :
    ∃ xs, writeStmts l = .ok xs ∧ Part d key [.many key] (items key xs) := by
  obtain ⟨xs, hwrite, hcopied⟩ := h.copied ih
  exact ⟨xs, hwrite, part_list hcopied⟩

theorem GivesCases.copied {l : List Case} (h : GivesCases file d l) :
    ∃ xs, writeCases l = .ok xs ∧
      List.Forall₂ (CopiedLists ["labels", "body"]) (d.entriesOf "cases") xs := by
  refine written_forall₂ (S := fun x' c => ∀ rest xs, writeCases rest = .ok xs ->
    writeCases (c :: rest) = .ok (x' :: xs)) h rfl
    (fun x' c l xs hx' hxs => hx' l xs hxs) fun x hx c hform => ?_
  obtain ⟨labels, body, hlabels, hbody, rfl⟩ := hform
  have ih : ∀ y, sizeOf y < sizeOf x -> Copies file y :=
    fun y hy => ih y (hy.trans (sizeOf_mem_entriesOf hx))
  obtain ⟨xs, hxs, hlabels⟩ := hlabels.copied ih
  obtain ⟨ys, hys, hbody⟩ := hbody.copied ih
  refine ⟨.map (place (spanOf file x) ++ (items "labels" xs ++
    flag "arrow" (flagField x "arrow") ++ items "body" ys)), ?_, rfl, ?_⟩
  · intro rest zs hzs
    simp [writeCases, hxs, hys, hzs]
  · simpa [entriesOf, List.lookup_append, filter_copied hlabels, filter_copied hbody]
      using ⟨hlabels, hbody⟩

theorem GivesCases.part {l : List Case} (h : GivesCases file d l) :
    ∃ xs, writeCases l = .ok xs ∧
      Part d "cases" [.inner "cases" "labels", .inner "cases" "body"] (items "cases" xs) := by
  obtain ⟨xs, hwrite, hcopied⟩ := h.copied ih
  exact ⟨xs, hwrite, part_lists hcopied⟩

theorem GivesCatches.copied {l : List Catch} (h : GivesCatches file d l) :
    ∃ xs, writeCatches l = .ok xs ∧
      List.Forall₂ (CopiedLists ["body"]) (d.entriesOf "catches") xs := by
  refine written_forall₂ (S := fun x' c => ∀ rest xs, writeCatches rest = .ok xs ->
    writeCatches (c :: rest) = .ok (x' :: xs)) h rfl
    (fun x' c l xs hx' hxs => hx' l xs hxs) fun x hx c hform => ?_
  obtain ⟨body, hbody, rfl⟩ := hform
  obtain ⟨xs, hxs, hbody⟩ :=
    hbody.copied fun y hy => ih y (hy.trans (sizeOf_mem_entriesOf hx))
  generalize (x.field? "param").map readParam = param
  cases param with
  | none =>
      refine ⟨.map (place (spanOf file x) ++ node "body" (.list xs)), ?_, rfl, ?_⟩
      · intro rest zs hzs
        simp [writeCatches, hxs, hzs]
      · simpa [entriesOf, List.lookup_append, Data.items, filter_copied hbody] using hbody
  | some p =>
      refine ⟨.map (place (spanOf file x) ++ (node "param" (paramData p) ++
        node "body" (.list xs))), ?_, rfl, ?_⟩
      · intro rest zs hzs
        simp [writeCatches, hxs, hzs]
      · simpa [entriesOf, List.lookup_append, Data.items, filter_copied hbody] using hbody

theorem GivesCatches.part {l : List Catch} (h : GivesCatches file d l) :
    ∃ xs, writeCatches l = .ok xs ∧
      Part d "catches" [.inner "catches" "body"] (items "catches" xs) := by
  obtain ⟨xs, hwrite, hcopied⟩ := h.copied ih
  exact ⟨xs, hwrite, part_lists hcopied⟩

/-- For whatever runs at the end of a `try` a block is written. -/
theorem GivesCleanup.part {cleanup : Option Block} (h : GivesCleanup file d cleanup) :
    (cleanup = none ∧ Part d "finally" [.cleanup] []) ∨
      ∃ s l xs, cleanup = some (.mk s l) ∧ writeStmts l = .ok xs ∧
        Part d "finally" [.cleanup]
          (node "finally" (.map (kind "block" s ++ items "body" xs))) := by
  rcases h with ⟨hnone, rfl⟩ | ⟨x, l, hx, hbody, rfl⟩
  · exact .inl ⟨rfl, part_no_cleanup hnone⟩
  · obtain ⟨xs, hxs, hbody⟩ := hbody.copied fun y hy => ih y (hy.trans (sizeOf_field? hx))
    -- A block with the same body has the same copy, whatever the kind of the node is.
    have hcopied (y : Data) (hkind : kindOf y = "block")
        (hentries : y.entriesOf "body" = x.entriesOf "body") :
        Copied y (.map (kind "block" (spanOf file x) ++ items "body" xs)) :=
      ((written_kind hkind _).add (part_list (hentries ▸ hbody)) (by simp)).copied
        (l := [.many "body"]) (fun z hz => by simp [holdings, hz]) (by simp)
    have hblocks := (hcopied (.map [("kind", .str "block"), ("body", .list (x.entriesOf "body"))])
      (by simp [kindOf]) (by simp [entriesOf, lookup_one, Data.items])).blocks
    have hblock : CopiedBlock x (.map (kind "block" (spanOf file x) ++ items "body" xs)) :=
      ⟨rfl, textField_kind .., hblocks, fun hkind => (hcopied x hkind rfl).retained⟩
    exact .inr ⟨_, l, xs, rfl, hxs, part_cleanup hx hblock⟩

/-! ### Nodes -/

theorem ExprForm.copied {e : Expr} (h : ExprForm file d e) :
    ∃ d', writeExpr e = .ok d' ∧ Copied d d' := by
  cases h with
  | ident hkind =>
      refine ⟨_, by simp only [writeExpr]; rfl, ?_⟩
      exact (written_kind hkind _
        |>.add (part_text "name" _) (by simp)
        |>.add (part_text "type" _) (by simp)).copied (l := [])
        (fun x hx => by simp [holdings, hx]) (by simp)
  | literal hkind value =>
      refine ⟨_, by simp only [writeExpr]; rfl, ?_⟩
      exact (written_kind hkind _
        |>.add (part_literal value) (by simp)
        |>.add (part_text "raw" _) (by simp)).copied (l := [])
        (fun x hx => by simp [holdings, hx]) (by simp)
  | call hkind receiver_read args_read =>
      obtain ⟨receiver', receiver_written, receiver_part⟩ := receiver_read.part ih
      obtain ⟨args', args_written, args_part⟩ := args_read.part ih
      refine ⟨_, by simp only [writeExpr, receiver_written, args_written]; rfl, ?_⟩
      exact (written_kind hkind _
        |>.add (part_text "name" _) (by simp)
        |>.add (part_text "type" _) (by simp)
        |>.add receiver_part (by simp)
        |>.add args_part (by simp)).copied (l := [.one "recv", .many "args"])
        (fun x hx => by simp [holdings, hx]) (by simp)
  | field hkind target_read =>
      obtain ⟨target', target_written, target_part⟩ := target_read.part ih
      refine ⟨_, by simp only [writeExpr, target_written]; rfl, ?_⟩
      exact (written_kind hkind _
        |>.add (part_text "name" _) (by simp)
        |>.add (part_text "type" _) (by simp)
        |>.add target_part (by simp)).copied (l := [.one "target"])
        (fun x hx => by simp [holdings, hx]) (by simp)
  | assign hkind target_read value_read =>
      obtain ⟨target', target_written, target_part⟩ := target_read.part ih
      obtain ⟨value', value_written, value_part⟩ := value_read.part ih
      refine ⟨_, by simp only [writeExpr, target_written, value_written]; rfl, ?_⟩
      exact (written_kind hkind _
        |>.add (part_text "op" _) (by simp)
        |>.add target_part (by simp)
        |>.add value_part (by simp)).copied (l := [.one "target", .one "expr"])
        (fun x hx => by simp [holdings, hx]) (by simp)
  | binary hkind left_read right_read =>
      obtain ⟨left', left_written, left_part⟩ := left_read.part ih
      obtain ⟨right', right_written, right_part⟩ := right_read.part ih
      refine ⟨_, by simp only [writeExpr, left_written, right_written]; rfl, ?_⟩
      exact (written_kind hkind _
        |>.add (part_text "op" _) (by simp)
        |>.add left_part (by simp)
        |>.add right_part (by simp)).copied (l := [.one "left", .one "right"])
        (fun x hx => by simp [holdings, hx]) (by simp)
  | unary hkind operand_read =>
      obtain ⟨operand', operand_written, operand_part⟩ := operand_read.part ih
      refine ⟨_, by simp only [writeExpr, operand_written]; rfl, ?_⟩
      exact (written_kind hkind _
        |>.add (part_text "op" _) (by simp)
        |>.add (part_flag "postfix" _) (by simp)
        |>.add operand_part (by simp)).copied (l := [.one "operand"])
        (fun x hx => by simp [holdings, hx]) (by simp)
  | conditional hkind test_read onTrue_read onFalse_read =>
      obtain ⟨test', test_written, test_part⟩ := test_read.part ih
      obtain ⟨onTrue', onTrue_written, onTrue_part⟩ := onTrue_read.part ih
      obtain ⟨onFalse', onFalse_written, onFalse_part⟩ := onFalse_read.part ih
      refine ⟨_, by simp only [writeExpr, test_written, onTrue_written, onFalse_written]; rfl, ?_⟩
      exact (written_kind hkind _
        |>.add (part_text "type" _) (by simp)
        |>.add test_part (by simp)
        |>.add onTrue_part (by simp)
        |>.add onFalse_part (by simp)).copied (l := [.one "cond", .one "then", .one "else"])
        (fun x hx => by simp [holdings, hx]) (by simp)
  | index hkind array_read position_read =>
      obtain ⟨array', array_written, array_part⟩ := array_read.part ih
      obtain ⟨position', position_written, position_part⟩ := position_read.part ih
      refine ⟨_, by simp only [writeExpr, array_written, position_written]; rfl, ?_⟩
      exact (written_kind hkind _
        |>.add (part_text "type" _) (by simp)
        |>.add array_part (by simp)
        |>.add position_part (by simp)).copied (l := [.one "array", .one "index"])
        (fun x hx => by simp [holdings, hx]) (by simp)
  | newArray hkind dims_read elements_read =>
      obtain ⟨dims', dims_written, dims_part⟩ := dims_read.part ih
      obtain ⟨elements', elements_written, elements_part⟩ := elements_read.part ih
      refine ⟨_, by simp only [writeExpr, dims_written, elements_written]; rfl, ?_⟩
      exact (written_kind hkind _
        |>.add (part_text "type" _) (by simp)
        |>.add (part_flag "init_list" _) (by simp)
        |>.add dims_part (by simp)
        |>.add elements_part (by simp)).copied (l := [.many "dims", .many "elements"])
        (fun x hx => by simp [holdings, hx]) (by simp)
  | newObject hkind args_read =>
      obtain ⟨args', args_written, args_part⟩ := args_read.part ih
      refine ⟨_, by simp only [writeExpr, args_written]; rfl, ?_⟩
      exact (written_kind hkind _
        |>.add (part_text "class" _) (by simp)
        |>.add args_part (by simp)).copied (l := [.many "args"])
        (fun x hx => by simp [holdings, hx]) (by simp)
  | @lambda hkind e value_read =>
      obtain ⟨x, hx, hread⟩ := value_read
      obtain ⟨value', value_written, value_copied⟩ := (ih x (sizeOf_field? hx)).1 e hread
      have hfilled := ((hasForm file x).1 e hread).filled
      have hbody : writeBody (.value e) = .ok (node "expr" value') := by
        cases e <;> simp_all [writeBody, Expr.isMissing]
      refine ⟨_, by simp only [writeExpr, hbody]; rfl, ?_⟩
      have hwritten := written_kind hkind (spanOf file d)
        |>.add (part_node hx value_copied) (by simp)
        |>.add (part_items "params" ((readParams d).map paramData)) (by simp)
      refine hwritten.copied_of_eq ?_ ?_
      · rw [holdings, holdings, hwritten.kindOf_eq, hwritten.kind]
        simp [List.lookup_append, value_copied.filled, hx]
      · simp [holdings, hwritten.kind, hx]
  | lambdaBlock hkind no_value body_read =>
      obtain ⟨body', body_written, body_part⟩ := body_read.part ih
      refine ⟨_, by simp only [writeExpr, writeBody, body_written]; rfl, ?_⟩
      have hwritten := written_kind hkind (spanOf file d)
        |>.add body_part (by simp)
        |>.add (part_items "params" ((readParams d).map paramData)) (by simp)
      refine hwritten.copied_of_eq ?_ ?_
      · rw [holdings, holdings, hwritten.kindOf_eq, hwritten.kind]
        simp [List.lookup_append, no_value]
      · simp [holdings, hwritten.kind, no_value]
  | switch hkind selector_read cases_read =>
      obtain ⟨selector', selector_written, selector_part⟩ := selector_read.part ih
      obtain ⟨cases', cases_written, cases_part⟩ := cases_read.part ih
      refine ⟨_, by simp only [writeExpr, selector_written, cases_written]; rfl, ?_⟩
      exact (written_kind hkind _
        |>.add (part_text "type" _) (by simp)
        |>.add selector_part (by simp)
        |>.add cases_part (by simp)).copied
        (l := [.one "selector", .inner "cases" "labels", .inner "cases" "body"])
        (fun x hx => by simp [holdings, hx]) (by simp)
  | template hkind values_read count =>
      obtain ⟨values', values_written, values_part⟩ := values_read.part ih
      refine ⟨_, by simp only [writeExpr, values_written]; rfl, ?_⟩
      exact (written_kind hkind _
        |>.add (part_text "processor" _) (by simp)
        |>.add values_part (by simp)
        |>.add (part_items "fragments" _) (by simp)).copied (l := [.many "values"])
        (fun x hx => by simp [holdings, hx]) (by simp)

theorem StmtForm.copied {s : Stmt} (h : StmtForm file d s) :
    ∃ d', writeStmt s = .ok d' ∧ Copied d d' := by
  cases h with
  | block hkind body_read =>
      obtain ⟨body', body_written, body_part⟩ := body_read.part ih
      refine ⟨_, by simp only [writeStmt, body_written]; rfl, ?_⟩
      exact (written_kind hkind _
        |>.add body_part (by simp)).copied (l := [.many "body"])
        (fun x hx => by simp [holdings, hx]) (by simp)
  | expr hkind value_read | ret hkind value_read | throw hkind value_read =>
      obtain ⟨value', value_written, value_part⟩ := value_read.part ih
      refine ⟨_, by simp only [writeStmt, value_written]; rfl, ?_⟩
      exact (written_kind hkind _
        |>.add value_part (by simp)).copied (l := [.one "expr"])
        (fun x hx => by simp [holdings, hx]) (by simp)
  | var hkind value_read =>
      obtain ⟨value', value_written, value_part⟩ := value_read.part ih
      refine ⟨_, by simp only [writeStmt, value_written]; rfl, ?_⟩
      exact (written_kind hkind _
        |>.add (part_text "name" _) (by simp)
        |>.add (part_text "type" _) (by simp)
        |>.add value_part (by simp)).copied (l := [.one "expr"])
        (fun x hx => by simp [holdings, hx]) (by simp)
  | yield hkind value_read =>
      obtain ⟨value', value_written, value_part⟩ := value_read.part ih
      refine ⟨_, by simp only [writeStmt, value_written]; rfl, ?_⟩
      exact (written_kind hkind _
        |>.add (part_flag "implicit" _) (by simp)
        |>.add value_part (by simp)).copied (l := [.one "expr"])
        (fun x hx => by simp [holdings, hx]) (by simp)
  | branch hkind test_read onTrue_read onFalse_read =>
      obtain ⟨test', test_written, test_part⟩ := test_read.part ih
      obtain ⟨onTrue', onTrue_written, onTrue_part⟩ := onTrue_read.part ih
      obtain ⟨onFalse', onFalse_written, onFalse_part⟩ := onFalse_read.part ih
      refine ⟨_, by simp only [writeStmt, test_written, onTrue_written, onFalse_written]; rfl, ?_⟩
      exact (written_kind hkind _
        |>.add test_part (by simp)
        |>.add onTrue_part (by simp)
        |>.add onFalse_part (by simp)).copied (l := [.one "cond", .one "then", .one "else"])
        (fun x hx => by simp [holdings, hx]) (by simp)
  | forLoop hkind init_read test_read update_read body_read =>
      obtain ⟨init', init_written, init_part⟩ := init_read.part ih
      obtain ⟨test', test_written, test_part⟩ := test_read.part ih
      obtain ⟨update', update_written, update_part⟩ := update_read.part ih
      obtain ⟨body', body_written, body_part⟩ := body_read.part ih
      have hwritten := written_kind hkind (spanOf file d)
        |>.add test_part (by simp)
        |>.add body_part (by simp)
        |>.add update_part (by simp)
        |>.add init_part (by simp)
      refine ⟨_, ?_, hwritten.copied (l := [.many "init", .one "cond", .many "update", .one "stmt"])
        (fun x hx => by simp [holdings, hx]) (by simp)⟩
      simp only [writeStmt, init_written, test_written, update_written, body_written]
      rfl
  | forEach hkind iterable_read body_read =>
      obtain ⟨iterable', iterable_written, iterable_part⟩ := iterable_read.part ih
      obtain ⟨body', body_written, body_part⟩ := body_read.part ih
      refine ⟨_, by simp only [writeStmt, iterable_written, body_written]; rfl, ?_⟩
      exact (written_kind hkind _
        |>.add (part_text "name" _) (by simp)
        |>.add (part_text "type" _) (by simp)
        |>.add iterable_part (by simp)
        |>.add body_part (by simp)).copied (l := [.one "expr", .one "stmt"])
        (fun x hx => by simp [holdings, hx]) (by simp)
  | whileLoop hkind test_read body_read | doWhile hkind body_read test_read =>
      obtain ⟨test', test_written, test_part⟩ := test_read.part ih
      obtain ⟨body', body_written, body_part⟩ := body_read.part ih
      refine ⟨_, by simp only [writeStmt, test_written, body_written]; rfl, ?_⟩
      exact (written_kind hkind _
        |>.add test_part (by simp)
        |>.add body_part (by simp)).copied (l := [.one "cond", .one "stmt"])
        (fun x hx => by simp [holdings, hx]) (by simp)
  | switch hkind selector_read cases_read =>
      obtain ⟨selector', selector_written, selector_part⟩ := selector_read.part ih
      obtain ⟨cases', cases_written, cases_part⟩ := cases_read.part ih
      refine ⟨_, by simp only [writeStmt, selector_written, cases_written]; rfl, ?_⟩
      exact (written_kind hkind _
        |>.add selector_part (by simp)
        |>.add cases_part (by simp)).copied
        (l := [.one "selector", .inner "cases" "labels", .inner "cases" "body"])
        (fun x hx => by simp [holdings, hx]) (by simp)
  | @tryCatch hkind resources body catches cleanup resources_read body_read catches_read
      cleanup_read =>
      obtain ⟨resources', resources_written, resources_part⟩ := resources_read.part ih
      obtain ⟨body', body_written, body_part⟩ := body_read.part ih
      obtain ⟨catches', catches_written, catches_part⟩ := catches_read.part ih
      have hwritten := written_kind hkind (spanOf file d)
        |>.add resources_part (by simp)
        |>.add body_part (by simp)
        |>.add catches_part (by simp)
      have hl (x : Data) (hx : kindOf x = "try") :
          holdings x = [.many "resources", .many "body", .inner "catches" "body", .cleanup] := by
        simp [holdings, hx]
      rcases cleanup_read.part ih with ⟨rfl, cleanup_part⟩ | ⟨s, l, xs, rfl, hxs, cleanup_part⟩
      · refine ⟨_, ?_, (hwritten.add cleanup_part (by simp)).copied hl (by simp)⟩
        simp only [writeStmt, resources_written, body_written, catches_written]
        rfl
      · refine ⟨_, ?_, (hwritten.add cleanup_part (by simp)).copied hl (by simp)⟩
        simp only [writeStmt, resources_written, body_written, catches_written, hxs]
        rfl
  | sync hkind monitor_read body_read =>
      obtain ⟨monitor', monitor_written, monitor_part⟩ := monitor_read.part ih
      obtain ⟨body', body_written, body_part⟩ := body_read.part ih
      refine ⟨_, by simp only [writeStmt, monitor_written, body_written]; rfl, ?_⟩
      exact (written_kind hkind _
        |>.add monitor_part (by simp)
        |>.add body_part (by simp)).copied (l := [.one "expr", .many "body"])
        (fun x hx => by simp [holdings, hx]) (by simp)
  | labeled hkind body_read =>
      obtain ⟨body', body_written, body_part⟩ := body_read.part ih
      refine ⟨_, by simp only [writeStmt, body_written]; rfl, ?_⟩
      exact (written_kind hkind _
        |>.add (part_text "label" _) (by simp)
        |>.add body_part (by simp)).copied (l := [.one "stmt"])
        (fun x hx => by simp [holdings, hx]) (by simp)
  | breakTo hkind | continueTo hkind =>
      refine ⟨_, by simp only [writeStmt]; rfl, ?_⟩
      exact (written_kind hkind _
        |>.add (part_text "label" _) (by simp)).copied (l := [])
        (fun x hx => by simp [holdings, hx]) (by simp)
  | assert hkind test_read message_read =>
      obtain ⟨test', test_written, test_part⟩ := test_read.part ih
      obtain ⟨message', message_written, message_part⟩ := message_read.part ih
      refine ⟨_, by simp only [writeStmt, test_written, message_written]; rfl, ?_⟩
      exact (written_kind hkind _
        |>.add test_part (by simp)
        |>.add message_part (by simp)).copied (l := [.one "cond", .one "message"])
        (fun x hx => by simp [holdings, hx]) (by simp)

end Step

theorem copies (file : String) (d : Data) : Copies file d := by
  have h : ∀ n, ∀ d : Data, sizeOf d < n -> Copies file d := by
    intro n
    induction n with
    | zero => intro d hd; omega
    | succ n ih =>
        intro d hsize
        have ih : ∀ x, sizeOf x < sizeOf d -> Copies file x := fun x hx => ih x (by omega)
        exact ⟨fun e he => ((hasForm file d).1 e he).copied ih,
          fun s hs => ((hasForm file d).2 s hs).copied ih⟩
  exact h _ d (Nat.lt_succ_self _)

theorem method_copied {m : Method} (h : readMethod file d = ⟨m, []⟩) :
    ∃ d', writeMethod m = .ok d' ∧ CopiedLists ["body"] d d' := by
  obtain ⟨l, hbody, -, rfl⟩ := method_form h
  obtain ⟨xs, hxs, hcopied⟩ := hbody.copied fun x _ => copies file x
  refine ⟨_, by simp [writeMethod, Block.stmts, hxs]; rfl, rfl, ?_⟩
  simpa [entriesOf, lookup_one, List.lookup_append, Data.items, paramsField,
    filter_copied hcopied] using hcopied

end Parts

/-! ## Documents -/

/--
The document written of a unit that was read has a node of the same kind at every place of the
document that was read, unless a node that is no block runs at the end of a `try` there.  Its
own nodes at such ends are all blocks, so a node of any other kind has lost its place.
-/
theorem read_write_retains {name : String} {d : Data} {u : CompilationUnit}
    (h : read name d = .ok u) : ∃ d', write u = .ok d' ∧
      (∀ ps x, documentNode? ps d = some x -> EndsInBlocks (documentNode? · d) ps ->
        ∃ x', documentNode? ps d' = some x' ∧ kindOf x' = kindOf x) ∧
      ∀ ps x', documentNode? (ps ++ [.cleanup]) d' = some x' -> kindOf x' = "block" := by
  obtain ⟨unit, file, hunit, hmethods, -⟩ := unit_form h
  obtain ⟨xs, hxs, hcopied⟩ := written_forall₂ (w := writeMethods) (T := CopiedLists ["body"])
    hmethods rfl (fun x' m l xs hx' hxs => by simp [writeMethods, hx', hxs])
    fun x _ m hread => method_copied hread
  refine ⟨_, by rw [write, hxs]; rfl, ?_⟩
  generalize hd' : Data.map _ = d'
  have horder : CopiedInOrder (statementsOf d) (statementsOf d') := by
    refine Holding.Copies.nodes ?_ (by simp)
    subst hunit hd'
    simpa [Holding.Copies, entriesOf, List.lookup_append, lookup_one, Option.filter_some,
      Data.items, filter_lists hcopied] using hcopied.imp fun _ _ h => h.2 "body" (by simp)
  constructor
  · intro ps x hx hends
    cases ps with
    | nil => cases hx
    | cons p ps => exact horder.below.2 _ p ps x (fun _ => rfl) hx hends
  · intro ps x' hx'
    cases hps : ps ++ [Place.cleanup] with
    | nil => simp at hps
    | cons p qs =>
        rw [hps] at hx'
        exact horder.below.1 p qs x' hx' (by rw [← hps]; simp)

/-- A method `m() { try { f(); } finally g(); }`, whose end is a statement of its own. -/
def looseEndMethod : Data :=
  .map [("name", .str "m"), ("body", .list [.map [("kind", .str "try"),
    ("body", .list [.map [("kind", .str "expr"),
      ("expr", .map [("kind", .str "call"), ("name", .str "f")])]]),
    ("finally", .map [("kind", .str "expr"),
      ("expr", .map [("kind", .str "call"), ("name", .str "g")])])]])]

def looseEndDocument : Data :=
  .map [("format", .str "1.0.0"), ("unit", .map [("methods", .list [looseEndMethod])])]

theorem problems_looseEndMethod (file : String) :
    (readMethod file looseEndMethod).problems = [] := by
  cbv

/-- The call of `f` is kept; the call of `g` is gone with the statement it stood in. -/
theorem read_write_retains_looseEndDocument :
    let place := Place.inner "methods" 0 "body" 0
    (documentNode? [place, .item "body" 0] looseEndDocument).map kindOf = some "expr" ∧
    (documentNode? [place, .cleanup] looseEndDocument).map kindOf = some "expr" ∧
    ∃ u d', read "Loose.java" looseEndDocument = .ok u ∧ write u = .ok d' ∧
      (∃ x', documentNode? [place, .item "body" 0] d' = some x' ∧ kindOf x' = "expr") ∧
      ∀ x', documentNode? [place, .cleanup] d' = some x' -> kindOf x' = "block" := by
  intro place
  have hfit : fits (.record .document) looseEndDocument = true := by decide +kernel
  obtain ⟨u, hread⟩ : ∃ u, read "Loose.java" looseEndDocument = .ok u :=
    read_of_clean hfit checkFormat_current fun file x hx => by
      obtain rfl : x = looseEndMethod := List.mem_singleton.1 hx
      exact problems_looseEndMethod file
  obtain ⟨d', hwrite, hkept, hblocks⟩ := read_write_retains hread
  have hfound : (documentNode? [place, .item "body" 0] looseEndDocument).map kindOf =
      some "expr" := by decide +kernel
  have hlost : (documentNode? [place, .cleanup] looseEndDocument).map kindOf = some "expr" := by
    decide +kernel
  refine ⟨hfound, hlost, u, d', hread, hwrite, ?_, hblocks [place]⟩
  obtain ⟨x, hx, hkind⟩ := Option.map_eq_some_iff.1 hfound
  rw [← hkind]
  refine hkept _ x hx fun qs y hprefix _ => ?_
  have hmem : Place.cleanup ∈ [place, .item "body" 0] := hprefix.subset (by simp)
  simp [place, Place.cleanup] at hmem

end EarlyExit.Document
