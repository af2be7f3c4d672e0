import EarlyExit.Proofs.Expansion.Gather
import EarlyExit.Proofs.Expansion.Runs
import EarlyExit.Proofs.Expansion.Workload

/-!
# Steps and their temporaries

Lifting and hoisting both put a row of statements in the place of one.  `Turn` says what
the row is made of and which temporaries it declares; the rest of a step is splicing.  A
step that wraps the value of a lambda declares none.
-/

namespace EarlyExit.Expansion

open Node

/-- The variable that a lifted conditional needs. -/
def liftTemps (c : Conditional) (ns : Names) (s : Stmt) : List Temp :=
  if isHeaded s then [.plain c.span ns.fresh.1 c.valueType .missing] else []

/-- The statements that take the place of one, with the temporaries they declare. -/
inductive Turn (o : Options) (ns : Names) (s : Stmt) : List Temp -> List Stmt -> Names -> Prop
  | lifted {c : Conditional} {new : List Stmt} {ns' : Names} (h : Lifted c ns s new ns') :
      Turn o ns s (liftTemps c ns s) new ns'
  | hoisted {c : Setting} {slot : Slot} {ts : List Temp} {v : Expr} {ns' : Names}
      (hslot : s.anchorSlot? = some slot) (hclear : Clear o s.anchorExpr v)
      (hmoves : Moves o c ns s.anchorExpr ts v ns') :
      Turn o ns s ts (ts.flatMap Temp.statements ++ [s.withAnchorExpr v]) ns'

inductive Turns (o : Options) (w : Work) : List Temp -> Work -> Prop
  | wrapped {p : Path} {s : Span} {ps : List Param} {e : Expr} {root' : Node}
      (hat : w.root.at? p = some (.expr (.lambda s ps (.value e))))
      (hfilled : e.isMissing = false) (hlive : isLive o (.expr e) = true)
      (hput : w.root.put? (.expr (.lambda s ps (.block (.mk e.span [.ret e.span e])))) p =
        some root') : Turns o w [] ⟨w.names, root'⟩
  | turned {p : Path} {slot : Slot} {parent : Node} {s : Stmt} {ts : List Temp} {new : List Stmt}
      {names : Names} {root' : Node} (hp : w.root.at? p = some parent)
      (hparent : parent.face? = none) (hget : parent.get? slot = some (.stmt s))
      (hlive : isLive o (.stmt s) = true) (hfilled : ∀ t ∈ new, t.isMissing = false)
      (hturn : Turn o w.names s ts new names)
      (hsplice : splice w.root (p ++ [slot]) s new = .ok root') : Turns o w ts ⟨names, root'⟩

theorem isHeaded_of_leaves {s : Stmt} (h : leaves s = true) : isHeaded s = false := by
  cases s <;> simp_all [leaves, isHeaded]

theorem liftTemps_names {c : Conditional} {ns ns' : Names} {s : Stmt} {new : List Stmt}
    (h : Lifted c ns s new ns') : (liftTemps c ns s).map Temp.name =
      ns.several (liftTemps c ns s).length ∧ ns' = ns.later (liftTemps c ns s).length := by
  cases h with
  | exit hleaves =>
      rw [liftTemps, isHeaded_of_leaves hleaves]
      exact ⟨rfl, rfl⟩
  | stored hheaded =>
      rw [liftTemps, hheaded]
      exact ⟨rfl, rfl⟩
  | _ => exact ⟨rfl, rfl⟩

theorem Turn.names {o : Options} {ns ns' : Names} {s : Stmt} {ts : List Temp} {new : List Stmt}
    (h : Turn o ns s ts new ns') :
    ts.map Temp.name = ns.several ts.length ∧ ns' = ns.later ts.length := by
  cases h with
  | lifted h => exact liftTemps_names h
  | hoisted _ _ hmoves => exact hmoves.names

theorem Turns.names {o : Options} {w w' : Work} {ts : List Temp} (h : Turns o w ts w') :
    ts.map Temp.name = w.names.several ts.length ∧ w'.names = w.names.later ts.length := by
  cases h with
  | wrapped => exact ⟨rfl, rfl⟩
  | turned _ _ _ _ _ hturn => exact hturn.names

/-- The node that has the statement of a step does not stand for a value. -/
theorem holder {root : Node} {anchor : Path} {s : Stmt} {h : Shape} {up : List Shape}
    (hat : root.at? anchor = some (.stmt s)) (hup : shapes (root.spine anchor) = h :: up)
    (hholds : h.holds = true) : ∃ p slot parent, anchor = p ++ [slot] ∧ root.at? p = some parent ∧
      parent.face? = none ∧ parent.get? slot = some (.stmt s) := by
  rcases List.eq_nil_or_concat anchor with rfl | ⟨p, slot, rfl⟩
  · simp [spine, shapes] at hup
  · rw [List.concat_eq_append] at hat hup ⊢
    obtain ⟨parent, hp, hget⟩ := at?_concat_eq_some.1 hat
    rw [spine_concat hp hget, shapes_cons, List.cons.injEq] at hup
    obtain ⟨rfl, _⟩ := hup
    exact ⟨p, slot, parent, rfl, hp, face?_of_holds hholds, hget⟩

/-- Every step is of one of the two sorts. -/
theorem Stepped.turns {o : Options} (ho : o.Apart) {w w' : Work} {settled : List Bool × List Exit}
    (h : Stepped o w settled w') : ∃ ts, Turns o w ts w' := by
  cases h with
  | wrapped hat hfilled hlive hput => exact ⟨[], .wrapped hat hfilled hlive hput⟩
  | lifted hat hup hholds hlive hlifted hsplice =>
      obtain ⟨p, slot, parent, rfl, hp, hparent, hget⟩ := holder hat hup hholds
      exact ⟨_, .turned hp hparent hget (isLive_of_anchorExpr hlifted.anchored hlive)
        hlifted.filled (.lifted hlifted) hsplice⟩
  | @hoisted anchor s slot exit above up v new names root' hat hup hholds hslot hexit hdirect
      hlive hhoist hsplice =>
      obtain ⟨p, slot', parent, rfl, hp, hparent, hget⟩ := holder hat hup hholds
      obtain ⟨hclear, htidy⟩ := hoistAll_run ho hdirect hhoist
      obtain ⟨ts, rfl, hmoves⟩ := moves_of_run ho hdirect hhoist
      exact ⟨ts, .turned hp hparent hget (isLive_of_anchorExpr (by simp [hslot]) hlive)
        (htidy.filled_anchor hslot v) (.hoisted hslot hclear hmoves) hsplice⟩

inductive TurnsAll (o : Options) : Work -> List Temp -> Work -> Prop
  | none (w : Work) : TurnsAll o w [] w
  | more {w w' w'' : Work} {ts us : List Temp} (h : Turns o w ts w') (rest : TurnsAll o w' us w'') :
      TurnsAll o w (ts ++ us) w''

theorem Takes.turns {o : Options} (ho : o.Apart) {k : Nat} {w w' : Work} (h : Takes o k w w') :
    ∃ ts, TurnsAll o w ts w' := by
  induction h with
  | none w => exact ⟨[], .none w⟩
  | more hone _ ih =>
      obtain ⟨_, _, _, hstepped⟩ := step_some hone
      obtain ⟨ts, hts⟩ := hstepped.turns ho
      obtain ⟨us, hus⟩ := ih
      exact ⟨ts ++ us, .more hts hus⟩

theorem Moves.guard_kind {o : Options} {c : Setting} {ns ns' : Names} {a v : Expr} {ts : List Temp}
    (h : Moves o c ns a ts v ns') {g : Guard} (hg : .guard g ∈ ts) :
    ∃ e, o.registry.resolve e = some g.kind := by
  induction h with
  | none => cases hg
  | more hmove _ ih =>
      rcases List.mem_cons.1 hg with heq | hg
      · subst heq
        cases hmove with
        | hoisted hkind => exact ⟨_, hkind⟩
      · exact ih hg

/-- The kind of a test is the kind of some expression. -/
theorem TurnsAll.guard_kind {o : Options} {w w' : Work} {ts : List Temp} (h : TurnsAll o w ts w')
    {g : Guard} (hg : .guard g ∈ ts) : ∃ e, o.registry.resolve e = some g.kind := by
  induction h with
  | none => cases hg
  | more h _ ih =>
      rcases List.mem_append.1 hg with hg | hg
      · cases h with
        | wrapped => cases hg
        | turned _ _ _ _ _ hturn =>
            cases hturn with
            | lifted =>
                unfold liftTemps at hg
                split at hg <;> simp at hg
            | hoisted _ _ hmoves => exact hmoves.guard_kind hg
      · exact ih hg

end EarlyExit.Expansion
