import EarlyExit.Proofs.Expansion.Cleared
import EarlyExit.Proofs.Expansion.Fresh
import EarlyExit.Proofs.Tree.Swap

/-!
# Hoisting as a sequence of moves

Hoisting takes an expression apart in small moves.  Each draws one name, puts the
statements of one temporary in front, and changes one operand: a site gives way to the
success value of its temporary, an operand evaluated before a site to a variable, and a
compound assignment to one that reads the old value from a variable.  What hoisting
keeps is shown for each move once, without the recursion.
-/

namespace EarlyExit

/-- A call without arguments, as of a member of a container. -/
def Node.isBareCall : Node -> Bool
  | .expr (.call _ _ _ [] _) => true
  | _ => false

namespace Expansion

/-! ## Temporaries -/

/-- What stands in front of a statement for one of its sites. -/
structure Guard where
  exit : Exit
  kind : Kind
  span : Span
  name : String
  type : String
  /-- The container, its own sites already hoisted. -/
  receiver : Expr

def Guard.statements (g : Guard) : List Stmt :=
  guardStatements g.exit g.kind g.span g.name g.type g.receiver

/-- A variable put in: with a test behind it, or plain. -/
inductive Temp
  | guard (g : Guard)
  | plain (span : Span) (name type : String) (value : Expr)

namespace Temp

def name : Temp -> String
  | guard g => g.name
  | plain _ name _ _ => name

def statements : Temp -> List Stmt
  | guard g => g.statements
  | plain span name type value => [.var span name type value]

def guard? : Temp -> Option Guard
  | guard g => some g
  | plain .. => none

end Temp

/-! ## Moves -/

/-- Expressions whose operands are evaluated with them, in their own scope. -/
def Inner : Node -> Prop
  | .expr (.lambda ..) => False
  | .expr _ => True
  | _ => False

/-- What an operand of an assignment's target is once it has been settled. -/
def isAtom : Expr -> Bool
  | .missing | .ident .. | .literal .. | .lambda .. => true
  | _ => false

/-- The operands of a target have been settled. -/
def Settled : Expr -> Prop
  | .index _ array position _ => isAtom array = true ∧ isAtom position = true
  | .field _ target _ _ => isAtom target = true
  | _ => True

section Moves

variable (o : Options) (c : Setting)

/-- One move, which draws the name `x`. -/
inductive Move (x : String) : Expr -> Temp -> Expr -> Prop
  | spilled {a b p p' e : Expr} {slot : Slot} (hget : (Node.expr p).get? slot = some (.expr e))
      (hset : (Node.expr p).set? slot (.expr (.ident e.span x e.staticType)) = some (.expr p'))
      (hinner : Inner (.expr p)) (hcall : (Node.expr p).isBareCall = false)
      (hunstable : isStable c.written e = false) (hdead : isLive o (.expr e) = false)
      (hlive : isLive o (.expr b) = true)
      (hswap : Node.Swap Inner (.expr p) (.expr p') (.expr a) (.expr b)) :
      Move x a (.plain e.span x e.staticType e) b
  | hoisted {a b receiver : Expr} {s : Span} {type : String} {kind : Kind}
      (hkind : o.registry.resolve receiver = some kind)
      (hdead : isLive o (.expr receiver) = false)
      (hswap : Node.Swap Inner (.expr (.call s receiver o.sentinel [] type))
        (.expr (kind.extract (.ident s x receiver.staticType) s type)) (.expr a) (.expr b)) :
      Move x a (.guard ⟨c.exit, kind, s, x, receiver.staticType, receiver⟩) b
  | kept {a b t value : Expr} {s : Span} {op applied : Operator}
      (happlied : op.applied? = some applied) (hmoves : targetMoves c.written t value = true)
      (hsettled : Settled t) (hdead : isLive o (.expr t) = false)
      (hlive : isLive o (.expr value) = true)
      (hswap : Node.Swap Inner (.expr (.assign s t op value))
        (.expr (.assign s t .assign (.binary s (.ident t.span x t.staticType) applied value)))
        (.expr a) (.expr b)) :
      Move x a (.plain t.span x t.staticType t) b

/-- Moves one after the other, with the temporaries in the order they are put in. -/
inductive Moves : Names -> Expr -> List Temp -> Expr -> Names -> Prop
  | none (ns : Names) (e : Expr) : Moves ns e [] e ns
  | more {ns ns' : Names} {a b v : Expr} {t : Temp} {ts : List Temp}
      (h : Move o c ns.fresh.1 a t b) (rest : Moves ns.fresh.2 b ts v ns') :
      Moves ns a (t :: ts) v ns'

end Moves

variable {o : Options} {c : Setting}

theorem Moves.trans {ns ns' ns'' : Names} {a b v : Expr} {ts us : List Temp}
    (h : Moves o c ns a ts b ns') (h' : Moves o c ns' b us v ns'') :
    Moves o c ns a (ts ++ us) v ns'' := by
  induction h with
  | none => exact h'
  | more h _ ih => exact .more h (ih h')

theorem Moves.one {ns : Names} {a b : Expr} {t : Temp} (h : Move o c ns.fresh.1 a t b) :
    Moves o c ns a [t] b ns.fresh.2 :=
  .more h (.none _ _)

theorem Move.name {x : String} {a b : Expr} {t : Temp} (h : Move o c x a t b) : t.name = x := by
  cases h <;> rfl

/-- The temporaries have the names that are handed out, in this order. -/
theorem Moves.names {ns ns' : Names} {a v : Expr} {ts : List Temp}
    (h : Moves o c ns a ts v ns') :
    ts.map Temp.name = ns.several ts.length ∧ ns' = ns.later ts.length := by
  induction h with
  | none => exact ⟨rfl, rfl⟩
  | more h _ ih =>
      refine ⟨?_, ih.2⟩
      rw [List.map_cons, h.name, ih.1]
      rfl

/-! ## Moves below an operand -/

/-- An expression seen as a function of its operand in a slot. -/
structure Frame (slot : Slot) (f : Expr -> Expr) : Prop where
  inner : ∀ e, Inner (.expr (f e))
  get : ∀ e, (Node.expr (f e)).get? slot = Node.ofExpr? e
  set : ∀ e e', (Node.expr (f e)).set? slot (.expr e') = some (.expr (f e'))

theorem isMissing_of_get {e : Expr} {slot : Slot} {n : Node} (h : (Node.expr e).get? slot = some n) :
    e.isMissing = false := by
  cases e with
  | missing => simp [Node.get?, Node.slots, Node.exprSlots] at h
  | _ => rfl

theorem isMissing_of_swap {a : Expr} {old new n : Node} (h : Node.Swap Inner old new (.expr a) n)
    (hold : old.isFilled = true) : a.isMissing = false := by
  cases h with
  | here => simpa [Node.isFilled] using hold
  | under _ hget _ _ => exact isMissing_of_get hget

theorem Move.filled {x : String} {a b : Expr} {t : Temp} (h : Move o c x a t b) :
    a.isMissing = false := by
  cases h with
  | spilled hget _ _ _ _ _ _ hswap =>
      exact isMissing_of_swap hswap (by simp [Node.isFilled, isMissing_of_get hget])
  | hoisted _ _ hswap => exact isMissing_of_swap hswap rfl
  | kept _ _ _ _ _ hswap => exact isMissing_of_swap hswap rfl

namespace Frame

variable {slot : Slot} {f : Expr -> Expr}

theorem get_filled (hf : Frame slot f) {e : Expr} (h : e.isMissing = false) :
    (Node.expr (f e)).get? slot = some (.expr e) := by
  rw [hf.get, Node.ofExpr?_of_filled h]

theorem isLive (hf : Frame slot f) {e : Expr} (h : isLive o (.expr e) = true) :
    Expansion.isLive o (.expr (f e)) = true := by
  have hfilled : e.isMissing = false := by
    cases e with
    | missing => simp at h
    | _ => rfl
  exact isLive_of_at (p := [slot]) (by simp [Node.at?, hf.get_filled hfilled]) h

theorem swap (hf : Frame slot f) {old new : Node} {a b : Expr} (ha : a.isMissing = false)
    (h : Node.Swap Inner old new (.expr a) (.expr b)) :
    Node.Swap Inner old new (.expr (f a)) (.expr (f b)) :=
  .under (hf.inner a) (hf.get_filled ha) (hf.set a b) h

theorem move (hf : Frame slot f) {x : String} {a b : Expr} {t : Temp} (h : Move o c x a t b) :
    Move o c x (f a) t (f b) := by
  have ha := h.filled
  cases h with
  | spilled hget hset hinner hcall hunstable hdead hlive hswap =>
      exact .spilled hget hset hinner hcall hunstable hdead (hf.isLive hlive) (hf.swap ha hswap)
  | hoisted hkind hdead hswap => exact .hoisted hkind hdead (hf.swap ha hswap)
  | kept happlied hmoves hsettled hdead hlive hswap =>
      exact .kept happlied hmoves hsettled hdead hlive (hf.swap ha hswap)

theorem moves (hf : Frame slot f) {ns ns' : Names} {a v : Expr} {ts : List Temp}
    (h : Moves o c ns a ts v ns') : Moves o c ns (f a) ts (f v) ns' := by
  induction h with
  | none => exact .none _ _
  | more h _ ih => exact .more (hf.move h) ih

end Frame

section Frames

variable (s : Span)

theorem frame_receiver (name : String) (args : List Expr) (type : String) :
    Frame .receiver fun e => .call s e name args type :=
  ⟨fun _ => trivial, fun e => get?_receiver s e name args type, fun _ _ => rfl⟩

theorem frame_target (name type : String) : Frame .target fun e => .field s e name type :=
  ⟨fun _ => trivial, fun e => get?_target s e name type, fun _ _ => rfl⟩

theorem frame_array (position : Expr) (type : String) :
    Frame .array fun e => .index s e position type :=
  ⟨fun _ => trivial, fun e => get?_array s e position type, fun _ _ => rfl⟩

theorem frame_position (array : Expr) (type : String) :
    Frame .position fun e => .index s array e type :=
  ⟨fun _ => trivial, fun e => get?_position s array e type, fun _ _ => rfl⟩

theorem frame_operand (op : Operator) (trailing : Bool) :
    Frame .operand fun e => .unary s op e trailing :=
  ⟨fun _ => trivial, fun e => get?_operand s op e trailing, fun _ _ => rfl⟩

theorem frame_left (op : Operator) (right : Expr) : Frame .left fun e => .binary s e op right :=
  ⟨fun _ => trivial, fun e => get?_left s e op right, fun _ _ => rfl⟩

theorem frame_right (left : Expr) (op : Operator) : Frame .right fun e => .binary s left op e :=
  ⟨fun _ => trivial, fun e => get?_right s left op e, fun _ _ => rfl⟩

theorem frame_assignTarget (op : Operator) (value : Expr) :
    Frame .target fun e => .assign s e op value :=
  ⟨fun _ => trivial, fun e => get?_assignTarget s e op value, fun _ _ => rfl⟩

theorem frame_value (target : Expr) (op : Operator) : Frame .value fun e => .assign s target op e :=
  ⟨fun _ => trivial, fun e => get?_value s target op e, fun _ _ => rfl⟩

theorem frame_selector (cases : List Case) (type : String) :
    Frame .selector fun e => .switch s e cases type :=
  ⟨fun _ => trivial, fun e => get?_selector s e cases type, fun _ _ => rfl⟩

end Frames

/-- An expression seen as a function of its operands in a list of slots. -/
structure ListFrame (slot : Nat -> Slot) (f : List Expr -> Expr) : Prop where
  frame : ∀ pre rest, Frame (slot pre.length) fun e => f (pre ++ e :: rest)
  call : ∀ pre e rest, (Node.expr (f (pre ++ e :: rest))).isBareCall = false

theorem setEntry_append (pre rest : List Expr) (e e' : Expr) :
    Node.setEntry (pre ++ e :: rest) pre.length e' = some (pre ++ e' :: rest) := by
  simp [Node.setEntry]

theorem ofLists {e : Expr} {slot : Nat -> Slot} {pre rest : List Expr} {a : Expr}
    (h : Lists (.expr e) slot 0 (pre ++ a :: rest)) :
    (Node.expr e).get? (slot pre.length) = Node.ofExpr? a := by
  have hget := h pre.length a (by simp)
  rwa [Nat.zero_add] at hget

section ListFrames

variable (s : Span)

theorem frame_args (receiver : Expr) (name type : String) :
    ListFrame .arg fun args => .call s receiver name args type where
  frame pre rest :=
    ⟨fun _ => trivial, fun e => ofLists (lists_args s receiver name (pre ++ e :: rest) type),
      fun e e' => by simp [Node.set?, Node.setExprSlot, setEntry_append]⟩
  call pre e rest := by cases pre <;> rfl

theorem frame_dims (elemType : String) (elements : List Expr) (listed : Bool) :
    ListFrame .dim fun dims => .newArray s elemType dims elements listed where
  frame pre rest :=
    ⟨fun _ => trivial, fun e => ofLists (lists_dims s elemType (pre ++ e :: rest) elements listed),
      fun e e' => by simp [Node.set?, Node.setExprSlot, setEntry_append]⟩
  call _ _ _ := rfl

theorem frame_elements (elemType : String) (dims : List Expr) (listed : Bool) :
    ListFrame .element fun elements => .newArray s elemType dims elements listed where
  frame pre rest :=
    ⟨fun _ => trivial, fun e => ofLists (lists_elements s elemType dims (pre ++ e :: rest) listed),
      fun e e' => by simp [Node.set?, Node.setExprSlot, setEntry_append]⟩
  call _ _ _ := rfl

theorem frame_newObject (className : String) :
    ListFrame .arg fun args => .newObject s className args where
  frame pre rest :=
    ⟨fun _ => trivial, fun e => ofLists (lists_newObject s className (pre ++ e :: rest)),
      fun e e' => by simp [Node.set?, Node.setExprSlot, setEntry_append]⟩
  call _ _ _ := rfl

end ListFrames

/-! ## Hoisting makes moves -/

/-- A hoisting that leads from one expression to another by moves. -/
def Leads (o : Options) (c : Setting) (ns : Names) (e : Expr) (x : Hoisting α) (f : α -> Expr) :
    Prop :=
  Emits ns x fun v new ns' => ∃ ts, new = ts.flatMap Temp.statements ∧ Moves o c ns e ts (f v) ns'

namespace Leads

variable {ns : Names} {e : Expr}

theorem pure {a : α} {f : α -> Expr} (h : f a = e) : Leads o c ns e (Pure.pure a) f := by
  subst h
  exact Emits.pure ⟨[], rfl, .none ns (f a)⟩

/-- Two hoistings in a row, when the second starts where the first has led. -/
theorem bind {P : α -> Prop} {x : Hoisting α} {f : α -> Expr} {k : α -> Hoisting β}
    {g : β -> Expr} (hP : Emits ns x fun a _ _ => P a) (hx : Leads o c ns e x f)
    (hk : ∀ a ns', P a -> Leads o c ns' (f a) (k a) g) : Leads o c ns e (x >>= k) g := by
  refine Emits.bind (hP.and hx) ?_
  rintro a new ns' ⟨ha, ts, rfl, hmoves⟩
  refine (hk a ns' ha).mono ?_
  rintro b more ns'' ⟨us, rfl, hmoves'⟩
  exact ⟨ts ++ us, by simp, hmoves.trans hmoves'⟩

/-- A hoisting of an operand seen from the expression. -/
theorem frame {slot : Slot} {f : Expr -> Expr} (hf : Frame slot f) {x : Hoisting Expr}
    (h : Leads o c ns e x id) : Leads o c ns (f e) x f := by
  refine h.mono ?_
  rintro v new ns' ⟨ts, rfl, hmoves⟩
  exact ⟨ts, rfl, hf.moves hmoves⟩

end Leads

variable {ns : Names}

/-- Binding an operand `v` of `f v` to a variable, in an expression `g (f v)` that stays live. -/
theorem leads_settle {slot : Slot} {f g : Expr -> Expr} {v : Expr} (hf : Frame slot f)
    (hcall : (Node.expr (f v)).isBareCall = false) (hdead : isLive o (.expr v) = false)
    (hlive : ∀ e, isLive o (.expr (g (f e))) = true)
    (hswap : ∀ e, Node.Swap Inner (.expr (f v)) (.expr (f e)) (.expr (g (f v))) (.expr (g (f e)))) :
    Leads o c ns (g (f v)) (settle c.written v) fun e => g (f e) := by
  unfold settle
  split
  next => exact Leads.pure rfl
  next hstable =>
    have hunstable : isStable c.written v = false := by simpa using hstable
    have hfilled : v.isMissing = false := by
      cases v with
      | missing => cases hunstable
      | _ => rfl
    exact Emits.spill ⟨[.plain v.span ns.fresh.1 v.staticType v], by simp [Temp.statements],
      .one (.spilled (hf.get_filled hfilled) (hf.set _ _) (hf.inner v) hcall hunstable hdead
        (hlive _) (hswap _))⟩

theorem leads_settled {slot : Slot} {f : Expr -> Expr} {e v : Expr} {later : Bool}
    (hf : Frame slot f) (hdead : isLive o (.expr v) = false)
    (hcall : later = true -> (Node.expr (f v)).isBareCall = false)
    (hlive : later = true -> ∀ a, isLive o (.expr (f a)) = true) :
    Leads o c ns (f v) (c.settled o e later v) f := by
  unfold Setting.settled
  split
  next hlater =>
    have hlater : later = true := by simp_all
    exact leads_settle (g := id) hf (hcall hlater) hdead (hlive hlater) fun _ => .here
  next => exact Leads.pure rfl

theorem isAtom_of_stable {written : List String} {e : Expr} (h : isStable written e = true) :
    isAtom e = true := by
  cases e <;> simp_all [isStable, isAtom]

theorem emits_atom (written : List String) (e : Expr) :
    Emits ns (settle written e) fun v _ _ => isAtom v = true := by
  unfold settle
  split
  next hstable => exact .pure (isAtom_of_stable hstable)
  next => exact .spill rfl

theorem emits_settledTarget (t : Expr) : Emits ns (c.target t) fun t' _ _ => Settled t' := by
  cases t with
  | index s array position type =>
      refine .bind (emits_atom c.written array) fun a _ _ ha => ?_
      refine .bind (emits_atom c.written position) fun p _ _ hp => ?_
      exact .pure ⟨ha, hp⟩
  | field s target name type =>
      refine .bind (emits_atom c.written target) fun t _ _ ht => ?_
      exact .pure ht
  | _ => exact .pure trivial

/-- Settling the operands of a target that is assigned a live value. -/
theorem leads_target {s : Span} {t value : Expr} {op : Operator}
    (hdead : isLive o (.expr t) = false) (hlive : isLive o (.expr value) = true) :
    Leads o c ns (.assign s t op value) (c.target t) fun t' => .assign s t' op value := by
  -- an operand of the target, seen from the assignment
  have hsettle {slot : Slot} {f : Expr -> Expr} (hf : Frame slot f) {ns : Names} {e : Expr}
      (he : isLive o (.expr e) = false) (hfilled : (f e).isMissing = false)
      (hcall : (Node.expr (f e)).isBareCall = false) :
      Leads o c ns (.assign s (f e) op value) (settle c.written e) fun e' =>
        .assign s (f e') op value :=
    leads_settle (g := fun e => .assign s e op value) hf hcall he (fun _ => by simp [hlive])
      fun e' => (frame_assignTarget s op value).swap hfilled .here
  cases t with
  | index s' array position type =>
      simp only [isLive_index, Bool.or_eq_false_iff] at hdead
      refine .bind (P := fun _ => True) ((emits_atom c.written array).mono fun _ _ _ _ => trivial)
        (hsettle (frame_array s' position type) hdead.1 rfl rfl) fun a ns' _ => ?_
      refine .bind (P := fun _ => True)
        ((emits_atom c.written position).mono fun _ _ _ _ => trivial)
        (hsettle (frame_position s' a type) hdead.2 rfl rfl) fun p ns'' _ => ?_
      exact .pure rfl
  | field s' target name type =>
      simp only [isLive_field] at hdead
      refine .bind (P := fun _ => True)
        ((emits_atom c.written target).mono fun _ _ _ _ => trivial)
        (hsettle (frame_target s' name type) hdead rfl rfl) fun t ns' _ => ?_
      exact .pure rfl
  | _ => exact .pure rfl

mutual

/-- Hoisting a direct expression is a sequence of moves. -/
theorem hoistAll_moves {o : Options} (ho : o.Apart) (c : Setting) :
    (e : Expr) -> Direct o e -> (ns : Names) -> Leads o c ns e (hoistAll o c e) id
  | .call s receiver name args type, hd, ns => by
      rw [hoistAll]
      split
      next => exact .pure rfl
      next =>
        have hdr := direct_operand hd (get?_receiver s receiver name args type)
        have hda := direct_list hd (lists_args s receiver name args type)
        refine .bind (P := Clear o receiver)
          ((hoistAll_cleared ho c receiver hdr.1 ns).mono fun _ _ _ h => h.1)
          ((hoistAll_moves ho c receiver hdr.1 ns).frame (frame_receiver s name args type))
          fun r ns' hr => ?_
        split
        next kind hsite =>
          obtain ⟨rfl, rfl, hkind⟩ := siteKind?_call hsite
          rw [← hr.type]
          refine Emits.hoistSite ⟨[.guard ⟨c.exit, kind, s, _, r.staticType, r⟩],
            by simp [Temp.statements, Guard.statements], .one (.hoisted ?_ hr.dead .here)⟩
          simpa [Registry.resolve, hr.type] using hkind
        next =>
          have hlater : anyLive o args = true -> args ≠ [] := by
            rintro h rfl
            cases h
          refine .bind (P := Clear o receiver)
            ((emits_settled hr (anyLive o args)).mono fun _ _ _ h => h.1)
            (leads_settled (frame_receiver s name args type) hr.dead
              (fun h => by
                obtain ⟨a, as, rfl⟩ := List.exists_cons_of_ne_nil (hlater h)
                rfl)
              fun h a => by simp [isLive_call, h]) fun r' ns'' _ => ?_
          refine .bind (P := fun _ => True)
            ((hoistAllList_cleared ho c false args hda ns'').mono fun _ _ _ _ => trivial)
            (hoistAllList_moves ho c false args hda ns'' (frame_args s r' name type) [] (by simp))
            fun vs _ _ => ?_
          exact .pure rfl
  | .field s target name type, hd, ns => by
      rw [hoistAll]
      split
      next => exact .pure rfl
      next =>
        have hdt := direct_operand hd (get?_target s target name type)
        exact .bind (P := Clear o target)
          ((hoistAll_cleared ho c target hdt.1 ns).mono fun _ _ _ h => h.1)
          ((hoistAll_moves ho c target hdt.1 ns).frame (frame_target s name type))
          fun _ _ _ => .pure rfl
  | .index s array position type, hd, ns => by
      rw [hoistAll]
      split
      next => exact .pure rfl
      next =>
        have hda := direct_operand hd (get?_array s array position type)
        have hdp := direct_operand hd (get?_position s array position type)
        refine .bind (P := Clear o array)
          ((hoistAll_cleared ho c array hda.1 ns).mono fun _ _ _ h => h.1)
          ((hoistAll_moves ho c array hda.1 ns).frame (frame_array s position type))
          fun a ns' ha => ?_
        refine .bind (P := Clear o array) ((emits_settled ha _).mono fun _ _ _ h => h.1)
          (leads_settled (frame_array s position type) ha.dead (fun _ => rfl)
            fun h _ => by simp [h]) fun a' ns'' _ => ?_
        exact .bind (P := Clear o position)
          ((hoistAll_cleared ho c position hdp.1 ns'').mono fun _ _ _ h => h.1)
          ((hoistAll_moves ho c position hdp.1 ns'').frame (frame_position s a' type))
          fun _ _ _ => .pure rfl
  | .newArray s elemType dims elements isListed, hd, ns => by
      rw [hoistAll]
      split
      next => exact .pure rfl
      next =>
        have hdd := direct_list hd (lists_dims s elemType dims elements isListed)
        have hde := direct_list hd (lists_elements s elemType dims elements isListed)
        refine .bind (P := fun _ => True)
          ((hoistAllList_cleared ho c _ dims hdd ns).mono fun _ _ _ _ => trivial)
          (hoistAllList_moves ho c _ dims hdd ns (frame_dims s elemType elements isListed) []
            fun h l => by simp [h]) fun ds ns' _ => ?_
        exact .bind (P := fun _ => True)
          ((hoistAllList_cleared ho c _ elements hde ns').mono fun _ _ _ _ => trivial)
          (hoistAllList_moves ho c _ elements hde ns' (frame_elements s elemType ds isListed) []
            (by simp)) fun _ _ _ => .pure rfl
  | .newObject s className args, hd, ns => by
      rw [hoistAll]
      split
      next => exact .pure rfl
      next =>
        have hda := direct_list hd (lists_newObject s className args)
        exact .bind (P := fun _ => True)
          ((hoistAllList_cleared ho c _ args hda ns).mono fun _ _ _ _ => trivial)
          (hoistAllList_moves ho c _ args hda ns (frame_newObject s className) [] (by simp))
          fun _ _ _ => .pure rfl
  | .unary s op operand trailing, hd, ns => by
      rw [hoistAll]
      split
      next => exact .pure rfl
      next =>
        have hdo := direct_operand hd (get?_operand s op operand trailing)
        exact .bind (P := Clear o operand)
          ((hoistAll_cleared ho c operand hdo.1 ns).mono fun _ _ _ h => h.1)
          ((hoistAll_moves ho c operand hdo.1 ns).frame (frame_operand s op trailing))
          fun _ _ _ => .pure rfl
  | .binary s left op right, hd, ns => by
      rw [hoistAll]
      split
      next => exact .pure rfl
      next =>
        have hdl := direct_operand hd (get?_left s left op right)
        have hdr := direct_operand hd (get?_right s left op right)
        refine .bind (P := Clear o left)
          ((hoistAll_cleared ho c left hdl.1 ns).mono fun _ _ _ h => h.1)
          ((hoistAll_moves ho c left hdl.1 ns).frame (frame_left s op right)) fun l ns' hl => ?_
        split
        next => exact .pure rfl
        next =>
          refine .bind (P := Clear o left) ((emits_settled hl _).mono fun _ _ _ h => h.1)
            (leads_settled (frame_left s op right) hl.dead (fun _ => rfl)
              fun h _ => by simp [h]) fun l' ns'' _ => ?_
          exact .bind (P := Clear o right)
            ((hoistAll_cleared ho c right hdr.1 ns'').mono fun _ _ _ h => h.1)
            ((hoistAll_moves ho c right hdr.1 ns'').frame (frame_right s l' op))
            fun _ _ _ => .pure rfl
  | .assign s target op value, hd, ns => by
      rw [hoistAll]
      split
      next => exact .pure rfl
      next hassign =>
        have hdt := direct_operand hd (get?_assignTarget s target op value)
        have hdv := direct_operand hd (get?_value s target op value)
        have htarget : isLive o (.expr target) = false := by
          simpa [shape, Shape.passes] using hdt.2
        have hvalue : isLive o (.expr value) = true := by simpa [htarget] using hassign
        refine .bind (P := fun t => isLive o (.expr t) = false ∧ Settled t)
          (((emits_target (c := c) htarget).mono fun _ _ _ h => h.1.dead).and
            (emits_settledTarget target)) (leads_target htarget hvalue) fun t ns' ht => ?_
        split
        next applied happlied hmoves =>
          simp only [hvalue, Bool.true_and] at hmoves
          refine .bind (P := fun e => e = .ident t.span ns'.fresh.1 t.staticType) (.spill rfl)
            (f := fun old => .assign s t .assign (.binary s old applied value))
            (Emits.spill ⟨[.plain t.span _ t.staticType t], by simp [Temp.statements],
              .one (.kept happlied hmoves ht.2 ht.1 hvalue .here)⟩) fun old ns'' _ => ?_
          refine .bind (P := Clear o value)
            ((hoistAll_cleared ho c value hdv.1 ns'').mono fun _ _ _ h => h.1)
            (f := fun v => .assign s t .assign (.binary s old applied v)) ?_
            fun _ _ _ => .pure rfl
          refine (hoistAll_moves ho c value hdv.1 ns'').mono ?_
          rintro v new ns''' ⟨ts, rfl, hmoves'⟩
          exact ⟨ts, rfl, (frame_value s t .assign).moves ((frame_right s old applied).moves hmoves')⟩
        next =>
          exact .bind (P := Clear o value)
            ((hoistAll_cleared ho c value hdv.1 ns').mono fun _ _ _ h => h.1)
            ((hoistAll_moves ho c value hdv.1 ns').frame (frame_value s t op))
            fun _ _ _ => .pure rfl
  | .switch s selector cases type, hd, ns => by
      rw [hoistAll]
      split
      next => exact .pure rfl
      next =>
        have hds := direct_operand hd (get?_selector s selector cases type)
        exact .bind (P := Clear o selector)
          ((hoistAll_cleared ho c selector hds.1 ns).mono fun _ _ _ h => h.1)
          ((hoistAll_moves ho c selector hds.1 ns).frame (frame_selector s cases type))
          fun _ _ _ => .pure rfl
  | .missing, hd, ns | .ident .., hd, ns | .literal .., hd, ns | .conditional .., hd, ns
  | .lambda .., hd, ns | .template .., hd, ns => by
      have hdead := direct_dead hd rfl (by simp [Node.exprSlots, shape, Shape.passes])
      unfold hoistAll
      rw [if_pos (by rw [hdead]; rfl)]
      exact .pure rfl

/-- The operands of a list, seen from the expression; `pre` are those already hoisted. -/
theorem hoistAllList_moves {o : Options} (ho : o.Apart) (c : Setting) (after : Bool) :
    (es : List Expr) -> (∀ e ∈ es, Direct o e) -> (ns : Names) -> {slot : Nat -> Slot} ->
      {f : List Expr -> Expr} -> ListFrame slot f -> (pre : List Expr) ->
      (after = true -> ∀ l, isLive o (.expr (f l)) = true) ->
      Leads o c ns (f (pre ++ es)) (hoistAllList o c after es) fun vs => f (pre ++ vs)
  | [], _, ns, slot, f, hf, pre, hafter => by
      rw [hoistAllList]
      exact .pure rfl
  | e :: rest, hd, ns, slot, f, hf, pre, hafter => by
      rw [hoistAllList]
      have hde := hd e (by simp)
      have hdrest : ∀ a ∈ rest, Direct o a := fun a ha => hd a (by simp [ha])
      have hframe := hf.frame pre rest
      -- an operand before a live one stays in a live expression
      have hlive : (anyLive o rest || after) = true ->
          ∀ a, isLive o (.expr (f (pre ++ a :: rest))) = true := by
        intro hlater a
        rcases Bool.or_eq_true _ _ ▸ hlater with hrest | hafter'
        · obtain ⟨b, hb, hblive⟩ := List.any_eq_true.1 hrest
          obtain ⟨l, r, rfl⟩ := List.append_of_mem hb
          have hb := (hf.frame (pre ++ a :: l) r).isLive hblive
          simpa using hb
        · exact hafter hafter' _
      refine .bind (P := Clear o e) ((hoistAll_cleared ho c e hde ns).mono fun _ _ _ h => h.1)
        ((hoistAll_moves ho c e hde ns).frame hframe) fun v ns' hv => ?_
      refine .bind (P := Clear o e) ((emits_settled hv _).mono fun _ _ _ h => h.1)
        (leads_settled hframe hv.dead (fun _ => hf.call pre v rest) hlive) fun v' ns'' _ => ?_
      refine .bind (P := fun _ => True)
        ((hoistAllList_cleared ho c after rest hdrest ns'').mono fun _ _ _ _ => trivial)
        (f := fun vs => f (pre ++ v' :: vs)) ?_ fun vs _ _ => .pure rfl
      have hrest := hoistAllList_moves ho c after rest hdrest ns'' hf (pre ++ [v']) hafter
      simpa using hrest

end

/-- What a finished hoisting has done. -/
theorem moves_of_run {o : Options} (ho : o.Apart) {c : Setting} {e : Expr} (hd : Direct o e)
    {ns ns' : Names} {v : Expr} {new : List Stmt}
    (h : (hoistAll o c e).run ⟨ns, []⟩ = .ok v ⟨ns', new⟩) :
    ∃ ts, new = ts.flatMap Temp.statements ∧ Moves o c ns e ts v ns' := by
  obtain ⟨v', new', ns'', hrun, ts, rfl, hmoves⟩ := hoistAll_moves ho c e hd ns
  have heq := (hrun []).symm.trans h
  simp only [List.nil_append, EStateM.Result.ok.injEq, Draft.mk.injEq] at heq
  obtain ⟨rfl, rfl, rfl⟩ := heq
  exact ⟨ts, rfl, hmoves⟩

end Expansion

end EarlyExit
