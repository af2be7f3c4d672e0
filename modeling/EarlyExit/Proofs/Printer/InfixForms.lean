import EarlyExit.Proofs.Printer.Spelling

/-!
# Texts of infix expressions

Operators stand between blanks, and no other part of an infix expression holds a blank
outside of brackets.  So a text falls into words, and its second word tells what stands
at the root.  The operator of a binary expression is the last one of least precedence
among its words: what is left of it binds no looser and what is right of it binds tighter.
-/

namespace EarlyExit

namespace Operator

/-- The operators that stand between two operands. -/
def binaries : List Operator :=
  [add, sub, mul, div, mod, eq, ne, lt, le, gt, ge, and, or, bitAnd, bitOr, bitXor, shl, shr]

def assignments : List Operator :=
  [assign, addAssign, subAssign, mulAssign, divAssign, modAssign]

theorem ofText_text_of_mem : ∀ op ∈ binaries ++ assignments, ofText op.text = op := by
  decide

end Operator

namespace Printer

/-- A parameter with its type, or alone. -/
def IsParam (p : Param) : Prop :=
  isName p.name = true ∧ (p.type = "" ∨ isName p.type = true)

/-- Names, calls, fields, binary operators, conditionals, assignments to a name, and lambdas. -/
inductive InfixForm : Expr -> Prop
  | name {span : Span} {name type : String} (hname : isName name = true) :
      InfixForm (.ident span name type)
  | call {span : Span} {name type : String} {args : List Expr} (hname : isName name = true)
      (hargs : ∀ a ∈ args, InfixForm a) : InfixForm (.call span .missing name args type)
  | methodCall {span : Span} {receiver : Expr} {name type : String} {args : List Expr}
      (hreceiver : InfixForm receiver) (hname : isName name = true)
      (hargs : ∀ a ∈ args, InfixForm a) : InfixForm (.call span receiver name args type)
  | field {span : Span} {target : Expr} {name type : String} (htarget : InfixForm target)
      (hname : isName name = true) : InfixForm (.field span target name type)
  | assign {span targetSpan : Span} {name type : String} {op : Operator} {value : Expr}
      (hname : isName name = true) (hop : op ∈ Operator.assignments) (hvalue : InfixForm value) :
      InfixForm (.assign span (.ident targetSpan name type) op value)
  | binary {span : Span} {left right : Expr} {op : Operator} (hleft : InfixForm left)
      (hop : op ∈ Operator.binaries) (hright : InfixForm right) :
      InfixForm (.binary span left op right)
  | conditional {span : Span} {test onTrue onFalse : Expr} {type : String}
      (htest : InfixForm test) (htrue : InfixForm onTrue) (hfalse : InfixForm onFalse) :
      InfixForm (.conditional span test onTrue onFalse type)
  | lambda {span : Span} {params : List Param} {body : Expr}
      (hparams : ∀ p ∈ params, IsParam p)
      (hbody : InfixForm body) : InfixForm (.lambda span params (.value body))

theorem InfixForm.filled {e : Expr} (h : InfixForm e) : e.isMissing = false := by
  cases h <;> rfl

/-! ## Pieces of infix expressions -/

theorem enclosable_spaced {mark : String} (h : mark.toList.all isPlain = true) :
    ∀ p ∈ spaced mark, p.Enclosable := by
  have hblank : (Piece.char ' ').Enclosable := Piece.enclosable_char rfl (by decide)
  simp only [spaced, List.mem_cons, List.mem_append, List.not_mem_nil, or_false]
  rintro p (rfl | hp | rfl)
  · exact hblank
  · exact enclosable_spelled h p hp
  · exact hblank

theorem enclosable_operator {op : Operator} (h : op ∈ Operator.binaries ++ Operator.assignments) :
    ∀ p ∈ spaced op.text, p.Enclosable := by
  have hall : ∀ op ∈ Operator.binaries ++ Operator.assignments,
      op.text.toList.all isPlain = true := by decide
  exact enclosable_spaced (hall op h)

theorem spelled_param (p : Param) : spelled (paramText p) =
    (if p.type = "" then [] else spelled p.type ++ [.char ' ']) ++ spelled p.name := by
  by_cases ht : p.type = ""
  · simp [paramText, ht]
  · simp [paramText, ht, spelled_append, show spelled " " = [.char ' '] from rfl]

theorem enclosable_param {p : Param} (h : IsParam p) :
    ∀ q ∈ spelled (paramText p), q.Enclosable := by
  rw [spelled_param, List.forall_mem_append]
  refine ⟨?_, enclosable_name h.1⟩
  obtain ht | ht := h.2
  · simp [ht]
  · split
    · simp
    · rw [List.forall_mem_append]
      exact ⟨enclosable_name ht, by simpa using Piece.enclosable_char rfl (by decide)⟩

theorem pieces_lambda {body : Expr} (h : InfixForm body) (span : Span) (params : List Param) :
    pieces (.lambda span params (.value body)) =
      [.group false (commas (params.map (spelled ∘ paramText)))] ++ spaced "->" ++ pieces body := by
  rw [pieces, bodyPieces, h.filled, if_neg Bool.false_ne_true]
  rfl

theorem InfixForm.enclosable {e : Expr} (h : InfixForm e) : ∀ p ∈ pieces e, p.Enclosable := by
  have hargs {args : List Expr} (ih : ∀ a ∈ args, ∀ p ∈ pieces a, p.Enclosable) :
      ∀ p ∈ [Piece.group false (commas (piecesEach args))], p.Enclosable := by
    simp only [List.forall_mem_singleton, piecesEach_eq_map]
    exact enclosable_commas (by simpa using ih)
  induction h with
  | name hname => simpa only [pieces] using enclosable_name hname
  | call hname _ ih =>
    rw [pieces_call, List.forall_mem_append]
    exact ⟨enclosable_name hname, hargs ih⟩
  | methodCall hreceiver hname _ ihr ih =>
    simp only [pieces_methodCall hreceiver.filled, List.forall_mem_append]
    exact ⟨⟨⟨enclosable_wrapped ihr, enclosable_dot⟩, enclosable_name hname⟩, hargs ih⟩
  | field _ hname ih =>
    simp only [pieces, List.forall_mem_append]
    exact ⟨⟨enclosable_wrapped ih, enclosable_dot⟩, enclosable_name hname⟩
  | assign hname hop _ ih =>
    simp only [pieces, List.forall_mem_append]
    exact ⟨⟨enclosable_name hname, enclosable_operator (List.mem_append_right _ hop)⟩, ih⟩
  | binary _ hop _ ihl ihr =>
    simp only [pieces, List.forall_mem_append]
    exact ⟨⟨enclosable_wrapped ihl, enclosable_operator (List.mem_append_left _ hop)⟩,
      enclosable_wrapped ihr⟩
  | conditional _ _ _ iht ihtrue ihfalse =>
    simp only [pieces, List.forall_mem_append]
    exact ⟨⟨enclosable_wrapped iht, enclosable_spaced (by decide)⟩,
      ⟨enclosable_wrapped ihtrue, enclosable_spaced (by decide)⟩, enclosable_wrapped ihfalse⟩
  | lambda hparams hbody ih =>
    simp only [pieces_lambda hbody, List.forall_mem_append, List.forall_mem_singleton]
    refine ⟨⟨enclosable_commas ?_, enclosable_spaced (by decide)⟩, ih⟩
    simpa using fun p hp => enclosable_param (hparams p hp)

theorem InfixForm.pieces_ne_nil {e : Expr} (h : InfixForm e) : pieces e ≠ [] := by
  cases h with
  | name hname => simpa only [pieces] using spelled_ne_nil hname
  | _ => simp [pieces, spaced]

/-- An infix expression shows something outside of brackets. -/
theorem InfixForm.exists_char {e : Expr} (h : InfixForm e) : ∃ c, .char c ∈ pieces e := by
  have hcall {name : String} (hname : isName name = true) (before args : List Piece) :
      ∃ c, .char c ∈ before ++ (spelled name ++ [.group false args]) := by
    obtain ⟨c, hc⟩ := exists_char_spelled hname
    exact ⟨c, by simp [hc]⟩
  cases h with
  | name hname => simpa only [pieces] using exists_char_spelled hname
  | call hname => rw [pieces]; exact hcall hname _ _
  | methodCall _ hname => rw [pieces]; exact hcall hname _ _
  | field => exact ⟨'.', by simp [pieces]⟩
  | _ => exact ⟨' ', by simp [pieces, spaced]⟩

/-- A tree that is set in brackets is not mistaken for one that is not. -/
theorem InfixForm.pieces_ne_group {e : Expr} (h : InfixForm e) (inside : List Piece) :
    pieces e ≠ [.group false inside] := by
  intro heq
  obtain ⟨c, hc⟩ := h.exists_char
  simp [heq] at hc

/-! ## Words -/

/-- The stretches between blanks. -/
def words (ps : List Piece) : List (List Piece) :=
  ps.splitOnP (Piece.isChar ' ')

theorem words_injective {ps qs : List Piece} (h : words ps = words qs) : ps = qs := by
  have hjoin (ps : List Piece) : [Piece.char ' '].intercalate (words ps) = ps := by
    induction ps with
    | nil => rfl
    | cons p ps ih =>
      have hne : words ps ≠ [] := List.splitOnP_ne_nil _ _
      rw [words, List.splitOnP_cons_eq_if_modifyHead, ← words]
      split
      · rename_i hp
        rw [List.intercalate_cons_of_ne_nil hne, ih, Piece.isChar_iff.mp hp]
        rfl
      · cases hw : words ps with
        | nil => exact absurd hw hne
        | cons w ws =>
          rw [hw] at ih
          cases ws <;> simpa using ih
  rw [← hjoin ps, h, hjoin]

theorem words_eq_singleton {ps : List Piece} (h : ∀ p ∈ ps, p.isChar ' ' = false) :
    words ps = [ps] :=
  List.splitOnP_eq_singleton h

theorem words_spaced {mark : String} (hmark : ' ' ∉ mark.toList) (ps qs : List Piece) :
    words (ps ++ spaced mark ++ qs) = words ps ++ spelled mark :: words qs := by
  have hword : ∀ p ∈ spelled mark, p.isChar ' ' = false := by
    intro p hp
    obtain ⟨c, hc, rfl⟩ := mem_spelled.mp hp
    simp only [Piece.isChar, beq_eq_false_iff_ne]
    rintro rfl
    exact hmark hc
  have hsplit : ps ++ spaced mark ++ qs =
      ps ++ .char ' ' :: (spelled mark ++ .char ' ' :: qs) := by simp [spaced]
  rw [hsplit, words, List.splitOnP_append_cons _ _ rfl, List.splitOnP_append_cons _ _ rfl, ← words,
    ← words, words_eq_singleton hword]
  rfl

/-- Letters and groups, of which no operator is made. -/
def Piece.isSolid (p : Piece) : Bool :=
  p.isLetter || p.isGroup

/-- An operand is one word, and not an operator. -/
structure OperandWord (ps : List Piece) : Prop where
  blankless : ∀ p ∈ ps, p.isChar ' ' = false
  solid : ∃ p ∈ ps, p.isSolid = true

theorem operandWord_group (inside : List Piece) : OperandWord [.group false inside] :=
  ⟨by simp [Piece.isChar], by simp [Piece.isSolid, Piece.isGroup]⟩

theorem operandWord_name {name : String} (h : isName name = true) : OperandWord (spelled name) := by
  refine ⟨fun p hp => ?_, ?_⟩
  · rw [Bool.eq_false_iff]
    intro hblank
    obtain rfl := Piece.isChar_iff.mp hblank
    exact absurd (isLetter_of_mem_spelled h hp) (by decide)
  · obtain ⟨c, hc⟩ := exists_char_spelled h
    exact ⟨_, hc, by rw [Piece.isSolid, isLetter_of_mem_spelled h hc, Bool.true_or]⟩

theorem OperandWord.append {ps qs : List Piece} (h : OperandWord ps)
    (hqs : ∀ q ∈ qs, q.isChar ' ' = false) : OperandWord (ps ++ qs) := by
  obtain ⟨p, hp, hsolid⟩ := h.solid
  exact ⟨List.forall_mem_append.mpr ⟨h.blankless, hqs⟩, p, List.mem_append_left _ hp, hsolid⟩

theorem InfixForm.operandWord {e : Expr} (h : InfixForm e) (suffixed : Bool) :
    OperandWord (wrapped (isOperandWrapped suffixed e) (pieces e)) := by
  have hdot {name : String} (hname : isName name = true) :
      ∀ p ∈ .char '.' :: spelled name, p.isChar ' ' = false := by
    simpa [Piece.isChar] using (operandWord_name hname).blankless
  have hargs (args : List Piece) : ∀ p ∈ [Piece.group false args], p.isChar ' ' = false :=
    (operandWord_group args).blankless
  induction h generalizing suffixed with
  | name hname => exact operandWord_name hname
  | call hname => exact (operandWord_name hname).append (hargs _)
  | @methodCall _ _ _ _ args hreceiver hname _ ih _ =>
    have hword := ((ih true).append (hdot hname)).append (hargs (commas (piecesEach args)))
    change OperandWord (pieces _)
    rw [pieces_methodCall hreceiver.filled, List.append_assoc _ [Piece.char '.']]
    exact hword
  | field _ hname ih =>
    have hword := (ih true).append (hdot hname)
    change OperandWord (pieces _)
    simpa only [pieces, List.append_assoc, List.singleton_append] using hword
  | _ => exact operandWord_group _

theorem InfixForm.word {e : Expr} (h : InfixForm e) (hbare : isOperandWrapped false e = false) :
    OperandWord (pieces e) := by
  simpa [hbare, wrapped] using h.operandWord false

/-! ## Chains of binary operators -/

/-- Operands with binary operators between them, none of which binds looser than `least`. -/
inductive Chain (least : Nat) : List (List Piece) -> Prop
  | operand {word : List Piece} (h : OperandWord word) : Chain least [word]
  | join {left right : List (List Piece)} {op : Operator} (hleft : Chain least left)
      (hop : op ∈ Operator.binaries) (hleast : least ≤ op.precedence)
      (hright : Chain least right) : Chain least (left ++ spelled op.text :: right)

theorem Chain.mono {least least' : Nat} {ws : List (List Piece)} (h : Chain least ws)
    (hle : least' ≤ least) : Chain least' ws := by
  induction h with
  | operand h => exact .operand h
  | join _ hop hleast _ ihl ihr => exact .join ihl hop (Nat.le_trans hle hleast) ihr

theorem OperandWord.ne_operator {word : List Piece} (h : OperandWord word) {op : Operator}
    (hop : op ∈ Operator.binaries) : word ≠ spelled op.text := by
  rintro rfl
  obtain ⟨p, hp, hsolid⟩ := h.solid
  obtain ⟨c, hc, rfl⟩ := mem_spelled.mp hp
  have hsigns : ∀ op ∈ Operator.binaries, op.text.toList.all (fun c => !isLetter c) = true := by
    decide
  have hletter : isLetter c = false := by
    simpa using List.all_eq_true.mp (hsigns op hop) c hc
  simp [Piece.isSolid, Piece.isLetter, Piece.isGroup, hletter] at hsolid

theorem spelled_binary_injective {op op' : Operator}
    (h : op ∈ Operator.binaries ++ Operator.assignments)
    (h' : op' ∈ Operator.binaries ++ Operator.assignments)
    (heq : spelled op.text = spelled op'.text) : op = op' := by
  rw [← Operator.ofText_text_of_mem op h, spelled_injective heq, Operator.ofText_text_of_mem op' h']

theorem Chain.least_le {least : Nat} {ws : List (List Piece)} (h : Chain least ws) {op : Operator}
    (hop : op ∈ Operator.binaries) (hmem : spelled op.text ∈ ws) : least ≤ op.precedence := by
  induction h with
  | operand h => exact absurd (List.mem_singleton.mp hmem).symm (h.ne_operator hop)
  | join _ hop' hleast _ ihl ihr =>
    obtain hmem | hmem | hmem := by simpa only [List.mem_append, List.mem_cons] using hmem
    · exact ihl hmem
    · obtain rfl := spelled_binary_injective (List.mem_append_left _ hop)
        (List.mem_append_left _ hop') hmem
      exact hleast
    · exact ihr hmem

/-- Two readings of a chain split it at the same operator. -/
theorem Chain.split_unique {left right left' right' : List (List Piece)} {op op' : Operator}
    (hop : op ∈ Operator.binaries) (hop' : op' ∈ Operator.binaries)
    (hleft : Chain op.precedence left) (hright : Chain (op.precedence + 1) right)
    (hleft' : Chain op'.precedence left') (hright' : Chain (op'.precedence + 1) right')
    (h : left ++ spelled op.text :: right = left' ++ spelled op'.text :: right') :
    left = left' ∧ op = op' ∧ right = right' := by
  -- the operator of either reading would stand in the left part of the other
  have hsame {left right left' right' : List (List Piece)} {op op' : Operator}
      (hop : op ∈ Operator.binaries) (hop' : op' ∈ Operator.binaries)
      (hright : Chain (op.precedence + 1) right) (hleft' : Chain op'.precedence left')
      {between : List (List Piece)} (hl : left' = left ++ between)
      (hr : spelled op.text :: right = between ++ spelled op'.text :: right') :
      left = left' ∧ op = op' ∧ right = right' := by
    cases between with
    | nil =>
      obtain ⟨htext, hright⟩ := List.cons.inj hr
      exact ⟨by simpa using hl.symm, spelled_binary_injective (List.mem_append_left _ hop)
        (List.mem_append_left _ hop') htext, hright⟩
    | cons w between =>
      simp only [List.cons_append, List.cons.injEq] at hr
      obtain ⟨rfl, rfl⟩ := hr
      have hlooser := hleft'.least_le hop (by simp [hl])
      have htighter := hright.least_le hop' (by simp)
      omega
  obtain ⟨between, hl, hr⟩ | ⟨between, hl, hr⟩ := List.append_eq_append_iff.mp h
  · exact hsame hop hop' hright hleft' hl hr
  · obtain ⟨hl, hop, hr⟩ := hsame hop' hop hright' hleft hl hr
    exact ⟨hl.symm, hop.symm, hr.symm⟩

theorem blank_not_mem_text : ∀ op ∈ Operator.binaries ++ Operator.assignments,
    ' ' ∉ op.text.toList := by
  decide

theorem words_binary (span : Span) (left right : Expr) {op : Operator}
    (hop : op ∈ Operator.binaries) : words (pieces (.binary span left op right)) =
      words (wrapped (isSideWrapped op false left) (pieces left)) ++
        spelled op.text :: words (wrapped (isSideWrapped op true right) (pieces right)) := by
  rw [pieces, words_spaced (blank_not_mem_text op (List.mem_append_left _ hop))]

/-- A side of a binary operator is a chain; the right one binds tighter than the operator. -/
theorem InfixForm.chain_side {e : Expr} (h : InfixForm e) (op : Operator) (isRight : Bool) :
    Chain (op.precedence + isRight.toNat)
      (words (wrapped (isSideWrapped op isRight e) (pieces e))) := by
  have hword {least : Nat} {ps : List Piece} (h : OperandWord ps) : Chain least (words ps) := by
    rw [words_eq_singleton h.blankless]
    exact .operand h
  induction h generalizing op isRight with
  | @binary span left right inner _ hop _ ihl ihr =>
    cases hw : isSideWrapped op isRight (.binary span left inner right) with
    | true => exact hword (operandWord_group _)
    | false =>
      have hle : op.precedence + isRight.toNat ≤ inner.precedence := by
        simp only [isSideWrapped, Bool.or_eq_false_iff, decide_eq_false_iff_not, Nat.not_lt,
          Bool.and_eq_false_iff, beq_eq_false_iff_ne] at hw
        cases isRight <;> simp at hw ⊢ <;> omega
      rw [wrapped, if_neg Bool.false_ne_true, words_binary span left right hop]
      exact .join ((ihl inner false).mono hle) hop hle
        ((ihr inner true).mono (Nat.le_trans hle (Nat.le_add_right _ _)))
  | name hname => exact hword (operandWord_name hname)
  | call hname hargs => exact hword (InfixForm.word (.call hname hargs) rfl)
  | methodCall hreceiver hname hargs =>
    exact hword (InfixForm.word (.methodCall hreceiver hname hargs) rfl)
  | field htarget hname => exact hword (InfixForm.word (.field htarget hname) rfl)
  | _ => exact hword (operandWord_group _)

/-! ## The root of a text -/

inductive Shape
  | name | call | field | assignment | binary | conditional | lambda
deriving DecidableEq

def shape : Expr -> Shape
  | .call .. => .call
  | .field .. => .field
  | .assign .. => .assignment
  | .binary .. => .binary
  | .conditional .. => .conditional
  | .lambda .. => .lambda
  | _ => .name

def shapeOf (ps : List Piece) : Shape :=
  match (words ps)[1]? with
  | some mark =>
      let text := String.ofList (Piece.renderAll mark)
      if text = "?" then .conditional
      else if text = "->" then .lambda
      else if Operator.ofText text ∈ Operator.binaries then .binary
      else .assignment
  | none =>
      if ps.getLast?.any Piece.isGroup then .call
      else if ps.any (Piece.isChar '.') then .field
      else .name

theorem shapeOf_mark {ps : List Piece} {mark : String}
    (h : (words ps)[1]? = some (spelled mark)) :
    shapeOf ps =
      if mark = "?" then .conditional
      else if mark = "->" then .lambda
      else if Operator.ofText mark ∈ Operator.binaries then .binary
      else .assignment := by
  simp [shapeOf, h]

theorem shapeOf_word {ps : List Piece} (h : OperandWord ps) :
    shapeOf ps =
      if ps.getLast?.any Piece.isGroup then .call
      else if ps.any (Piece.isChar '.') then .field
      else .name := by
  simp [shapeOf, words_eq_singleton h.blankless]

theorem second_word {ps : List Piece} (h : OperandWord ps) {mark : String}
    (hmark : ' ' ∉ mark.toList) (qs : List Piece) :
    (words (ps ++ spaced mark ++ qs))[1]? = some (spelled mark) := by
  rw [words_spaced hmark, words_eq_singleton h.blankless]
  rfl

/-- Behind the first operand of a chain, if there is something, there is an operator. -/
theorem Chain.second {least : Nat} {ws : List (List Piece)} (h : Chain least ws) :
    ws.length = 1 ∨ ∃ op ∈ Operator.binaries, ws[1]? = some (spelled op.text) := by
  induction h with
  | operand => exact .inl rfl
  | @join left _ op _ hop _ _ ihl _ =>
    refine .inr ?_
    obtain hone | ⟨first, hfirst, hsecond⟩ := ihl
    · exact ⟨op, hop, by simp [hone]⟩
    · have hlt : 1 < left.length := List.getElem?_eq_some_iff.mp hsecond |>.1
      exact ⟨first, hfirst, by rw [List.getElem?_append_left hlt, hsecond]⟩

theorem shapeOf_pieces {e : Expr} (h : InfixForm e) : shapeOf (pieces e) = shape e := by
  have hmarks : ∀ op ∈ Operator.binaries ++ Operator.assignments,
      op.text ≠ "?" ∧ op.text ≠ "->" := by decide
  have hbinary {ps : List Piece} {op : Operator} (hop : op ∈ Operator.binaries)
      (h : (words ps)[1]? = some (spelled op.text)) : shapeOf ps = .binary := by
    have hlisted := List.mem_append_left Operator.assignments hop
    rw [shapeOf_mark h, if_neg (hmarks op hlisted).1, if_neg (hmarks op hlisted).2,
      Operator.ofText_text_of_mem op hlisted, if_pos hop]
  have hcall {before inside : List Piece} (h : OperandWord (before ++ [.group false inside])) :
      shapeOf (before ++ [.group false inside]) = .call := by
    rw [shapeOf_word h, List.getLast?_concat]
    rfl
  cases h with
  | name hname =>
    obtain ⟨c, -, hlast⟩ := getLast?_append_spelled (spelled_ne_nil hname) []
    rw [List.nil_append] at hlast
    rw [pieces, shapeOf_word (operandWord_name hname), hlast, any_dot_spelled hname]
    rfl
  | @call span _ type _ hname hargs =>
    exact hcall ((InfixForm.call hname hargs : InfixForm (.call span _ _ _ type)).word rfl)
  | @methodCall span _ _ type _ hreceiver hname hargs =>
    have hword :=
      (InfixForm.methodCall hreceiver hname hargs : InfixForm (.call span _ _ _ type)).word rfl
    rw [pieces_methodCall hreceiver.filled] at hword ⊢
    exact hcall hword
  | field htarget hname =>
    rw [shapeOf_word ((InfixForm.field htarget hname).word rfl), pieces]
    obtain ⟨c, -, hlast⟩ := getLast?_append_spelled (spelled_ne_nil hname) _
    rw [hlast]
    simp [Piece.isChar, Piece.isGroup, shape]
  | @assign _ _ _ _ op _ hname hop =>
    have hlisted := List.mem_append_right Operator.binaries hop
    have hnot : ∀ op ∈ Operator.assignments, op ∉ Operator.binaries := by decide
    rw [pieces, pieces,
      shapeOf_mark (second_word (operandWord_name hname) (blank_not_mem_text op hlisted) _),
      if_neg (hmarks op hlisted).1, if_neg (hmarks op hlisted).2,
      Operator.ofText_text_of_mem op hlisted, if_neg (hnot op hop)]
    rfl
  | @binary span left right op hleft hop hright =>
    refine (?_ : shapeOf _ = .binary)
    obtain hone | ⟨first, hfirst, hsecond⟩ := (hleft.chain_side op false).second
    · exact hbinary hop (by simp [words_binary span left right hop, hone])
    · refine hbinary hfirst ?_
      rw [words_binary span left right hop,
        List.getElem?_append_left (List.getElem?_eq_some_iff.mp hsecond |>.1), hsecond]
  | conditional htest htrue hfalse =>
    rw [pieces, shapeOf_mark (second_word (htest.operandWord false) (by decide) _), if_pos rfl]
    rfl
  | lambda hparams hbody =>
    rw [pieces_lambda hbody, shapeOf_mark (second_word (operandWord_group _) (by decide) _),
      if_neg (by decide), if_pos rfl]
    rfl

/-! ## Reading a text in one way -/

/-- A mark behind an operand is found in one way. -/
theorem spaced_cut {ps ps' qs qs' : List Piece} {mark mark' : String} (h : OperandWord ps)
    (h' : OperandWord ps') (hmark : ' ' ∉ mark.toList) (hmark' : ' ' ∉ mark'.toList)
    (heq : ps ++ spaced mark ++ qs = ps' ++ spaced mark' ++ qs') :
    ps = ps' ∧ mark = mark' ∧ qs = qs' := by
  have hwords := congrArg words heq
  rw [words_spaced hmark, words_spaced hmark', words_eq_singleton h.blankless,
    words_eq_singleton h'.blankless] at hwords
  simp only [List.singleton_append, List.cons.injEq] at hwords
  exact ⟨hwords.1, spelled_injective hwords.2.1, words_injective hwords.2.2⟩

theorem param_unplaced_eq {p q : Param} (hp : IsParam p) (hq : IsParam q)
    (h : spelled (paramText p) = spelled (paramText q)) : p.unplaced = q.unplaced := by
  have hblank {p q : Param} (hp : IsParam p) (ht : p.type = "") (ht' : q.type ≠ "")
      (h : spelled (paramText p) = spelled (paramText q)) : False := by
    have hmem : .char ' ' ∈ spelled (paramText q) := by simp [spelled_param, ht']
    rw [← h, spelled_param, if_pos ht, List.nil_append] at hmem
    exact absurd (isLetter_of_mem_spelled hp.1 hmem) (by decide)
  have hletters {s : String} (hs : s = "" ∨ isName s = true) (hne : s ≠ "") :
      ∀ a ∈ spelled s, ¬ a = .char ' ' := by
    rintro a ha rfl
    exact absurd (isLetter_of_mem_spelled (hs.resolve_left hne) ha) (by decide)
  by_cases ht : p.type = "" <;> by_cases ht' : q.type = ""
  · rw [spelled_param, spelled_param, if_pos ht, if_pos ht'] at h
    have hname : p.name = q.name := spelled_injective h
    simp [Param.unplaced, hname, ht, ht']
  · exact (hblank hp ht ht' h).elim
  · exact (hblank hq ht' ht h.symm).elim
  · rw [spelled_param, spelled_param, if_neg ht, if_neg ht', List.append_assoc,
      List.append_assoc] at h
    obtain ⟨htype, hname⟩ := cut_unique (· = Piece.char ' ') (hletters hp.2 ht)
      (hletters hq.2 ht') (by simp) (by simp) h
    have hname : p.name = q.name := spelled_injective (List.append_cancel_left hname)
    simp [Param.unplaced, hname, spelled_injective htype]

theorem params_unplaced_eq {params params' : List Param} (h : ∀ p ∈ params, IsParam p)
    (h' : ∀ p ∈ params', IsParam p) (heq : commas (params.map (spelled ∘ paramText)) =
      commas (params'.map (spelled ∘ paramText))) :
    params.map Param.unplaced = params'.map Param.unplaced := by
  have hpieces {params : List Param} (h : ∀ p ∈ params, IsParam p) :
      ∀ ps ∈ params.map (spelled ∘ paramText), ps ≠ [] ∧ ∀ p ∈ ps, p.Enclosable := by
    rw [List.forall_mem_map]
    refine fun p hp => ⟨?_, enclosable_param (h p hp)⟩
    simp [spelled_param, spelled_ne_nil (h p hp).1]
  have hlists := commas_injective (hpieces h) (hpieces h') heq
  exact map_eq_of_map_eq (fun p hp q hq => param_unplaced_eq (h p hp) (h' q hq)) hlists

/-- The pieces of an infix expression determine it up to spans and static types. -/
theorem InfixForm.untyped_eq {e : Expr} (h : InfixForm e) : ∀ {e' : Expr}, InfixForm e' ->
    pieces e = pieces e' -> e.untyped = e'.untyped := by
  -- expressions under a wrapping are compared without it
  have hsame {e e' : Expr} {wrap wrap' : Bool} (he : InfixForm e) (he' : InfixForm e')
      (ih : ∀ {e' : Expr}, InfixForm e' -> pieces e = pieces e' -> e.untyped = e'.untyped)
      (h : wrapped wrap (pieces e) = wrapped wrap' (pieces e')) : e.untyped = e'.untyped :=
    ih he' (wrapped_injective he.pieces_ne_group he'.pieces_ne_group h)
  have hlist {args args' : List Expr} (hargs' : ∀ a ∈ args', InfixForm a)
      (ih : ∀ a ∈ args, ∀ {e' : Expr}, InfixForm e' -> pieces a = pieces e' ->
        a.untyped = e'.untyped) (h : piecesEach args = piecesEach args') :
      untypedEach args = untypedEach args' := by
    rw [piecesEach_eq_map, piecesEach_eq_map] at h
    rw [untypedEach_eq_map, untypedEach_eq_map]
    exact map_eq_of_map_eq (fun a ha b hb => ih a ha (hargs' b hb)) h
  have hshown {args : List Expr} (hargs : ∀ a ∈ args, InfixForm a) :
      ∀ a ∈ args, pieces a ≠ [] ∧ ∀ p ∈ pieces a, p.Enclosable :=
    fun a ha => ⟨(hargs a ha).pieces_ne_nil, (hargs a ha).enclosable⟩
  have hshape {e e' : Expr} (he : InfixForm e) (he' : InfixForm e') (h : pieces e = pieces e') :
      shape e = shape e' := by
    rw [← shapeOf_pieces he, h, shapeOf_pieces he']
  induction h with
  | name hname =>
    intro e' h' heq
    have hroot := hshape (.name hname) h' heq
    cases h' with
    | name =>
      have hnames := spelled_injective (by simpa only [pieces] using heq)
      rw [Expr.untyped, Expr.untyped, hnames]
    | _ => cases hroot
  | call hname hargs ih =>
    intro e' h' heq
    have hroot := hshape (.call hname hargs) h' heq
    cases h' with
    | call _ hargs' =>
      rw [pieces_call, pieces_call] at heq
      obtain ⟨hnames, hlists⟩ := call_injective (hshown hargs) (hshown hargs') heq
      simp only [Expr.untyped, spelled_injective hnames, hlist hargs' ih hlists]
    | methodCall hreceiver' _ hargs' =>
      rw [pieces_call, pieces_methodCall hreceiver'.filled] at heq
      obtain ⟨hnames, -⟩ := call_injective (hshown hargs) (hshown hargs') heq
      exact absurd hnames (name_ne_member hname _ _)
    | _ => cases hroot
  | methodCall hreceiver hname hargs ihr ih =>
    intro e' h' heq
    have hroot := hshape (.methodCall hreceiver hname hargs) h' heq
    cases h' with
    | methodCall hreceiver' hname' hargs' =>
      rw [pieces_methodCall hreceiver.filled, pieces_methodCall hreceiver'.filled] at heq
      obtain ⟨hmember, hlists⟩ := call_injective (hshown hargs) (hshown hargs') heq
      obtain ⟨hbefore, hnames⟩ := member_injective hname hname' hmember
      rw [Expr.untyped, Expr.untyped, hsame hreceiver hreceiver' ihr hbefore, hnames,
        hlist hargs' ih hlists]
    | call hname' hargs' =>
      rw [pieces_call, pieces_methodCall hreceiver.filled] at heq
      obtain ⟨hnames, -⟩ := call_injective (hshown hargs) (hshown hargs') heq
      exact absurd hnames.symm (name_ne_member hname' _ _)
    | _ => cases hroot
  | field htarget hname ih =>
    intro e' h' heq
    have hroot := hshape (.field htarget hname) h' heq
    cases h' with
    | field htarget' hname' =>
      rw [pieces, pieces] at heq
      obtain ⟨hbefore, hnames⟩ := member_injective hname hname' heq
      rw [Expr.untyped, Expr.untyped, hsame htarget htarget' ih hbefore, hnames]
    | _ => cases hroot
  | @assign _ _ _ _ op _ hname hop hvalue ih =>
    intro e' h' heq
    have hroot := hshape (.assign hname hop hvalue) h' heq
    cases h' with
    | assign hname' hop' hvalue' =>
      have hlisted := List.mem_append_right Operator.binaries hop
      have hlisted' := List.mem_append_right Operator.binaries hop'
      simp only [pieces] at heq
      obtain ⟨hnames, htext, hvalues⟩ := spaced_cut (operandWord_name hname)
        (operandWord_name hname') (blank_not_mem_text _ hlisted) (blank_not_mem_text _ hlisted') heq
      have hops := spelled_binary_injective hlisted hlisted' (congrArg spelled htext)
      simp only [Expr.untyped, spelled_injective hnames, hops, ih hvalue' hvalues]
    | _ => cases hroot
  | @binary span left right op hleft hop hright ihl ihr =>
    intro e' h' heq
    have hroot := hshape (.binary hleft hop hright) h' heq
    cases h' with
    | @binary span' left' right' op' hleft' hop' hright' =>
      have hwords := congrArg words heq
      rw [words_binary span left right hop, words_binary span' left' right' hop'] at hwords
      obtain ⟨hlefts, rfl, hrights⟩ := Chain.split_unique hop hop' (hleft.chain_side op false)
        (hright.chain_side op true) (hleft'.chain_side op' false) (hright'.chain_side op' true) hwords
      rw [Expr.untyped, Expr.untyped, hsame hleft hleft' ihl (words_injective hlefts),
        hsame hright hright' ihr (words_injective hrights)]
    | _ => cases hroot
  | conditional htest htrue hfalse iht ihtrue ihfalse =>
    intro e' h' heq
    have hroot := hshape (.conditional htest htrue hfalse) h' heq
    cases h' with
    | conditional htest' htrue' hfalse' =>
      rw [pieces, pieces] at heq
      obtain ⟨htests, -, hbranches⟩ := spaced_cut (htest.operandWord false)
        (htest'.operandWord false) (by decide) (by decide) heq
      obtain ⟨htrues, -, hfalses⟩ := spaced_cut (htrue.operandWord false)
        (htrue'.operandWord false) (by decide) (by decide) hbranches
      rw [Expr.untyped, Expr.untyped, hsame htest htest' iht htests,
        hsame htrue htrue' ihtrue htrues, hsame hfalse hfalse' ihfalse hfalses]
    | _ => cases hroot
  | lambda hparams hbody ih =>
    intro e' h' heq
    have hroot := hshape (.lambda hparams hbody) h' heq
    cases h' with
    | lambda hparams' hbody' =>
      rw [pieces_lambda hbody, pieces_lambda hbody'] at heq
      obtain ⟨hheads, -, hbodies⟩ := spaced_cut (operandWord_group _) (operandWord_group _)
        (by decide) (by decide) heq
      simp only [List.cons.injEq, Piece.group.injEq, true_and, and_true] at hheads
      rw [Expr.untyped, Expr.untyped, Body.untyped, Body.untyped, ih hbody' hbodies,
        params_unplaced_eq hparams hparams' hheads]
    | _ => cases hroot

/-- Infix expressions of one text are equal up to spans and static types. -/
theorem print_infix_injective {e e' : Expr} (h : InfixForm e) (h' : InfixForm e')
    (htext : (Node.expr e).print = (Node.expr e').print) : e.untyped = e'.untyped :=
  h.untyped_eq h' ((print_eq_iff_pieces h.filled h'.filled h.enclosable h'.enclosable).mp htext)

/-- The tree of `fits(a + b) ? rate.of((int n) -> n * n) : (limit = cap)`. -/
def rateExpr (span : Span) (type : String) : Expr :=
  .conditional span
    (.call span .missing "fits"
      [.binary span (.ident span "a" type) .add (.ident span "b" type)] type)
    (.call span (.ident span "rate" type) "of"
      [.lambda span [{ span, name := "n", type := "int" }]
        (.value (.binary span (.ident span "n" type) .mul (.ident span "n" type)))] type)
    (.assign span (.ident span "limit" type) .assign (.ident span "cap" type)) type

theorem infixForm_rateExpr (span : Span) (type : String) : InfixForm (rateExpr span type) := by
  have hname {name : String} (h : isName name = true) : InfixForm (.ident span name type) := .name h
  refine .conditional (.call (by decide) ?_) (.methodCall (hname (by decide)) (by decide) ?_)
    (.assign (by decide) (by decide) (hname (by decide)))
  · simpa using InfixForm.binary (hname (by decide)) (by decide) (hname (by decide))
  · simpa using InfixForm.lambda (by simp [IsParam]; decide)
      (.binary (hname (by decide)) (by decide) (hname (by decide)))

theorem print_infix_injective_rateExpr :
    InfixForm (rateExpr .nowhere "int") ∧ InfixForm (rateExpr .nowhere "") ∧
      (Node.expr (rateExpr .nowhere "int")).print = (Node.expr (rateExpr .nowhere "")).print ∧
      (rateExpr .nowhere "int").untyped = (rateExpr .nowhere "").untyped := by
  have htext : (Node.expr (rateExpr .nowhere "int")).print =
      (Node.expr (rateExpr .nowhere "")).print := by decide +kernel
  exact ⟨infixForm_rateExpr _ _, infixForm_rateExpr _ _, htext,
    print_infix_injective (infixForm_rateExpr _ _) (infixForm_rateExpr _ _) htext⟩

end Printer

end EarlyExit
