import EarlyExit.Proofs.Printer.Spelling

/-!
# Texts of prefix and postfix expressions

Prefix operators are printed without anything between them, and an index stands behind an
array creation like one more dimension of it.  So `-` before `-x` has the text of `--x`,
and an element of a new array the text of an array of one more dimension.  Nothing else
is lost: two expressions have one text exactly if they agree after every prefix operator
is taken sign by sign and every index of a creation as a dimension.  Where no sign meets
the same sign and no creation is indexed at once, the text determines the tree.
-/

namespace EarlyExit

namespace Operator

/-- The operators that stand in front of their operand. -/
def prefixes : List Operator :=
  [sub, add, not, bitNot, inc, dec]

/-- The prefix operators that are one sign. -/
def signs : List Operator :=
  [sub, add, not, bitNot]

/-- The operators that stand behind their operand. -/
def steps : List Operator :=
  [inc, dec]

/-- The sign that a prefix operator is written with, once or twice. -/
def sign : Operator -> Operator
  | inc => add
  | dec => sub
  | op => op

end Operator

namespace Expr

/-- The expression that stands for its text: a prefix operator sign by sign. -/
def signed (op : Operator) (e : Expr) : Expr :=
  let once := .unary .nowhere op.sign e false
  if op.isStep then .unary .nowhere op.sign once false else once

/-- An element, or for a new array an array of one more dimension. -/
def indexed (array position : Expr) : Expr :=
  match array with
  | .newArray _ elemType dims elements false =>
      .newArray .nowhere elemType (dims ++ [position]) elements false
  | _ => .index .nowhere array position ""

mutual

/--
The expression without spans and static types, with prefix operators sign by sign and
indices of a creation among its dimensions.  Forms other than names, calls, prefix and
postfix operators, indices and array creations are left as they are.
-/
def regrouped : Expr -> Expr
  | .ident _ name _ => .ident .nowhere name ""
  | .call _ receiver name args _ => .call .nowhere receiver.regrouped name (regroupedEach args) ""
  | .unary _ op e trailing =>
      if trailing then .unary .nowhere op e.regrouped true else signed op e.regrouped
  | .index _ array position _ => indexed array.regrouped position.regrouped
  | .newArray _ elemType dims elements listed =>
      .newArray .nowhere elemType (regroupedEach dims) (regroupedEach elements) listed
  | e => e

def regroupedEach : List Expr -> List Expr
  | [] => []
  | e :: rest => e.regrouped :: regroupedEach rest

end

def leadingSign? : Expr -> Option Operator
  | .unary _ op _ false => some op.sign
  | _ => none

def isCreation : Expr -> Bool
  | .newArray _ _ _ _ listed => !listed
  | _ => false

/-- Whether a prefix operator and its operand meet in the same `+` or `-`. -/
def signsMeet (op : Operator) (e : Expr) : Bool :=
  (op.sign == .add || op.sign == .sub) && e.leadingSign? == some op.sign

mutual

/-- Whether no two signs meet and no creation is indexed at once, at any depth. -/
def isApart : Expr -> Bool
  | .call _ receiver _ args _ => receiver.isApart && allApart args
  | .unary _ op e trailing => e.isApart && (trailing || !signsMeet op e)
  | .index _ array position _ => array.isApart && position.isApart && !array.isCreation
  | .newArray _ _ dims elements _ => allApart dims && allApart elements
  | _ => true

def allApart : List Expr -> Bool
  | [] => true
  | e :: rest => e.isApart && allApart rest

end

end Expr

namespace Printer

/-- Names, calls, prefix and postfix operators, indices, and array creations with dimensions. -/
inductive AffixForm : Expr -> Prop
  | name {span : Span} {name type : String} (hname : isName name = true) :
      AffixForm (.ident span name type)
  | call {span : Span} {name type : String} {args : List Expr} (hname : isName name = true)
      (hargs : ∀ a ∈ args, AffixForm a) : AffixForm (.call span .missing name args type)
  | methodCall {span : Span} {receiver : Expr} {name type : String} {args : List Expr}
      (hreceiver : AffixForm receiver) (hname : isName name = true)
      (hargs : ∀ a ∈ args, AffixForm a) : AffixForm (.call span receiver name args type)
  | sign {span : Span} {op : Operator} {e : Expr} (hop : op ∈ Operator.prefixes)
      (h : AffixForm e) : AffixForm (.unary span op e false)
  | step {span : Span} {op : Operator} {e : Expr} (hop : op ∈ Operator.steps)
      (h : AffixForm e) : AffixForm (.unary span op e true)
  | index {span : Span} {array position : Expr} {type : String} (harray : AffixForm array)
      (hposition : AffixForm position) : AffixForm (.index span array position type)
  | creation {span : Span} {elemType : String} {dims : List Expr} (htype : isName elemType = true)
      (hdims : ∀ d ∈ dims, AffixForm d) : AffixForm (.newArray span elemType dims [] false)

theorem AffixForm.filled {e : Expr} (h : AffixForm e) : e.isMissing = false := by
  cases h <;> rfl

theorem AffixForm.bare {e : Expr} (h : AffixForm e) : isOperandWrapped false e = false := by
  cases h <;> rfl

/-! ## Regrouped expressions -/

/-- Expressions that regrouping leaves as they are. -/
inductive Settled : Expr -> Prop
  | name {name : String} (hname : isName name = true) : Settled (.ident .nowhere name "")
  | call {name : String} {args : List Expr} (hname : isName name = true)
      (hargs : ∀ a ∈ args, Settled a) : Settled (.call .nowhere .missing name args "")
  | methodCall {receiver : Expr} {name : String} {args : List Expr}
      (hreceiver : Settled receiver) (hname : isName name = true)
      (hargs : ∀ a ∈ args, Settled a) : Settled (.call .nowhere receiver name args "")
  | sign {op : Operator} {e : Expr} (hop : op ∈ Operator.signs) (h : Settled e) :
      Settled (.unary .nowhere op e false)
  | step {op : Operator} {e : Expr} (hop : op ∈ Operator.steps) (h : Settled e) :
      Settled (.unary .nowhere op e true)
  | index {array position : Expr} (harray : Settled array) (hold : array.isCreation = false)
      (hposition : Settled position) : Settled (.index .nowhere array position "")
  | creation {elemType : String} {dims : List Expr} (htype : isName elemType = true)
      (hdims : ∀ d ∈ dims, Settled d) : Settled (.newArray .nowhere elemType dims [] false)

theorem Settled.filled {e : Expr} (h : Settled e) : e.isMissing = false := by
  cases h <;> rfl

theorem Settled.bare {e : Expr} (h : Settled e) : isOperandWrapped false e = false := by
  cases h <;> rfl

theorem settled_signed {op : Operator} {e : Expr} (hop : op ∈ Operator.prefixes)
    (h : Settled e) : Settled (Expr.signed op e) := by
  have hsign : ∀ op ∈ Operator.prefixes, op.sign ∈ Operator.signs := by decide
  unfold Expr.signed
  split
  · exact .sign (hsign op hop) (.sign (hsign op hop) h)
  · exact .sign (hsign op hop) h

theorem settled_indexed {array position : Expr} (harray : Settled array)
    (hposition : Settled position) : Settled (Expr.indexed array position) := by
  cases harray with
  | creation htype hdims =>
    refine .creation htype ?_
    simpa [or_imp, forall_and] using ⟨hdims, hposition⟩
  | name hname => exact .index (.name hname) rfl hposition
  | call hname hargs => exact .index (.call hname hargs) rfl hposition
  | methodCall hreceiver hname hargs =>
    exact .index (.methodCall hreceiver hname hargs) rfl hposition
  | sign hop h => exact .index (.sign hop h) rfl hposition
  | step hop h => exact .index (.step hop h) rfl hposition
  | index harray hold hinner => exact .index (.index harray hold hinner) rfl hposition

theorem regroupedEach_eq_map (l : List Expr) : Expr.regroupedEach l = l.map Expr.regrouped := by
  induction l with
  | nil => rfl
  | cons e l ih => rw [Expr.regroupedEach, ih, List.map_cons]

theorem AffixForm.settled {e : Expr} (h : AffixForm e) : Settled e.regrouped := by
  have heach {l : List Expr} (ih : ∀ e ∈ l, Settled e.regrouped) :
      ∀ e ∈ Expr.regroupedEach l, Settled e := by
    simpa only [regroupedEach_eq_map, List.forall_mem_map] using ih
  induction h with
  | name hname => exact .name hname
  | call hname _ ih => exact .call hname (heach ih)
  | methodCall _ hname _ ihr ih => exact .methodCall ihr hname (heach ih)
  | sign hop _ ih => exact settled_signed hop ih
  | step hop _ ih => exact .step hop ih
  | index _ _ iha ihp => exact settled_indexed iha ihp
  | creation htype _ ih => exact .creation htype (heach ih)

/-! ## Regrouping keeps the text -/

theorem pieces_sign {e : Expr} (hbare : isOperandWrapped false e = false) (span : Span)
    (op : Operator) : pieces (.unary span op e false) = spelled op.text ++ pieces e := by
  rw [pieces, if_neg Bool.false_ne_true, hbare]
  rfl

theorem pieces_step (e : Expr) (span : Span) (op : Operator) :
    pieces (.unary span op e true) =
      wrapped (isOperandWrapped true e) (pieces e) ++ spelled op.text :=
  rfl

theorem pieces_index (span : Span) (array position : Expr) (type : String) :
    pieces (.index span array position type) =
      wrapped (isOperandWrapped true array) (pieces array) ++ [.group true (pieces position)] :=
  rfl

theorem pieces_creation (span : Span) (elemType : String) (dims : List Expr) :
    pieces (.newArray span elemType dims [] false) =
      spelled ("new " ++ elemType) ++ (piecesEach dims).map (.group true) := by
  rw [pieces, if_neg Bool.false_ne_true, spelled_append]

theorem pieces_signed {op : Operator} {e : Expr} (hop : op ∈ Operator.prefixes)
    (hbare : isOperandWrapped false e = false) :
    pieces (Expr.signed op e) = spelled op.text ++ pieces e := by
  have htwice : ∀ op ∈ Operator.prefixes,
      op.text = if op.isStep then op.sign.text ++ op.sign.text else op.sign.text := by decide
  rw [htwice op hop]
  unfold Expr.signed
  split
  · rw [pieces_sign (by rfl), pieces_sign hbare, spelled_append, List.append_assoc]
  · rw [pieces_sign hbare]

theorem pieces_indexed (array position : Expr) :
    pieces (Expr.indexed array position) =
      wrapped (isOperandWrapped true array) (pieces array) ++ [.group true (pieces position)] := by
  cases array with
  | newArray _ _ dims _ listed =>
    cases listed with
    | false => simp [Expr.indexed, pieces, isOperandWrapped, wrapped, piecesEach_eq_map]
    | true => rfl
  | _ => rfl

theorem AffixForm.wrapped_regrouped {e : Expr} (h : AffixForm e) :
    isOperandWrapped true e.regrouped = isOperandWrapped true e := by
  cases h with
  | sign =>
    rw [Expr.regrouped, if_neg Bool.false_ne_true]
    simp only [Expr.signed]
    split <;> rfl
  | index =>
    rw [Expr.regrouped]
    unfold Expr.indexed
    split <;> rfl
  | _ => rfl

theorem AffixForm.pieces_regrouped {e : Expr} (h : AffixForm e) :
    pieces e.regrouped = pieces e := by
  have heach {l : List Expr} (ih : ∀ e ∈ l, pieces e.regrouped = pieces e) :
      piecesEach (Expr.regroupedEach l) = piecesEach l := by
    simpa [piecesEach_eq_map, regroupedEach_eq_map] using ih
  induction h with
  | name => rfl
  | call _ _ ih => simp only [Expr.regrouped, pieces_call, heach ih]
  | methodCall hreceiver _ _ ihr ih =>
    rw [Expr.regrouped, pieces_methodCall hreceiver.settled.filled,
      pieces_methodCall hreceiver.filled, hreceiver.wrapped_regrouped, ihr, heach ih]
  | sign hop h ih =>
    rw [Expr.regrouped, if_neg Bool.false_ne_true, pieces_signed hop h.settled.bare, ih,
      pieces_sign h.bare]
  | step _ h ih =>
    rw [Expr.regrouped, if_pos rfl, pieces_step, pieces_step, ih, h.wrapped_regrouped]
  | index harray _ iha ihp =>
    rw [Expr.regrouped, pieces_indexed, iha, ihp, harray.wrapped_regrouped, pieces_index]
  | creation _ _ ih =>
    rw [Expr.regrouped, Expr.regroupedEach, pieces_creation, pieces_creation, heach ih]

/-! ## Pieces of settled expressions -/

theorem Settled.enclosable {e : Expr} (h : Settled e) : ∀ p ∈ pieces e, p.Enclosable := by
  have hargs {args : List Expr} (ih : ∀ a ∈ args, ∀ p ∈ pieces a, p.Enclosable) :
      ∀ p ∈ [Piece.group false (commas (piecesEach args))], p.Enclosable := by
    simp only [List.forall_mem_singleton, piecesEach_eq_map]
    exact enclosable_commas (by simpa using ih)
  have hsquare {ps : List Piece} (h : ∀ p ∈ ps, p.Enclosable) :
      (Piece.group true ps).Enclosable := ⟨.group fun p hp => (h p hp).1, by simp⟩
  have hsigns : ∀ op ∈ Operator.signs ++ Operator.steps, op.text.toList.all isPlain = true := by
    decide
  induction h with
  | name hname => exact enclosable_name hname
  | call hname _ ih =>
    rw [pieces_call, List.forall_mem_append]
    exact ⟨enclosable_name hname, hargs ih⟩
  | methodCall hreceiver hname _ ihr ih =>
    simp only [pieces_methodCall hreceiver.filled, List.forall_mem_append]
    exact ⟨⟨⟨enclosable_wrapped ihr, enclosable_dot⟩, enclosable_name hname⟩, hargs ih⟩
  | @sign op _ hop h ih =>
    rw [pieces_sign h.bare, List.forall_mem_append]
    exact ⟨enclosable_spelled (hsigns op (List.mem_append_left _ hop)), ih⟩
  | @step op _ hop _ ih =>
    rw [pieces_step, List.forall_mem_append]
    exact ⟨enclosable_wrapped ih, enclosable_spelled (hsigns op (List.mem_append_right _ hop))⟩
  | index _ _ _ iha ihp =>
    rw [pieces_index, List.forall_mem_append, List.forall_mem_singleton]
    exact ⟨enclosable_wrapped iha, hsquare ihp⟩
  | creation htype _ ih =>
    simp only [pieces_creation, spelled_append, piecesEach_eq_map, List.forall_mem_append,
      List.forall_mem_map]
    exact ⟨⟨enclosable_spelled (by decide), enclosable_name htype⟩, fun d hd => hsquare (ih d hd)⟩

def isSign (c : Char) : Bool :=
  c == '-' || c == '+' || c == '!' || c == '~'

def Piece.isSign : Piece -> Bool
  | .char c => Printer.isSign c
  | .group .. => false

theorem isSign_of_mem_spelled {op : Operator} (hop : op ∈ Operator.signs ++ Operator.steps)
    {p : Piece} (hp : p ∈ spelled op.text) : p.isSign = true := by
  have hsigns : ∀ op ∈ Operator.signs ++ Operator.steps, op.text.toList.all isSign = true := by
    decide
  obtain ⟨c, hc, rfl⟩ := mem_spelled.mp hp
  exact List.all_eq_true.mp (hsigns op hop) c hc

theorem exists_sign_spelled {op : Operator} (hop : op ∈ Operator.signs ++ Operator.steps) :
    ∃ c, .char c ∈ spelled op.text := by
  have hne : ∀ op ∈ Operator.signs ++ Operator.steps, op.text.toList ≠ [] := by decide
  obtain ⟨c, hc⟩ := List.exists_mem_of_ne_nil _ (hne op hop)
  exact ⟨c, mem_spelled.mpr ⟨c, hc, rfl⟩⟩

/-- No settled expression is a pair of parentheses and nothing else. -/
theorem Settled.exists_not_round {e : Expr} (h : Settled e) :
    ∃ p ∈ pieces e, ∀ inside, p ≠ .group false inside := by
  have hchar {ps : List Piece} (h : ∃ c, .char c ∈ ps) :
      ∃ p ∈ ps, ∀ inside, p ≠ .group false inside := by
    obtain ⟨c, hc⟩ := h
    exact ⟨_, hc, by simp⟩
  cases h with
  | name hname => exact hchar (exists_char_spelled hname)
  | call hname =>
    obtain ⟨c, hc⟩ := exists_char_spelled hname
    exact hchar ⟨c, by simp [pieces_call, hc]⟩
  | methodCall hreceiver => exact hchar ⟨'.', by simp [pieces_methodCall hreceiver.filled]⟩
  | sign hop h =>
    obtain ⟨c, hc⟩ := exists_sign_spelled (List.mem_append_left _ hop)
    exact hchar ⟨c, by simp [pieces_sign h.bare, hc]⟩
  | step hop =>
    obtain ⟨c, hc⟩ := exists_sign_spelled (List.mem_append_right _ hop)
    exact hchar ⟨c, by simp [pieces_step, hc]⟩
  | @index _ position => exact ⟨.group true (pieces position), by simp [pieces_index], by simp⟩
  | creation => exact hchar ⟨'n', by simp [pieces_creation, spelled]⟩

theorem Settled.pieces_ne_nil {e : Expr} (h : Settled e) : pieces e ≠ [] := by
  obtain ⟨p, hp, -⟩ := h.exists_not_round
  exact List.ne_nil_of_mem hp

theorem Settled.pieces_ne_group {e : Expr} (h : Settled e) (inside : List Piece) :
    pieces e ≠ [.group false inside] := by
  intro heq
  obtain ⟨p, hp, hround⟩ := h.exists_not_round
  rw [heq, List.mem_singleton] at hp
  exact hround inside hp

/-! ## The root of a text -/

def creationPieces (elemType : String) (dims : List (List Piece)) : List Piece :=
  spelled ("new " ++ elemType) ++ dims.map (.group true)

theorem pieces_creation_eq (span : Span) (elemType : String) (dims : List Expr) :
    pieces (.newArray span elemType dims [] false) = creationPieces elemType (piecesEach dims) :=
  pieces_creation span elemType dims

/-- An operand that is no creation is not read as one. -/
theorem Settled.operand_ne_creation {e : Expr} (h : Settled e) (hold : e.isCreation = false)
    (elemType : String) (dims : List (List Piece)) :
    wrapped (isOperandWrapped true e) (pieces e) ≠ creationPieces elemType dims := by
  have hround (dims : List (List Piece)) (inside : List Piece) :
      .group false inside ∉ creationPieces elemType dims := by
    simp [creationPieces, spelled]
  induction h generalizing dims with
  | @name name hname =>
    intro (heq : spelled name = _)
    have hblank : .char ' ' ∈ spelled name := by rw [heq]; simp [creationPieces, spelled]
    exact absurd (isLetter_of_mem_spelled hname hblank) (by decide)
  | @call name args =>
    intro (heq : spelled name ++ [.group false (commas (piecesEach args))] = _)
    exact hround dims (commas (piecesEach args)) (by simp [← heq])
  | @methodCall receiver name args hreceiver =>
    intro (heq : pieces (.call .nowhere receiver name args "") = _)
    rw [pieces_methodCall hreceiver.filled] at heq
    exact hround dims (commas (piecesEach args)) (by simp [← heq])
  | @sign op e =>
    intro (heq : [Piece.group false (pieces (.unary .nowhere op e false))] = _)
    exact hround dims _ (heq ▸ List.mem_singleton_self _)
  | @step op e =>
    intro (heq : [Piece.group false (pieces (.unary .nowhere op e true))] = _)
    exact hround dims _ (heq ▸ List.mem_singleton_self _)
  | @index array position harray hold' _ ih _ =>
    intro (heq : wrapped (isOperandWrapped true array) (pieces array) ++
      [.group true (pieces position)] = _)
    obtain rfl | ⟨init, last, rfl⟩ := List.eq_nil_or_concat dims
    · have hsquare : .group true (pieces position) ∈ creationPieces elemType [] := by simp [← heq]
      simp [creationPieces, spelled] at hsquare
    · -- the index would be the last dimension, and the array a creation itself
      have hlast : creationPieces elemType (init.concat last) =
          creationPieces elemType init ++ [.group true last] := by simp [creationPieces]
      exact ih hold' init (List.append_inj' (heq.trans hlast) rfl).1
  | creation => cases hold

theorem not_isSign_of_isLetter {p : Piece} (h : p.isLetter = true) : p.isSign = false := by
  rw [Bool.eq_false_iff]
  intro hsign
  cases p with
  | char c =>
    simp only [Piece.isSign, isSign, Bool.or_eq_true, beq_iff_eq] at hsign
    obtain ((rfl | rfl) | rfl) | rfl := hsign <;> exact absurd h (by decide)
  | group => cases hsign

theorem not_isSign_of_mem_creation {elemType : String} (h : isName elemType = true)
    (dims : List (List Piece)) : ∀ p ∈ creationPieces elemType dims, p.isSign = false := by
  have hword : ∀ p ∈ spelled "new ", p.isSign = false := by
    simp [spelled, Piece.isSign, isSign]
  simp only [creationPieces, spelled_append, List.forall_mem_append, List.forall_mem_map]
  exact ⟨⟨hword, fun p hp => not_isSign_of_isLetter (isLetter_of_mem_spelled h hp)⟩,
    fun _ _ => rfl⟩

/-- What is no creation is not read as one. -/
theorem Settled.ne_creation {e : Expr} (h : Settled e) (hold : e.isCreation = false)
    {elemType : String} (htype : isName elemType = true) (dims : List (List Piece)) :
    pieces e ≠ creationPieces elemType dims := by
  have hsign {op : Operator} (hop : op ∈ Operator.signs ++ Operator.steps) {ps : List Piece}
      (hps : ∀ p ∈ spelled op.text, p ∈ ps) : ps ≠ creationPieces elemType dims := by
    rintro rfl
    obtain ⟨c, hc⟩ := exists_sign_spelled hop
    have hfree := not_isSign_of_mem_creation htype dims _ (hps _ hc)
    rw [isSign_of_mem_spelled hop hc] at hfree
    cases hfree
  cases h with
  | sign hop h =>
    rw [pieces_sign h.bare]
    exact hsign (List.mem_append_left _ hop) fun _ hp => List.mem_append_left _ hp
  | step hop =>
    rw [pieces_step]
    exact hsign (List.mem_append_right _ hop) fun _ hp => List.mem_append_right _ hp
  | name hname => exact (Settled.name hname).operand_ne_creation rfl _ _
  | call hname hargs => exact (Settled.call hname hargs).operand_ne_creation rfl _ _
  | methodCall hreceiver hname hargs =>
    exact (Settled.methodCall hreceiver hname hargs).operand_ne_creation rfl _ _
  | index harray hold' hposition =>
    exact (Settled.index harray hold' hposition).operand_ne_creation rfl _ _
  | creation => cases hold

inductive AffixShape
  | name | call | sign | step | index | creation
deriving DecidableEq

def affixShape : Expr -> AffixShape
  | .call .. => .call
  | .unary _ _ _ trailing => if trailing then .step else .sign
  | .index .. => .index
  | .newArray .. => .creation
  | _ => .name

/-- The form of an expression that is no creation, by its first and its last piece. -/
def affixShapeOf (ps : List Piece) : AffixShape :=
  if ps.head?.any Piece.isSign then .sign
  else
    match ps.getLast? with
    | some (.group square _) => if square then .index else .call
    | some (.char c) => if isSign c then .step else .name
    | none => .name

/-- Something stands first, and it is no sign. -/
def StartsUnsigned (ps : List Piece) : Prop :=
  ∃ p rest, ps = p :: rest ∧ p.isSign = false

theorem StartsUnsigned.append {ps : List Piece} (h : StartsUnsigned ps) (qs : List Piece) :
    StartsUnsigned (ps ++ qs) := by
  obtain ⟨p, rest, rfl, hp⟩ := h
  exact ⟨p, rest ++ qs, rfl, hp⟩

theorem startsUnsigned_name {name : String} (h : isName name = true) :
    StartsUnsigned (spelled name) := by
  obtain ⟨p, rest, hps⟩ := List.exists_cons_of_ne_nil (spelled_ne_nil h)
  have hp : p ∈ spelled name := by simp [hps]
  exact ⟨p, rest, hps, not_isSign_of_isLetter (isLetter_of_mem_spelled h hp)⟩

/-- An operand with a sign in front stands in parentheses. -/
theorem Settled.startsUnsigned {e : Expr} (h : Settled e) :
    StartsUnsigned (wrapped (isOperandWrapped true e) (pieces e)) := by
  induction h with
  | name hname => exact startsUnsigned_name hname
  | call hname => exact (startsUnsigned_name hname).append _
  | @methodCall receiver name args hreceiver _ _ ihr =>
    change StartsUnsigned (pieces (.call .nowhere receiver name args ""))
    rw [pieces_methodCall hreceiver.filled, List.append_assoc, List.append_assoc]
    exact ihr.append _
  | sign => exact ⟨_, [], rfl, rfl⟩
  | step => exact ⟨_, [], rfl, rfl⟩
  | index _ _ _ ih => exact ih.append _
  | creation => exact ⟨.char 'n', _, rfl, rfl⟩

theorem affixShapeOf_unsigned {ps : List Piece} (h : StartsUnsigned ps) :
    affixShapeOf ps =
      match ps.getLast? with
      | some (.group square _) => if square then .index else .call
      | some (.char c) => if isSign c then .step else .name
      | none => .name := by
  obtain ⟨p, rest, rfl, hp⟩ := h
  simp [affixShapeOf, hp]

theorem affixShapeOf_pieces {e : Expr} (h : Settled e) (hold : e.isCreation = false) :
    affixShapeOf (pieces e) = affixShape e := by
  cases h with
  | @name name hname =>
    obtain ⟨c, hc, hlast⟩ := getLast?_append_spelled (spelled_ne_nil hname) []
    have hsign := not_isSign_of_isLetter (isLetter_of_mem_spelled hname (mem_spelled.mpr ⟨c, hc, rfl⟩))
    rw [pieces, affixShapeOf_unsigned (startsUnsigned_name hname), ← List.nil_append (spelled name),
      hlast]
    simp [show isSign c = false from hsign, affixShape]
  | call hname =>
    rw [pieces_call, affixShapeOf_unsigned ((startsUnsigned_name hname).append _),
      List.getLast?_concat]
    rfl
  | methodCall hreceiver hname hargs =>
    have hstart : StartsUnsigned (pieces (.call .nowhere _ _ _ "")) :=
      (Settled.methodCall hreceiver hname hargs).startsUnsigned
    rw [affixShapeOf_unsigned hstart, pieces_methodCall hreceiver.filled, List.getLast?_concat]
    rfl
  | @sign op e hop h =>
    have hlisted := List.mem_append_left Operator.steps hop
    obtain ⟨c, hc⟩ := exists_sign_spelled hlisted
    obtain ⟨p, rest, hps⟩ := List.exists_cons_of_ne_nil (List.ne_nil_of_mem hc)
    have hsign := isSign_of_mem_spelled hlisted (show p ∈ spelled op.text by simp [hps])
    simp [pieces_sign h.bare, hps, affixShapeOf, hsign, affixShape]
  | @step op e hop h =>
    have hlisted := List.mem_append_right Operator.signs hop
    obtain ⟨c, hc⟩ := exists_sign_spelled hlisted
    obtain ⟨c, hc, hlast⟩ := getLast?_append_spelled (List.ne_nil_of_mem hc)
      (wrapped (isOperandWrapped true e) (pieces e))
    have hsign := isSign_of_mem_spelled hlisted (mem_spelled.mpr ⟨c, hc, rfl⟩)
    rw [pieces_step, affixShapeOf_unsigned (h.startsUnsigned.append _), hlast]
    simp [show isSign c = true from hsign, affixShape]
  | index harray =>
    rw [pieces_index, affixShapeOf_unsigned (harray.startsUnsigned.append _), List.getLast?_concat]
    rfl
  | creation => cases hold

/-! ## Reading a text in one way -/

theorem creationPieces_injective {elemType elemType' : String} {dims dims' : List (List Piece)}
    (h : creationPieces elemType dims = creationPieces elemType' dims') :
    elemType = elemType' ∧ dims = dims' := by
  have hchars (s : String) : ∀ p ∈ spelled s, ¬ p.isGroup = true := by
    simp [spelled, Piece.isGroup]
  have hgroups (dims : List (List Piece)) :
      ∀ p ∈ (dims.map (Piece.group true)).head?, p.isGroup = true := by
    cases dims <;> simp [Piece.isGroup]
  obtain ⟨hwords, hsquares⟩ := cut_unique (fun p => p.isGroup = true)
    (hchars ("new " ++ elemType)) (hchars ("new " ++ elemType')) (hgroups dims) (hgroups dims') h
  rw [spelled_append, spelled_append] at hwords
  refine ⟨spelled_injective (List.append_cancel_left hwords), ?_⟩
  exact List.map_injective_iff.mpr (fun _ _ h => (Piece.group.inj h).2) hsquares

theorem operator_injective {op op' : Operator} (hop : op ∈ Operator.signs ++ Operator.steps)
    (hop' : op' ∈ Operator.signs ++ Operator.steps) (h : spelled op.text = spelled op'.text) :
    op = op' := by
  have hback : ∀ op ∈ Operator.signs ++ Operator.steps, Operator.ofText op.text = op := by decide
  rw [← hback op hop, spelled_injective h, hback op' hop']

theorem Settled.exists_creation {e : Expr} (h : Settled e) (hnew : e.isCreation = true) :
    ∃ elemType dims, isName elemType = true ∧ e = .newArray .nowhere elemType dims [] false := by
  cases h with
  | creation htype => exact ⟨_, _, htype, rfl⟩
  | _ => cases hnew

theorem Settled.shape_eq {e e' : Expr} (h : Settled e) (h' : Settled e')
    (heq : pieces e = pieces e') : affixShape e = affixShape e' := by
  -- a creation is not read as anything else
  have hcreation {e e' : Expr} (h : Settled e) (h' : Settled e') (heq : pieces e = pieces e')
      (hnew : e.isCreation = true) : e'.isCreation = true := by
    obtain ⟨elemType, dims, htype, rfl⟩ := h.exists_creation hnew
    by_contra hold
    refine h'.ne_creation (Bool.not_eq_true _ ▸ hold) htype (piecesEach dims) ?_
    rw [← heq, pieces_creation_eq]
  cases hnew : e.isCreation with
  | true =>
    obtain ⟨_, _, -, rfl⟩ := h.exists_creation hnew
    obtain ⟨_, _, -, rfl⟩ := h'.exists_creation (hcreation h h' heq hnew)
    rfl
  | false =>
    have hold : e'.isCreation = false := by
      rw [Bool.eq_false_iff]
      intro hnew'
      rw [hcreation h' h heq.symm hnew'] at hnew
      cases hnew
    rw [← affixShapeOf_pieces h hnew, heq, affixShapeOf_pieces h' hold]

/-- The pieces of a settled expression determine it. -/
theorem Settled.pieces_injective {e : Expr} (h : Settled e) : ∀ {e' : Expr}, Settled e' ->
    pieces e = pieces e' -> e = e' := by
  have hsame {e e' : Expr} {wrap wrap' : Bool} (he : Settled e) (he' : Settled e')
      (ih : ∀ {e' : Expr}, Settled e' -> pieces e = pieces e' -> e = e')
      (h : wrapped wrap (pieces e) = wrapped wrap' (pieces e')) : e = e' :=
    ih he' (wrapped_injective he.pieces_ne_group he'.pieces_ne_group h)
  have hlist {es es' : List Expr} (hes' : ∀ e ∈ es', Settled e)
      (ih : ∀ e ∈ es, ∀ {e' : Expr}, Settled e' -> pieces e = pieces e' -> e = e')
      (h : piecesEach es = piecesEach es') : es = es' := by
    rw [piecesEach_eq_map, piecesEach_eq_map] at h
    simpa using map_eq_of_map_eq (f := id) (fun a ha b hb => ih a ha (hes' b hb)) h
  have hshown {args : List Expr} (hargs : ∀ a ∈ args, Settled a) :
      ∀ a ∈ args, pieces a ≠ [] ∧ ∀ p ∈ pieces a, p.Enclosable :=
    fun a ha => ⟨(hargs a ha).pieces_ne_nil, (hargs a ha).enclosable⟩
  induction h with
  | name hname =>
    intro e' h' heq
    have hroot := (Settled.name hname).shape_eq h' heq
    cases h' with
    | name => rw [spelled_injective heq]
    | _ => cases hroot
  | call hname hargs ih =>
    intro e' h' heq
    have hroot := (Settled.call hname hargs).shape_eq h' heq
    cases h' with
    | call _ hargs' =>
      rw [pieces_call, pieces_call] at heq
      obtain ⟨hnames, hlists⟩ := call_injective (hshown hargs) (hshown hargs') heq
      rw [spelled_injective hnames, hlist hargs' ih hlists]
    | methodCall hreceiver' _ hargs' =>
      rw [pieces_call, pieces_methodCall hreceiver'.filled] at heq
      obtain ⟨hnames, -⟩ := call_injective (hshown hargs) (hshown hargs') heq
      exact absurd hnames (name_ne_member hname _ _)
    | _ => cases hroot
  | methodCall hreceiver hname hargs ihr ih =>
    intro e' h' heq
    have hroot := (Settled.methodCall hreceiver hname hargs).shape_eq h' heq
    cases h' with
    | methodCall hreceiver' hname' hargs' =>
      rw [pieces_methodCall hreceiver.filled, pieces_methodCall hreceiver'.filled] at heq
      obtain ⟨hmember, hlists⟩ := call_injective (hshown hargs) (hshown hargs') heq
      obtain ⟨hbefore, hnames⟩ := member_injective hname hname' hmember
      rw [hsame hreceiver hreceiver' ihr hbefore, hnames, hlist hargs' ih hlists]
    | call hname' hargs' =>
      rw [pieces_call, pieces_methodCall hreceiver.filled] at heq
      obtain ⟨hnames, -⟩ := call_injective (hshown hargs) (hshown hargs') heq
      exact absurd hnames.symm (name_ne_member hname' _ _)
    | _ => cases hroot
  | @sign op e hop h ih =>
    intro e' h' heq
    have hroot := (Settled.sign hop h).shape_eq h' heq
    cases h' with
    | @sign op' e' hop' h' =>
      rw [pieces_sign h.bare, pieces_sign h'.bare] at heq
      have hlength : ∀ op ∈ Operator.signs, op.text.toList.length = 1 := by decide
      obtain ⟨htext, he⟩ := List.append_inj heq
        (by simp only [spelled, List.length_map, hlength op hop, hlength op' hop'])
      rw [operator_injective (List.mem_append_left _ hop) (List.mem_append_left _ hop') htext,
        ih h' he]
    | _ => cases hroot
  | @step op e hop h ih =>
    intro e' h' heq
    have hroot := (Settled.step hop h).shape_eq h' heq
    cases h' with
    | @step op' e' hop' h' =>
      rw [pieces_step, pieces_step] at heq
      have hlength : ∀ op ∈ Operator.steps, op.text.toList.length = 2 := by decide
      obtain ⟨he, htext⟩ := List.append_inj' heq
        (by simp only [spelled, List.length_map, hlength op hop, hlength op' hop'])
      rw [operator_injective (List.mem_append_right _ hop) (List.mem_append_right _ hop') htext,
        hsame h h' ih he]
    | _ => cases hroot
  | index harray hold hposition iha ihp =>
    intro e' h' heq
    have hroot := (Settled.index harray hold hposition).shape_eq h' heq
    cases h' with
    | index harray' _ hposition' =>
      rw [pieces_index, pieces_index] at heq
      obtain ⟨harrays, hpositions⟩ := List.append_inj' heq rfl
      simp only [List.cons.injEq, Piece.group.injEq, true_and, and_true] at hpositions
      rw [hsame harray harray' iha harrays, ihp hposition' hpositions]
    | _ => cases hroot
  | creation htype hdims ih =>
    intro e' h' heq
    have hroot := (Settled.creation htype hdims).shape_eq h' heq
    cases h' with
    | creation _ hdims' =>
      rw [pieces_creation_eq, pieces_creation_eq] at heq
      obtain ⟨htypes, hlists⟩ := creationPieces_injective heq
      rw [htypes, hlist hdims' ih hlists]
    | _ => cases hroot

/-! ## Taking signs together -/

end Printer

namespace Expr

/-- A sign in front of an expression; with the same sign behind it, a step. -/
def joinedSign (op : Operator) (e : Expr) : Expr :=
  match op, e with
  | .add, .unary _ .add e false => .unary .nowhere .inc e false
  | .sub, .unary _ .sub e false => .unary .nowhere .dec e false
  | _, _ => .unary .nowhere op e false

mutual

/-- A regrouped expression with two signs that meet taken as one operator. -/
def joined : Expr -> Expr
  | .call _ receiver name args _ => .call .nowhere receiver.joined name (joinedEach args) ""
  | .unary _ op e trailing =>
      if trailing then .unary .nowhere op e.joined true else joinedSign op e.joined
  | .index _ array position _ => .index .nowhere array.joined position.joined ""
  | .newArray _ elemType dims elements listed =>
      .newArray .nowhere elemType (joinedEach dims) (joinedEach elements) listed
  | e => e

def joinedEach : List Expr -> List Expr
  | [] => []
  | e :: rest => e.joined :: joinedEach rest

end

theorem joinedEach_eq_map (l : List Expr) : joinedEach l = l.map joined := by
  induction l with
  | nil => rfl
  | cons e l ih => rw [joinedEach, ih, List.map_cons]

theorem allApart_eq_all (l : List Expr) : allApart l = l.all isApart := by
  induction l with
  | nil => rfl
  | cons e l ih => rw [allApart, ih, List.all_cons]

theorem leadingSign?_untyped (e : Expr) : e.untyped.leadingSign? = e.leadingSign? := by
  cases e with
  | unary _ _ _ trailing => cases trailing <;> rfl
  | _ => rfl

theorem joinedSign_of_ne {op : Operator} {e : Expr}
    (h : op ∈ [Operator.add, Operator.sub] -> e.leadingSign? ≠ some op) :
    joinedSign op e = .unary .nowhere op e false := by
  unfold joinedSign
  split
  · exact absurd rfl (h (by decide))
  · exact absurd rfl (h (by decide))
  · rfl

/-- A prefix operator is found again, unless its operand starts with its sign. -/
theorem joined_signed {op : Operator} {e : Expr} (hop : op ∈ Operator.prefixes)
    (h : signsMeet op e.joined = false) : (signed op e).joined = .unary .nowhere op e.joined false := by
  have hfirst : joinedSign op.sign e.joined = .unary .nowhere op.sign e.joined false := by
    refine joinedSign_of_ne fun hsign hmeet => ?_
    simp only [List.mem_cons, List.not_mem_nil, or_false] at hsign
    simp only [signsMeet, hmeet, beq_self_eq_true, Bool.and_true, Bool.or_eq_false_iff,
      beq_eq_false_iff_ne] at h
    exact hsign.elim h.1 h.2
  have hstep : (signed op e).joined =
      if op.isStep then joinedSign op.sign (joinedSign op.sign e.joined)
      else joinedSign op.sign e.joined := by
    unfold signed
    split <;> rfl
  rw [hstep, hfirst]
  simp only [Operator.prefixes, List.mem_cons, List.not_mem_nil, or_false] at hop
  obtain rfl | rfl | rfl | rfl | rfl | rfl := hop <;> rfl

theorem indexed_of_old {array position : Expr} (h : array.isCreation = false) :
    indexed array position = .index .nowhere array position "" := by
  unfold indexed
  split
  · cases h
  · rfl

end Expr

namespace Printer

theorem AffixForm.isCreation_regrouped {e : Expr} (h : AffixForm e) (hapart : e.isApart = true) :
    e.regrouped.isCreation = e.isCreation := by
  induction h with
  | sign =>
    rw [Expr.regrouped, if_neg Bool.false_ne_true]
    simp only [Expr.signed]
    split <;> rfl
  | index _ _ iha _ =>
    simp only [Expr.isApart, Bool.and_eq_true, Bool.not_eq_true'] at hapart
    rw [Expr.regrouped, Expr.indexed_of_old ((iha hapart.1.1).trans hapart.2)]
    rfl
  | _ => rfl

/-- Where nothing meets, regrouping can be undone. -/
theorem AffixForm.joined_regrouped {e : Expr} (h : AffixForm e) (hapart : e.isApart = true) :
    e.regrouped.joined = e.untyped := by
  have heach {l : List Expr} (ih : ∀ e ∈ l, e.isApart = true -> e.regrouped.joined = e.untyped)
      (hapart : Expr.allApart l = true) :
      Expr.joinedEach (Expr.regroupedEach l) = untypedEach l := by
    rw [Expr.allApart_eq_all, List.all_eq_true] at hapart
    rw [Expr.joinedEach_eq_map, regroupedEach_eq_map, untypedEach_eq_map, List.map_map]
    exact List.map_congr_left fun e he => ih e he (hapart e he)
  induction h with
  | name => rfl
  | call _ _ ih =>
    simp only [Expr.isApart, Bool.and_eq_true] at hapart
    simp only [Expr.regrouped, Expr.joined, Expr.untyped, heach ih hapart.2]
  | methodCall _ _ _ ihr ih =>
    simp only [Expr.isApart, Bool.and_eq_true] at hapart
    simp only [Expr.regrouped, Expr.joined, Expr.untyped, ihr hapart.1, heach ih hapart.2]
  | @sign _ op e hop _ ih =>
    simp only [Expr.isApart, Bool.false_or, Bool.and_eq_true, Bool.not_eq_true'] at hapart
    have hjoined := ih hapart.1
    have hmeet : Expr.signsMeet op e.regrouped.joined = false := by
      rw [hjoined, Expr.signsMeet, Expr.leadingSign?_untyped]
      exact hapart.2
    rw [Expr.regrouped, if_neg Bool.false_ne_true, Expr.joined_signed hop hmeet, hjoined,
      Expr.untyped]
  | step _ _ ih =>
    simp only [Expr.isApart, Bool.true_or, Bool.and_true] at hapart
    simp only [Expr.regrouped, Expr.joined, Expr.untyped, ih hapart, if_true]
  | index harray _ iha ihp =>
    simp only [Expr.isApart, Bool.and_eq_true, Bool.not_eq_true'] at hapart
    have hold := (harray.isCreation_regrouped hapart.1.1).trans hapart.2
    simp only [Expr.regrouped, Expr.indexed_of_old hold, Expr.joined, Expr.untyped,
      iha hapart.1.1, ihp hapart.1.2]
  | creation _ _ ih =>
    simp only [Expr.isApart, Bool.and_eq_true] at hapart
    simp only [Expr.regrouped, Expr.joined, Expr.untyped, heach ih hapart.1, Expr.regroupedEach,
      Expr.joinedEach, untypedEach]

/--
Prefix and postfix expressions have one text exactly if they are regrouped to one tree.
Where no sign meets its like and no new array is indexed at once, the text determines the
tree up to spans and static types.
-/
theorem print_eq_iff_regrouped {e e' : Expr} (h : AffixForm e) (h' : AffixForm e') :
    ((Node.expr e).print = (Node.expr e').print ↔ e.regrouped = e'.regrouped) ∧
      (e.isApart = true -> e'.isApart = true -> (Node.expr e).print = (Node.expr e').print ->
        e.untyped = e'.untyped) := by
  have henclosable {e : Expr} (h : AffixForm e) : ∀ p ∈ pieces e, p.Enclosable :=
    h.pieces_regrouped ▸ h.settled.enclosable
  have hiff : (Node.expr e).print = (Node.expr e').print ↔ e.regrouped = e'.regrouped := by
    rw [print_eq_iff_pieces h.filled h'.filled (henclosable h) (henclosable h'),
      ← h.pieces_regrouped, ← h'.pieces_regrouped]
    exact ⟨h.settled.pieces_injective h'.settled, congrArg pieces⟩
  refine ⟨hiff, fun hapart hapart' htext => ?_⟩
  rw [← h.joined_regrouped hapart, hiff.mp htext, h'.joined_regrouped hapart']

/-- The tree of `-rows[i++].get(new T[n])`. -/
def rowExpr (type : String) : Expr :=
  .unary .nowhere .sub
    (.call .nowhere
      (.index .nowhere (.ident .nowhere "rows" type)
        (.unary .nowhere .inc (.ident .nowhere "i" type) true) type)
      "get" [.newArray .nowhere "T" [.ident .nowhere "n" type] [] false] type) false

theorem affixForm_rowExpr (type : String) : AffixForm (rowExpr type) := by
  have hname {name : String} (h : isName name = true) : AffixForm (.ident .nowhere name type) := .name h
  refine .sign (by decide) (.methodCall (.index (hname (by decide))
    (.step (by decide) (hname (by decide)))) (by decide) ?_)
  simpa using AffixForm.creation (by decide) (by simpa using hname (by decide))

/-- A minus before a negated name has the text of a decrement; nothing meets in `rowExpr`. -/
theorem print_eq_iff_regrouped_rowExpr :
    let x : Expr := .ident .nowhere "x" ""
    let negated : Expr := .unary .nowhere .sub (.unary .nowhere .sub x false) false
    let decrement : Expr := .unary .nowhere .dec x false
    (AffixForm negated ∧ AffixForm decrement ∧ (Node.expr negated).print = "--x" ∧
      (Node.expr decrement).print = "--x" ∧ negated.regrouped = decrement.regrouped) ∧
    AffixForm (rowExpr "int") ∧ AffixForm (rowExpr "") ∧ (rowExpr "int").isApart = true ∧
      (rowExpr "").isApart = true ∧
      (Node.expr (rowExpr "int")).print = (Node.expr (rowExpr "")).print ∧
      (rowExpr "int").untyped = (rowExpr "").untyped := by
  intro x negated decrement
  have hx : AffixForm x := .name (by decide)
  have hnegated : AffixForm negated := .sign (by decide) (.sign (by decide) hx)
  have hdecrement : AffixForm decrement := .sign (by decide) hx
  have htext : (Node.expr negated).print = (Node.expr decrement).print := by decide +kernel
  have hrows : (Node.expr (rowExpr "int")).print = (Node.expr (rowExpr "")).print := by
    decide +kernel
  refine ⟨⟨hnegated, hdecrement, by decide +kernel, by decide +kernel,
    (print_eq_iff_regrouped hnegated hdecrement).1.mp htext⟩, affixForm_rowExpr _,
    affixForm_rowExpr _, by decide, by decide, hrows, ?_⟩
  exact (print_eq_iff_regrouped (affixForm_rowExpr "int") (affixForm_rowExpr "")).2 (by decide)
    (by decide) hrows

end Printer

end EarlyExit
