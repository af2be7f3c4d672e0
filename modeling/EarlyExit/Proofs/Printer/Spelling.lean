import EarlyExit.Proofs.Printer.Pieces

/-!
# Expressions in pieces

The printer once more, with pieces in the place of text: a part that it sets in brackets
is one piece.  Names are free of everything the printer writes between them, so a name
ends where it seems to end.
-/

namespace EarlyExit

namespace Printer

/-! ## Wrapping -/

def isOperandWrapped (suffixed : Bool) : Expr -> Bool
  | .binary .. | .conditional .. | .assign .. | .lambda .. => true
  | .unary .. => suffixed
  | _ => false

def isSideWrapped (op : Operator) (isRight : Bool) : Expr -> Bool
  | .binary _ _ inner _ =>
      inner.precedence < op.precedence || (isRight && inner.precedence == op.precedence)
  | .conditional .. | .assign .. | .lambda .. => true
  | _ => false

theorem operand_eq (e : Expr) (suffixed : Bool) (text : String) :
    operand e suffixed text = if isOperandWrapped suffixed e then parens text else text := by
  cases e <;> rfl

theorem side_eq (op : Operator) (isRight : Bool) (e : Expr) (text : String) :
    side op isRight e text = if isSideWrapped op isRight e then parens text else text := by
  cases e <;> rfl

def spelled (s : String) : List Piece :=
  s.toList.map .char

def wrapped (wrap : Bool) (ps : List Piece) : List Piece :=
  if wrap then [.group false ps] else ps

/-- A sign or an operator with a blank on both sides. -/
def spaced (mark : String) : List Piece :=
  .char ' ' :: (spelled mark ++ [.char ' '])

def commas (parts : List (List Piece)) : List Piece :=
  [.char ',', .char ' '].intercalate parts

mutual

/-- The pieces of an expression's text.  Switches, templates and blocks are spelled whole. -/
def pieces : Expr -> List Piece
  | .missing => []
  | .ident _ name _ => spelled name
  | .literal _ value raw => spelled (literalText value raw)
  | .call _ receiver name args _ =>
      (if receiver.isMissing then []
        else wrapped (isOperandWrapped true receiver) (pieces receiver) ++ [.char '.']) ++
        (spelled name ++ [.group false (commas (piecesEach args))])
  | .field _ target name _ =>
      wrapped (isOperandWrapped true target) (pieces target) ++ [.char '.'] ++ spelled name
  | .assign _ target op value => pieces target ++ spaced op.text ++ pieces value
  | .binary _ left op right =>
      wrapped (isSideWrapped op false left) (pieces left) ++ spaced op.text ++
        wrapped (isSideWrapped op true right) (pieces right)
  | .unary _ op e trailing =>
      if trailing then wrapped (isOperandWrapped true e) (pieces e) ++ spelled op.text
      else spelled op.text ++ wrapped (isOperandWrapped false e) (pieces e)
  | .conditional _ test onTrue onFalse _ =>
      wrapped (isOperandWrapped false test) (pieces test) ++ spaced "?" ++
        (wrapped (isOperandWrapped false onTrue) (pieces onTrue) ++ spaced ":" ++
          wrapped (isOperandWrapped false onFalse) (pieces onFalse))
  | .index _ array position _ =>
      wrapped (isOperandWrapped true array) (pieces array) ++ [.group true (pieces position)]
  | .newArray span elemType dims elements listed =>
      if listed then spelled (exprText 0 (.newArray span elemType dims elements listed))
      else spelled "new " ++ spelled elemType ++ (piecesEach dims).map (.group true)
  | .newObject _ className args =>
      spelled "new " ++ spelled className ++ [.group false (commas (piecesEach args))]
  | .lambda _ params body =>
      .group false (commas (params.map (spelled ∘ paramText))) ::
        (spaced "->" ++ bodyPieces body)
  | .switch span selector cases type => spelled (exprText 0 (.switch span selector cases type))
  | .template span processor fragments values =>
      spelled (exprText 0 (.template span processor fragments values))

def piecesEach : List Expr -> List (List Piece)
  | [] => []
  | e :: rest => pieces e :: piecesEach rest

def bodyPieces : Body -> List Piece
  | .value e => if e.isMissing then spelled (bodyText 0 (.value e)) else pieces e
  | .block b => spelled (bodyText 0 (.block b))

end

theorem piecesEach_eq_map (l : List Expr) : piecesEach l = l.map pieces := by
  induction l with
  | nil => rfl
  | cons e l ih => rw [piecesEach, ih, List.map_cons]

/-! ## The pieces make the text -/

open Piece

@[simp] theorem renderAll_spelled (s : String) : renderAll (spelled s) = s.toList := by
  unfold spelled
  induction s.toList with
  | nil => rfl
  | cons c l ih => simp [renderAll, render, ih]

@[simp] theorem renderAll_nil : renderAll [] = [] :=
  rfl

@[simp] theorem renderAll_char (c : Char) (ps : List Piece) :
    renderAll (.char c :: ps) = c :: renderAll ps :=
  rfl

theorem renderAll_parens {ps : List Piece} {text : String} (h : renderAll ps = text.toList)
    (rest : List Piece) :
    renderAll (.group false ps :: rest) = (parens text).toList ++ renderAll rest := by
  simp [renderAll, render, parens, opening, closing, h]

theorem renderAll_wrapped (wrap : Bool) {ps : List Piece} {text : String}
    (h : renderAll ps = text.toList) :
    renderAll (wrapped wrap ps) = (if wrap then parens text else text).toList := by
  cases wrap with
  | true => simpa [wrapped] using renderAll_parens h []
  | false => exact h

theorem renderAll_spaced (mark : String) :
    renderAll (spaced mark) = (" " ++ mark ++ " ").toList := by
  simp [spaced]

theorem renderAll_commas {parts : List (List Piece)} {texts : List String}
    (h : parts.map renderAll = texts.map String.toList) :
    renderAll (commas parts) = (commaList texts).toList := by
  have hsep : renderAll [.char ',', .char ' '] = ", ".toList := rfl
  rw [commas, renderAll_intercalate, hsep, h, commaList, String.toList_intercalate]

theorem renderAll_squares {parts : List (List Piece)} {texts : List String}
    (h : parts.map renderAll = texts.map String.toList) :
    renderAll (parts.map (.group true)) =
      (String.join (texts.map fun dim => "[" ++ dim ++ "]")).toList := by
  induction parts generalizing texts with
  | nil =>
    obtain rfl : texts = [] := by simpa using h.symm
    rfl
  | cons p parts ih =>
    cases texts with
    | nil => simp at h
    | cons t texts =>
      simp only [List.map_cons, List.cons.injEq] at h
      simp [renderAll, render, opening, closing, String.join_cons, h.1, ih h.2]

mutual

theorem renderAll_pieces : (e : Expr) -> renderAll (pieces e) = (exprText 0 e).toList
  | .missing => rfl
  | .ident .. => by rw [pieces, renderAll_spelled, exprText]
  | .literal .. => by rw [pieces, renderAll_spelled, exprText]
  | .call _ receiver name args _ => by
    have hreceiver := renderAll_wrapped (isOperandWrapped true receiver) (renderAll_pieces receiver)
    have hargs := renderAll_parens (renderAll_commas (renderAll_piecesEach args))
    cases h : receiver.isMissing
    · simp [pieces, exprText, operand_eq, h, hreceiver, hargs]
    · simp [pieces, exprText, h, hargs]
  | .field _ target _ _ => by
    have htarget := renderAll_wrapped (isOperandWrapped true target) (renderAll_pieces target)
    simp [pieces, exprText, operand_eq, htarget]
  | .assign _ target op value => by
    simp [pieces, exprText, renderAll_spaced, renderAll_pieces target, renderAll_pieces value]
  | .binary _ left op right => by
    have hleft := renderAll_wrapped (isSideWrapped op false left) (renderAll_pieces left)
    have hright := renderAll_wrapped (isSideWrapped op true right) (renderAll_pieces right)
    simp [pieces, exprText, side_eq, renderAll_spaced, hleft, hright]
  | .unary _ op e trailing => by
    have hbefore := renderAll_wrapped (isOperandWrapped true e) (renderAll_pieces e)
    have hbehind := renderAll_wrapped (isOperandWrapped false e) (renderAll_pieces e)
    cases trailing <;> simp [pieces, exprText, operand_eq, hbefore, hbehind]
  | .conditional _ test onTrue onFalse _ => by
    have htest := renderAll_wrapped (isOperandWrapped false test) (renderAll_pieces test)
    have htrue := renderAll_wrapped (isOperandWrapped false onTrue) (renderAll_pieces onTrue)
    have hfalse := renderAll_wrapped (isOperandWrapped false onFalse) (renderAll_pieces onFalse)
    simp [pieces, exprText, operand_eq, renderAll_spaced, htest, htrue, hfalse]
  | .index _ array position _ => by
    have harray := renderAll_wrapped (isOperandWrapped true array) (renderAll_pieces array)
    simp [pieces, exprText, operand_eq, renderAll, render, opening, closing, harray,
      renderAll_pieces position]
  | .newArray _ elemType dims elements listed => by
    cases listed with
    | true => rw [pieces, if_pos rfl, renderAll_spelled]
    | false => simp [pieces, exprText, renderAll_squares (renderAll_piecesEach dims)]
  | .newObject _ className args => by
    have hargs := renderAll_parens (renderAll_commas (renderAll_piecesEach args))
    simp [pieces, exprText, hargs]
  | .lambda _ params body => by
    have hparams : (params.map (spelled ∘ paramText)).map renderAll =
        (params.map paramText).map String.toList := by simp
    have hhead := renderAll_parens (renderAll_commas hparams)
    simp [pieces, exprText, renderAll_spaced, paramList, hhead, renderAll_bodyPieces body]
  | .switch .. => by rw [pieces, renderAll_spelled]
  | .template .. => by rw [pieces, renderAll_spelled]

theorem renderAll_piecesEach : (l : List Expr) ->
    (piecesEach l).map renderAll = (exprTexts 0 l).map String.toList
  | [] => rfl
  | e :: rest => by
    rw [piecesEach, exprTexts, List.map_cons, List.map_cons, renderAll_pieces e,
      renderAll_piecesEach rest]

theorem renderAll_bodyPieces : (b : Body) -> renderAll (bodyPieces b) = (bodyText 0 b).toList
  | .value e => by
    have he := renderAll_pieces e
    cases e with
    | missing => simp [bodyPieces, Expr.isMissing]
    | _ => simpa [bodyPieces, bodyText, Expr.isMissing] using he
  | .block _ => by rw [bodyPieces, renderAll_spelled]

end

/-! ## Names -/

/-- The characters of names: letters and digits of any alphabet, `_` and `$`. -/
def isLetter (c : Char) : Bool :=
  c.isAlphanum || c == '_' || c == '$' || 127 < c.toNat

def isName (s : String) : Bool :=
  s.toList != [] && s.toList.all isLetter

namespace Piece

def isLetter : Piece -> Bool
  | .char c => Printer.isLetter c
  | .group .. => false

def isGroup : Piece -> Bool
  | .char _ => false
  | .group .. => true

def isChar (c : Char) : Piece -> Bool
  | .char c' => c == c'
  | .group .. => false

theorem isChar_iff {c : Char} {p : Piece} : p.isChar c = true ↔ p = .char c := by
  cases p with
  | char c' => rw [isChar, beq_iff_eq, Piece.char.injEq, eq_comm]
  | group => simp [isChar]

/-- What may stand in an argument: no loose bracket and no comma. -/
def Enclosable (p : Piece) : Prop :=
  p.Balanced ∧ p ≠ .char ','

theorem enclosable_char {c : Char} (h : isBracket c = false) (hc : c ≠ ',') :
    (Piece.char c).Enclosable :=
  ⟨.char h, by simpa using hc⟩

end Piece

theorem spelled_injective {s t : String} (h : spelled s = spelled t) : s = t := by
  have hlists : s.toList = t.toList :=
    List.map_injective_iff.mpr (fun _ _ hc => Piece.char.inj hc) h
  exact String.toList_injective hlists

theorem mem_spelled {s : String} {p : Piece} : p ∈ spelled s ↔ ∃ c ∈ s.toList, .char c = p := by
  simp [spelled]

theorem spelled_append (s t : String) : spelled (s ++ t) = spelled s ++ spelled t := by
  simp [spelled]

theorem spelled_ne_nil {s : String} (h : isName s = true) : spelled s ≠ [] := by
  simp only [isName, Bool.and_eq_true, bne_iff_ne] at h
  simpa [spelled] using h.1

theorem isLetter_of_mem_spelled {s : String} (h : isName s = true) {p : Piece}
    (hp : p ∈ spelled s) : p.isLetter = true := by
  obtain ⟨c, hc, rfl⟩ := mem_spelled.mp hp
  simp only [isName, Bool.and_eq_true, List.all_eq_true] at h
  exact h.2 c hc

theorem exists_char_spelled {s : String} (h : isName s = true) : ∃ c, .char c ∈ spelled s := by
  obtain ⟨p, hp⟩ := List.exists_mem_of_ne_nil _ (spelled_ne_nil h)
  obtain ⟨c, -, rfl⟩ := mem_spelled.mp hp
  exact ⟨c, hp⟩

theorem any_dot_spelled {name : String} (h : isName name = true) :
    (spelled name).any (Piece.isChar '.') = false := by
  rw [List.any_eq_false]
  intro p hp hdot
  obtain rfl := Piece.isChar_iff.mp hdot
  exact absurd (isLetter_of_mem_spelled h hp) (by decide)

/-- No name holds a dot. -/
theorem name_ne_member {name : String} (h : isName name = true) (ps qs : List Piece) :
    spelled name ≠ ps ++ [.char '.'] ++ qs := by
  intro heq
  have hdot := any_dot_spelled h
  simp [heq, Piece.isChar] at hdot

/-- A text that ends with a word ends with a character of it. -/
theorem getLast?_append_spelled {s : String} (h : spelled s ≠ []) (ps : List Piece) :
    ∃ c ∈ s.toList, (ps ++ spelled s).getLast? = some (.char c) := by
  obtain ⟨c, hc, hlast⟩ := mem_spelled.mp (List.getLast_mem h)
  exact ⟨c, hc, by rw [List.getLast?_append, List.getLast?_eq_some_getLast h, ← hlast]; rfl⟩

theorem Piece.enclosable_of_isLetter {p : Piece} (h : p.isLetter = true) : p.Enclosable := by
  cases p with
  | char c =>
    refine enclosable_char ?_ ?_
    · by_contra hb
      simp only [isBracket, Bool.not_eq_false, Bool.or_eq_true, beq_iff_eq] at hb
      obtain ((rfl | rfl) | rfl) | rfl := hb <;> exact absurd h (by decide)
    · rintro rfl
      exact absurd h (by decide)
  | group => cases h

/-- Whether the character neither opens or closes brackets nor separates what stands in them. -/
def isPlain (c : Char) : Bool :=
  !isBracket c && c != ','

theorem enclosable_spelled {s : String} (h : s.toList.all isPlain = true) :
    ∀ p ∈ spelled s, p.Enclosable := by
  intro p hp
  obtain ⟨c, hc, rfl⟩ := mem_spelled.mp hp
  obtain ⟨hbracket, hcomma⟩ : isBracket c = false ∧ c ≠ ',' := by
    simpa [isPlain] using List.all_eq_true.mp h c hc
  exact Piece.enclosable_char hbracket hcomma

theorem enclosable_name {s : String} (h : isName s = true) : ∀ p ∈ spelled s, p.Enclosable :=
  fun _ hp => Piece.enclosable_of_isLetter (isLetter_of_mem_spelled h hp)

theorem enclosable_dot : ∀ p ∈ [Piece.char '.'], p.Enclosable := by
  simpa using Piece.enclosable_char rfl (by decide)

theorem enclosable_wrapped {wrap : Bool} {ps : List Piece} (h : ∀ p ∈ ps, p.Enclosable) :
    ∀ p ∈ wrapped wrap ps, p.Enclosable := by
  cases wrap with
  | false => exact h
  | true =>
    intro p hp
    obtain rfl := List.mem_singleton.mp hp
    exact ⟨.group fun q hq => (h q hq).1, by simp⟩

theorem balanced_commas {parts : List (List Piece)}
    (h : ∀ ps ∈ parts, ∀ p ∈ ps, p.Enclosable) : ∀ p ∈ commas parts, p.Balanced := by
  induction parts with
  | nil => simp [commas]
  | cons ps parts ih =>
    have hhead : ∀ p ∈ ps, p.Balanced := fun p hp => (h ps List.mem_cons_self p hp).1
    cases parts with
    | nil => simpa [commas] using hhead
    | cons qs parts =>
      have hrest := ih fun rs hrs => h rs (List.mem_cons_of_mem _ hrs)
      rw [commas, List.intercalate_cons_cons, ← commas]
      simp only [List.forall_mem_append]
      exact ⟨⟨hhead, by simp [Balanced.char, isBracket]⟩, hrest⟩

theorem enclosable_commas {parts : List (List Piece)}
    (h : ∀ ps ∈ parts, ∀ p ∈ ps, p.Enclosable) : (Piece.group false (commas parts)).Enclosable :=
  ⟨.group (balanced_commas h), by simp⟩

theorem commas_injective {parts parts' : List (List Piece)}
    (h : ∀ ps ∈ parts, ps ≠ [] ∧ ∀ p ∈ ps, p.Enclosable)
    (h' : ∀ ps ∈ parts', ps ≠ [] ∧ ∀ p ∈ ps, p.Enclosable) (heq : commas parts = commas parts') :
    parts = parts' := by
  have hcomma {ps : List Piece} (hps : ps ≠ [] ∧ ∀ p ∈ ps, p.Enclosable) :
      ps ≠ [] ∧ .char ',' ∉ ps := ⟨hps.1, fun hc => (hps.2 _ hc).2 rfl⟩
  exact intercalate_injective (fun ps hps => hcomma (h ps hps)) (fun ps hps => hcomma (h' ps hps))
    heq

/-- Wrapped or not, parts that are not in brackets themselves are seen through the wrapping. -/
theorem wrapped_injective {wrap wrap' : Bool} {ps qs : List Piece}
    (hps : ∀ inside, ps ≠ [.group false inside]) (hqs : ∀ inside, qs ≠ [.group false inside])
    (h : wrapped wrap ps = wrapped wrap' qs) : ps = qs := by
  cases wrap <;> cases wrap' <;> simp only [wrapped, if_true, Bool.false_eq_true, if_false] at h
  · exact h
  · exact absurd h (hps qs)
  · exact absurd h.symm (hqs ps)
  · simpa using h

/-- The name behind the last dot is determined, and so is what stands before the dot. -/
theorem member_injective {ps qs : List Piece} {name name' : String} (hname : isName name = true)
    (hname' : isName name' = true)
    (h : ps ++ [.char '.'] ++ spelled name = qs ++ [.char '.'] ++ spelled name') :
    ps = qs ∧ name = name' := by
  have hletters {s : String} (hs : isName s = true) : ∀ p ∈ spelled s, ¬ p = .char '.' := by
    rintro p hp rfl
    exact absurd (isLetter_of_mem_spelled hs hp) (by decide)
  obtain ⟨hps, hnames⟩ := cut_unique_right (· = Piece.char '.') (hletters hname)
    (hletters hname') (by simp) (by simp) h
  exact ⟨by simpa using hps, spelled_injective hnames⟩

theorem pieces_call (span : Span) (name : String) (args : List Expr) (type : String) :
    pieces (.call span .missing name args type) =
      spelled name ++ [.group false (commas (piecesEach args))] :=
  rfl

theorem pieces_methodCall {receiver : Expr} (h : receiver.isMissing = false) (span : Span)
    (name : String) (args : List Expr) (type : String) :
    pieces (.call span receiver name args type) =
      wrapped (isOperandWrapped true receiver) (pieces receiver) ++ [.char '.'] ++ spelled name ++
        [.group false (commas (piecesEach args))] := by
  rw [pieces, h, if_neg Bool.false_ne_true, List.append_assoc _ (spelled name)]

/-- The arguments of a call are determined, and so is what stands before them. -/
theorem call_injective {before before' : List Piece} {args args' : List Expr}
    (hargs : ∀ a ∈ args, pieces a ≠ [] ∧ ∀ p ∈ pieces a, p.Enclosable)
    (hargs' : ∀ a ∈ args', pieces a ≠ [] ∧ ∀ p ∈ pieces a, p.Enclosable)
    (h : before ++ [.group false (commas (piecesEach args))] =
      before' ++ [.group false (commas (piecesEach args'))]) :
    before = before' ∧ piecesEach args = piecesEach args' := by
  obtain ⟨hbefore, hgroup⟩ := List.append_inj' h rfl
  simp only [List.cons.injEq, Piece.group.injEq, true_and, and_true] at hgroup
  refine ⟨hbefore, commas_injective ?_ ?_ hgroup⟩
  · simpa only [piecesEach_eq_map, List.forall_mem_map] using hargs
  · simpa only [piecesEach_eq_map, List.forall_mem_map] using hargs'

/-- Expressions of one text have the same pieces. -/
theorem print_eq_iff_pieces {e e' : Expr} (hmissing : e.isMissing = false)
    (hmissing' : e'.isMissing = false) (h : ∀ p ∈ pieces e, p.Enclosable)
    (h' : ∀ p ∈ pieces e', p.Enclosable) :
    (Node.expr e).print = (Node.expr e').print ↔ pieces e = pieces e' := by
  have hprint {e : Expr} (hmissing : e.isMissing = false) :
      (Node.expr e).print.toList = renderAll (pieces e) := by
    rw [renderAll_pieces]
    cases e <;> first | rfl | simp [Expr.isMissing] at hmissing
  have hnothing : Closes [] := by simp [Closes]
  rw [← String.toList_inj, hprint hmissing, hprint hmissing']
  constructor
  · intro heq
    exact (renderAll_injective _ _ (fun p hp => (h p hp).1) (fun p hp => (h' p hp).1) hnothing
      hnothing (by rw [heq])).1
  · exact congrArg renderAll

end Printer

/-! ## Trees up to what is not printed -/

def Param.unplaced (p : Param) : Param :=
  { p with span := .nowhere }

mutual

/--
The expression without its spans and static types.  The arms of a switch and the block of
a lambda are left as they are.
-/
def Expr.untyped : Expr -> Expr
  | .missing => .missing
  | .ident _ name _ => .ident .nowhere name ""
  | .literal _ value raw => .literal .nowhere value raw
  | .call _ receiver name args _ => .call .nowhere receiver.untyped name (untypedEach args) ""
  | .field _ target name _ => .field .nowhere target.untyped name ""
  | .assign _ target op value => .assign .nowhere target.untyped op value.untyped
  | .binary _ left op right => .binary .nowhere left.untyped op right.untyped
  | .unary _ op e trailing => .unary .nowhere op e.untyped trailing
  | .conditional _ test onTrue onFalse _ =>
      .conditional .nowhere test.untyped onTrue.untyped onFalse.untyped ""
  | .index _ array position _ => .index .nowhere array.untyped position.untyped ""
  | .newArray _ elemType dims elements listed =>
      .newArray .nowhere elemType (untypedEach dims) (untypedEach elements) listed
  | .newObject _ className args => .newObject .nowhere className (untypedEach args)
  | .lambda _ params body => .lambda .nowhere (params.map Param.unplaced) body.untyped
  | .switch _ selector cases _ => .switch .nowhere selector.untyped cases ""
  | .template _ processor fragments values =>
      .template .nowhere processor fragments (untypedEach values)

def untypedEach : List Expr -> List Expr
  | [] => []
  | e :: rest => e.untyped :: untypedEach rest

def Body.untyped : Body -> Body
  | .value e => .value e.untyped
  | .block b => .block b

end

theorem untypedEach_eq_map (l : List Expr) : untypedEach l = l.map Expr.untyped := by
  induction l with
  | nil => rfl
  | cons e l ih => rw [untypedEach, ih, List.map_cons]

end EarlyExit
