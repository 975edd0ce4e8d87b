import XPath.Proofs.Lexing

/-!
# Where a reader is in a chain

Between two tokens of a chain a cursor stands either behind an operand, before the steps that are
still to come (`Behind`), or before an operand (`BeforeOperand`). What the next token is follows
from these alone. The text behind the chain only has to end it (`Closing`).
-/

namespace XPath

open Parse

/-! ### Behind the chain -/

/-- Neither an operator nor anything that goes on with a path. -/
def Token.Closes (t : Token) : Prop :=
  t.precedence? = none ∧ t ≠ .leftBracket ∧ t ≠ .slash ∧ t ≠ .slashSlash

theorem Token.closes_eof : Token.Closes .eof := ⟨rfl, by simp, by simp, by simp⟩

theorem Token.closes_comma : Token.Closes .comma := ⟨rfl, by simp, by simp, by simp⟩

theorem Token.closes_returnWord : Token.Closes .returnWord := ⟨rfl, by simp, by simp, by simp⟩

theorem Cursor.advance_nil {c : Cursor} (hrest : c.rest = []) :
    ∃ d, c.advance = (.ok (), d) ∧ d.token = .eof := by
  have hgap : Token.trivia c.rest = some ([], []) := by
    rw [hrest]
    rfl
  have hread : Lexeme.read c.token [] = .ok ⟨.eof, "", [], []⟩ := rfl
  exact ⟨_, advance_eq hgap hread, rfl⟩

theorem Cursor.advance_comma {c : Cursor} {cs : List Char} (hrest : c.rest = ',' :: cs) :
    ∃ d, c.advance = (.ok (), d) ∧ d.token = .comma ∧ d.rest = cs ∧
      d.position = c.position + 1 := by
  have hgap : Token.trivia c.rest = some ([], ',' :: cs) := by
    rw [hrest]
    exact Token.trivia_solid ⟨',', cs, rfl, rfl, by decide⟩
  have hread : Lexeme.read c.token (',' :: cs) = .ok ⟨.comma, "", [','], cs⟩ := rfl
  exact ⟨_, advance_eq hgap hread, rfl, rfl, rfl⟩

/-- A text that ends a chain before it. -/
structure Closing (tail : List Char) : Prop where
  word : Lexeme.EndsWord tail
  name : Lexeme.LeavesName tail
  next : ∀ c : Cursor, c.token.endsOperand = true → c.rest = tail →
    ∃ d, c.advance = (.ok (), d) ∧ d.token.Closes

/-- The end of the source ends a chain. -/
theorem closing_nil : Closing [] where
  word := fun _ hc => by cases hc
  name := ⟨[], [], rfl, fun _ hc => by cases hc⟩
  next := by
    intro c _ hrest
    obtain ⟨d, hd, htoken⟩ := Cursor.advance_nil hrest
    exact ⟨d, hd, htoken ▸ Token.closes_eof⟩

/-! ### The first characters of steps -/

namespace Step

theorem spelling_head {op : BinaryOperator} {spelling : String} (h : spelling ∈ op.spellings) :
    ∃ c ds, spelling.toList = c :: ds ∧ Text.isBlank c = false ∧ c ≠ '(' ∧ c ≠ '$' := by
  cases op with
  | or | and | range =>
      rw [List.mem_singleton.mp h]
      exact ⟨_, _, rfl, rfl, by decide, by decide⟩
  | general op | value op | node op | arithmetic op =>
      cases op <;> rw [List.mem_singleton.mp h] <;> exact ⟨_, _, rfl, rfl, by decide, by decide⟩
  | set op =>
      cases op with
      | union =>
          rcases List.mem_cons.mp h with rfl | h
          · exact ⟨_, _, rfl, rfl, by decide, by decide⟩
          · rw [List.mem_singleton.mp h]
            exact ⟨_, _, rfl, rfl, by decide, by decide⟩
      | intersect | except =>
          rw [List.mem_singleton.mp h]
          exact ⟨_, _, rfl, rfl, by decide, by decide⟩

theorem text_head (s : Step) :
    ∃ c ds, s.text = c :: ds ∧ Text.isBlank c = false ∧ c ≠ '(' ∧ c ≠ '$' := by
  cases s with
  | binary op spelling spelled signs word =>
      obtain ⟨c, ds, hspelling, hc⟩ := spelling_head spelled
      rw [text, hspelling]
      exact ⟨c, _, rfl, hc⟩
  | typed t =>
      rw [text, TypeSuffix.text]
      cases t.op <;> exact ⟨_, _, rfl, rfl, by decide, by decide⟩

theorem isSolid_text (s : Step) (cs : List Char) : Token.IsSolid (s.text ++ cs) := by
  obtain ⟨c, ds, htext, hblank, hparen, -⟩ := s.text_head
  rw [htext]
  exact ⟨c, ds ++ cs, rfl, hblank, hparen⟩

variable {tail : List Char}

/-- A word before steps ends there. -/
theorem endsWord_textOf (ht : Closing tail) (steps : List Step) :
    Lexeme.EndsWord (textOf steps ++ tail) := by
  cases steps with
  | nil => exact ht.word
  | cons s steps =>
      rw [textOf_cons]
      exact Lexeme.endsWord_blank _

/-- A word before steps is a name where an operand may start. -/
theorem leavesName_textOf (ht : Closing tail) (steps : List Step) :
    Lexeme.LeavesName (textOf steps ++ tail) := by
  cases steps with
  | nil => exact ht.name
  | cons s steps =>
      rw [textOf_cons, List.cons_append, List.append_assoc]
      -- operators start with neither a parenthesis nor a dollar sign, so the word is not called
      refine Lexeme.leavesName_blank (s.isSolid_text _) ?_
      obtain ⟨c, ds, htext, -, -, hdollar⟩ := s.text_head
      rw [htext]
      exact fun h => hdollar (Option.some.inj h)

/-- Every step takes up text. -/
theorem length_le_textOf (steps : List Step) : steps.length ≤ (textOf steps).length := by
  induction steps with
  | nil => exact Nat.zero_le _
  | cons s steps ih =>
      rw [textOf_cons, List.length_cons, List.length_cons, List.length_append]
      omega

end Step

/-! ### Cursors before steps -/

/-- The cursor stands behind an operand, before steps that start at byte offset `n`. -/
structure Behind (tail : List Char) (n : Nat) (steps : List Step) (c : Cursor) : Prop where
  ends : c.token.endsOperand = true
  rest : c.rest = Step.textOf steps ++ tail
  position : c.position = n

/-- The cursor stands at the first token of steps, or at the token that ends the chain. -/
def AtSteps (tail : List Char) (n : Nat) (steps : List Step) (d : Cursor) : Prop :=
  ∃ c, Behind tail n steps c ∧ c.advance = (.ok (), d)

variable {tail : List Char} {n : Nat} {steps : List Step} {c d : Cursor}

theorem Behind.binary {op : BinaryOperator} {spelling : String} {spelled : spelling ∈ op.spellings}
    {signs : List Sign} {word : Word}
    (hc : Behind tail n (.binary op spelling spelled signs word :: steps) c) :
    ∃ value, c.advance = (.ok (), c.accept [' '] ⟨.operator op, value, spelling.toList,
      ' ' :: (signedText signs word ++ (Step.textOf steps ++ tail))⟩) := by
  have hrest : c.rest = ' ' :: (spelling.toList ++ ' ' :: (signedText signs word ++
      (Step.textOf steps ++ tail))) := by
    rw [hc.rest, Step.textOf_cons, Step.text]
    simp
  obtain ⟨value, hread⟩ := Lexeme.read_spelling hc.ends spelled
    (signedText signs word ++ (Step.textOf steps ++ tail))
  refine ⟨value, Cursor.advance_eq ?_ hread⟩
  rw [hrest]
  refine Token.trivia_blank ?_
  obtain ⟨c', ds, hspelling, hblank, hparen, -⟩ := Step.spelling_head spelled
  rw [hspelling]
  exact ⟨c', _, rfl, hblank, hparen⟩

theorem Behind.typed {t : TypeSuffix} (hc : Behind tail n (.typed t :: steps) c) :
    ∃ value, c.advance = (.ok (), c.accept [' '] ⟨.typeOperator t.op, value, t.op.symbol.toList,
      ' ' :: (t.target.render.toList ++ '?' :: (Step.textOf steps ++ tail))⟩) := by
  have hrest : c.rest = ' ' :: (t.op.symbol.toList ++ ' ' :: (t.target.render.toList ++
      '?' :: (Step.textOf steps ++ tail))) := by
    rw [hc.rest, Step.textOf_cons, Step.text, TypeSuffix.text]
    simp
  obtain ⟨value, hread⟩ := Lexeme.read_typeOperator hc.ends t.op
    (t.target.render.toList ++ '?' :: (Step.textOf steps ++ tail))
  refine ⟨value, Cursor.advance_eq ?_ hread⟩
  rw [hrest]
  refine Token.trivia_blank ?_
  cases t.op <;> exact ⟨_, _, rfl, rfl, by decide⟩

theorem Behind.advance (ht : Closing tail) (hc : Behind tail n steps c) :
    ∃ d, c.advance = (.ok (), d) := by
  cases steps with
  | nil =>
      obtain ⟨d, hd, -⟩ := ht.next c hc.ends hc.rest
      exact ⟨d, hd⟩
  | cons s steps =>
      cases s with
      | binary op spelling spelled signs word => exact ⟨_, hc.binary.choose_spec⟩
      | typed t => exact ⟨_, hc.typed.choose_spec⟩

theorem AtSteps.closes (ht : Closing tail) (h : AtSteps tail n [] d) : d.token.Closes := by
  obtain ⟨c, hc, hd⟩ := h
  obtain ⟨d', hd', hcloses⟩ := ht.next c hc.ends hc.rest
  rw [hd] at hd'
  cases hd'
  exact hcloses

/-- The current token binds as tightly as the first step. -/
theorem AtSteps.precedence (ht : Closing tail) (h : AtSteps tail n steps d) :
    d.token.precedence? = steps.head?.map Step.precedence := by
  cases steps with
  | nil => exact (h.closes ht).1
  | cons s steps =>
      obtain ⟨c, hc, hd⟩ := h
      cases s with
      | binary op spelling spelled signs word =>
          obtain ⟨value, hadvance⟩ := hc.binary
          rw [hd] at hadvance
          cases hadvance
          rfl
      | typed t =>
          obtain ⟨value, hadvance⟩ := hc.typed
          rw [hd] at hadvance
          cases hadvance
          rfl

/-- Behind the first step there is room for the others. -/
theorem AtSteps.length_le (h : AtSteps tail n steps d) : steps.length ≤ d.rest.length + 1 := by
  cases steps with
  | nil => exact Nat.zero_le _
  | cons s steps =>
      have hlength := Step.length_le_textOf steps
      obtain ⟨c, hc, hd⟩ := h
      rw [List.length_cons]
      cases s with
      | binary op spelling spelled signs word =>
          obtain ⟨value, hadvance⟩ := hc.binary
          rw [hd] at hadvance
          cases hadvance
          simp only [Cursor.accept, List.length_cons, List.length_append]
          omega
      | typed t =>
          obtain ⟨value, hadvance⟩ := hc.typed
          rw [hd] at hadvance
          cases hadvance
          simp only [Cursor.accept, List.length_cons, List.length_append]
          omega

/-- The current token does not go on with a path. -/
theorem AtSteps.endsPath (ht : Closing tail) (h : AtSteps tail n steps d) :
    d.token ≠ .leftBracket ∧ d.token ≠ .slash ∧ d.token ≠ .slashSlash := by
  cases hsteps : steps with
  | nil =>
      subst hsteps
      exact (h.closes ht).2
  | cons s rest =>
      have hprecedence := h.precedence ht
      rw [hsteps] at hprecedence
      -- the first step has a precedence, and none of these tokens has one
      refine ⟨?_, ?_, ?_⟩ <;> intro htoken <;> rw [htoken] at hprecedence <;> cases hprecedence

/-! ### Cursors before an operand -/

/-- The cursor stands before an operand that starts at byte offset `n`, with a blank between or
without one. -/
structure BeforeOperand (tail : List Char) (n : Nat) (signs : List Sign) (word : Word)
    (steps : List Step) (c : Cursor) : Prop where
  precedes : Lexeme.PrecedesOperand c.token
  rest : ∃ gap, (gap = [] ∨ gap = [' ']) ∧
    c.rest = gap ++ (signedText signs word ++ (Step.textOf steps ++ tail)) ∧
    c.position + utf8Length gap = n

variable {signs : List Sign} {word : Word}

theorem trivia_gap {gap cs : List Char} (hgap : gap = [] ∨ gap = [' ']) (hcs : Token.IsSolid cs) :
    Token.trivia (gap ++ cs) = some (gap, cs) := by
  rcases hgap with rfl | rfl
  · exact Token.trivia_solid hcs
  · exact Token.trivia_blank hcs

theorem BeforeOperand.name (ht : Closing tail) (hc : BeforeOperand tail n [] word steps c) :
    ∃ d, c.advance = (.ok (), d) ∧ d.token = .name ∧ d.value = String.ofList word.chars ∧
      d.offset = n ∧ Behind tail (n + utf8Length word.chars) steps d := by
  obtain ⟨gap, hgap, hrest, hposition⟩ := hc.rest
  have hread : Lexeme.read c.token (word.chars ++ (Step.textOf steps ++ tail)) =
      .ok ⟨.name, String.ofList word.chars, word.chars, Step.textOf steps ++ tail⟩ := by
    rw [Lexeme.read_word word.isNCName (Step.endsWord_textOf ht steps)]
    exact Lexeme.readWord_name hc.precedes (Step.leavesName_textOf ht steps)
  have hsolid : Token.IsSolid (word.chars ++ (Step.textOf steps ++ tail)) := by
    obtain ⟨⟨d, ds, hchars, hstart⟩, -⟩ := isNCName_spec word.isNCName
    rw [hchars]
    exact Lexeme.isSolid_of_isNameStart hstart
  refine ⟨_, Cursor.advance_eq ?_ hread, rfl, rfl, hposition, rfl, rfl, ?_⟩
  · rw [hrest]
    exact trivia_gap hgap hsolid
  · rw [← hposition]
    rfl

theorem BeforeOperand.sign {s : Sign} (hc : BeforeOperand tail n (s :: signs) word steps c) :
    ∃ d, c.advance = (.ok (), d) ∧ d.token = .operator (.arithmetic s.operator) ∧
      d.offset = n ∧ BeforeOperand tail (n + 2) signs word steps d := by
  obtain ⟨gap, hgap, hrest, hposition⟩ := hc.rest
  have hsolid : Token.IsSolid (s.char :: ' ' :: (signedText signs word ++
      (Step.textOf steps ++ tail))) := by
    cases s <;> exact ⟨_, _, rfl, rfl, by decide⟩
  have htrivia : Token.trivia c.rest = some (gap, s.char :: ' ' :: (signedText signs word ++
      (Step.textOf steps ++ tail))) := by
    have hrest' : c.rest = gap ++ (s.char :: ' ' :: (signedText signs word ++
        (Step.textOf steps ++ tail))) := by
      rw [hrest]
      simp [signedText, signsText]
    rw [hrest']
    exact trivia_gap hgap hsolid
  refine ⟨_, Cursor.advance_eq htrivia (Lexeme.read_sign _ s _), rfl, hposition,
    Lexeme.precedesOperand_operator _, [' '], .inr rfl, rfl, ?_⟩
  rw [← hposition]
  cases s <;> rfl

theorem BeforeOperand.advance (ht : Closing tail) (hc : BeforeOperand tail n signs word steps c) :
    ∃ d, c.advance = (.ok (), d) := by
  cases signs with
  | nil =>
      obtain ⟨d, hd, -⟩ := hc.name ht
      exact ⟨d, hd⟩
  | cons s signs =>
      obtain ⟨d, hd, -⟩ := hc.sign
      exact ⟨d, hd⟩

theorem BeforeOperand.length_le (hc : BeforeOperand tail n signs word steps c) :
    signs.length ≤ c.rest.length := by
  obtain ⟨gap, -, hrest, -⟩ := hc.rest
  have hsigns : signs.length ≤ (signsText signs).length := by
    clear hc hrest
    induction signs with
    | nil => exact Nat.zero_le _
    | cons s signs ih =>
        rw [signsText, List.flatMap_cons, ← signsText, List.length_append, List.length_cons,
          List.length_cons]
        omega
  rw [hrest, signedText]
  simp only [List.length_append]
  omega

/-- Behind a binary operator stands its operand. -/
theorem AtSteps.binary {op : BinaryOperator} {spelling : String} {spelled : spelling ∈ op.spellings}
    (h : AtSteps tail n (.binary op spelling spelled signs word :: steps) d) :
    d.token = .operator op ∧ d.offset = n + 1 ∧
      BeforeOperand tail (n + 1 + utf8Length spelling.toList + 1) signs word steps d := by
  obtain ⟨c, hc, hd⟩ := h
  obtain ⟨value, hadvance⟩ := hc.binary
  rw [hd] at hadvance
  cases hadvance
  have hoffset : c.position + utf8Length [' '] = n + 1 := by
    rw [hc.position]
    rfl
  refine ⟨rfl, hoffset, Lexeme.precedesOperand_operator op, [' '], .inr rfl, rfl, ?_⟩
  rw [← hoffset]
  rfl

/-- Behind a type operator stand the name of its target and a question mark. The mark ends the
operand. -/
theorem AtSteps.typed {t : TypeSuffix} (h : AtSteps tail n (.typed t :: steps) d) :
    d.token = .typeOperator t.op ∧ d.offset = n + 1 ∧ ∃ e f, d.advance = (.ok (), e) ∧
      e.token = .name ∧ e.value = t.target.render ∧ e.advance = (.ok (), f) ∧
      f.token = .questionMark ∧ Behind tail (n + 1 + utf8Length t.text) steps f.endOperand := by
  obtain ⟨c, hc, hd⟩ := h
  obtain ⟨value, hadvance⟩ := hc.typed
  have hblank : utf8Length [' '] = 1 := rfl
  have hoperator : d.token = .typeOperator t.op ∧ d.offset = n + 1 ∧
      d.position = n + 1 + utf8Length t.op.symbol.toList ∧
      d.rest = ' ' :: (t.target.render.toList ++ '?' :: (Step.textOf steps ++ tail)) := by
    rw [hd] at hadvance
    cases hadvance
    simp [Cursor.accept, hblank, hc.position]
  obtain ⟨htoken, hoffset, hposition, hrest⟩ := hoperator
  -- a target is written with its prefix, so its first letter is known
  have hname : Token.IsSolid (t.target.render.toList ++ '?' :: (Step.textOf steps ++ tail)) := by
    rw [AtomicType.render, String.toList_append]
    exact ⟨_, _, rfl, rfl, by decide⟩
  have htarget : d.advance = (.ok (), d.accept [' '] ⟨.name, t.target.render,
      t.target.render.toList, '?' :: (Step.textOf steps ++ tail)⟩) := by
    refine Cursor.advance_eq ?_ (Lexeme.read_atomicType ?_ t.target _)
    · rw [hrest]
      exact Token.trivia_blank hname
    · rw [htoken]
      exact Lexeme.precedesOperand_typeOperator t.op
  have hmark : Token.IsSolid ('?' :: (Step.textOf steps ++ tail)) := ⟨_, _, rfl, rfl, by decide⟩
  refine ⟨htoken, hoffset, _, _, htarget, rfl, rfl,
    Cursor.advance_eq (Token.trivia_solid hmark) (Lexeme.read_mark _ _), rfl, rfl, rfl, ?_⟩
  have htext : utf8Length t.text =
      utf8Length t.op.symbol.toList + 1 + utf8Length t.target.render.toList + 1 := by
    have hsingle : utf8Length (' ' :: (t.target.render.toList ++ ['?'])) =
        1 + (utf8Length t.target.render.toList + 1) := by
      rw [utf8Length_cons, utf8Length_append]
      rfl
    rw [TypeSuffix.text, utf8Length_append, hsingle]
    omega
  show d.position + utf8Length [' '] + utf8Length t.target.render.toList +
    utf8Length ([] : List Char) + utf8Length ['?'] = _
  have hnone : utf8Length ([] : List Char) = 0 := rfl
  have hone : utf8Length ['?'] = 1 := rfl
  rw [htext, hposition, hblank, hnone, hone]
  omega

end XPath
