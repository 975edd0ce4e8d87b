import XPath.Proofs.Run

/-!
# Reading moves on

Every token but the end of the source is written with at least one character
(`Lexeme.text_ne_nil`). So the tokens that a cursor still has to read start at or behind its
`horizon`, which never moves back, and behind the current token when that starts a binding.
-/

namespace XPath

/-! ### The text of a token -/

namespace Lexeme

theorem readTypeOperator_text {word cs : List Char} {l : Lexeme} (hw : word ≠ [])
    (h : readTypeOperator word cs = .ok (some l)) : l.text ≠ [] := by
  unfold readTypeOperator at h
  split at h
  · cases h
  · split at h
    · cases h
    · split at h
      · cases h
      · cases h
        simp [hw]

theorem readOperandWord_text {word cs : List Char} {l : Lexeme} (hw : word ≠ [])
    (h : readOperandWord word cs = .ok l) : l.text ≠ [] := by
  unfold readOperandWord at h
  split at h
  · cases h
  · dsimp only at h
    split at h
    · cases h
      simp [hw]
    · cases h
      exact hw
    · cases h
      exact hw

/-- A word as a choice between a name that is forced, a type operator, an operator between
operands, and a word where an operand may start. -/
theorem readWord_eq (preceding : Token) (word cs : List Char) :
    readWord preceding word cs =
      if preceding = .dollar ∨ preceding = .localWildcard then
        .ok ⟨.name, String.ofList word, word, cs⟩
      else match if preceding.endsOperand ∨ preceding = .slash then readTypeOperator word cs
          else .ok none with
        | .error e => .error e
        | .ok (some l) => .ok l
        | .ok none =>
          if preceding.endsOperand then
            .ok ⟨(Token.linkWord? (String.ofList word)).getD .name, String.ofList word, word, cs⟩
          else readOperandWord word cs := by
  unfold readWord
  by_cases hname : preceding = .dollar ∨ preceding = .localWildcard
  · rw [if_pos hname, if_pos hname]
  · rw [if_neg hname, if_neg hname]
    by_cases hop : preceding.endsOperand ∨ preceding = .slash
    · simp only [if_pos hop]
      cases readTypeOperator word cs with
      | error e => rfl
      | ok type? => cases type? <;> rfl
    · simp only [if_neg hop]
      rfl

/-- A word is never empty, whatever it is taken for. -/
theorem readWord_text {preceding : Token} {word cs : List Char} {l : Lexeme} (hw : word ≠ [])
    (h : readWord preceding word cs = .ok l) : l.text ≠ [] := by
  rw [readWord_eq] at h
  split at h
  · cases h
    exact hw
  · split at h
    · cases h
    · next htype =>
        cases h
        split at htype
        · exact readTypeOperator_text hw htype
        · cases htype
    · split at h
      · cases h
        exact hw
      · exact readOperandWord_text hw h

theorem takeWhile_isNameChar_ne_nil {c : Char} {cs : List Char} (hc : isNameStart c = true) :
    (c :: cs).takeWhile isNameChar ≠ [] := by
  rw [List.takeWhile_cons, if_pos (isNameChar_of_isNameStart hc)]
  exact List.cons_ne_nil _ _

/-- A name is never empty, with a qualifier or without. -/
theorem readName_text {preceding : Token} {c : Char} {cs : List Char} {l : Lexeme}
    (hc : isNameStart c = true) (h : readName preceding (c :: cs) = .ok l) : l.text ≠ [] := by
  have hw : (c :: cs).takeWhile isNameChar ≠ [] := takeWhile_isNameChar_ne_nil hc
  unfold readName at h
  dsimp only at h
  split at h
  · cases h
    simp
  · cases h
    simp
  · split at h
    · exact readWord_text (by simp) h
    · exact readWord_text hw h
  · exact readWord_text hw h

theorem readNumber_text {cs : List Char} (h : startsNumber cs = true) :
    (readNumber cs).text ≠ [] := by
  unfold startsNumber at h
  split at h
  · next d ds =>
      -- a number may start with its point, and then its integer part is empty
      have hpoint : Number.isDigit '.' = false := by decide
      simp [readNumber, Number.Numeral.read, Number.Numeral.text, Number.Numeral.readFraction,
        hpoint]
  · next d ds _ =>
      simp [readNumber, Number.Numeral.read, Number.Numeral.text, h]
  · cases h

theorem spelling_ne_nil : ∀ symbol ∈ Token.symbols, symbol.1 ≠ [] := by
  decide

/-- A token takes up text unless the source is at its end. -/
theorem text_ne_nil {preceding : Token} {cs : List Char} {l : Lexeme} (hcs : cs ≠ [])
    (h : read preceding cs = .ok l) : l.text ≠ [] := by
  cases cs with
  | nil => exact absurd rfl hcs
  | cons c cs =>
      rw [read] at h
      split at h
      · cases h
        unfold readStar
        split
        · simp
        · split
          · split <;> simp
          · simp
      · split at h
        · unfold readString at h
          split at h
          · cases h
            simp [quoted]
          · cases h
        · split at h
          · next hnum =>
              cases h
              exact readNumber_text hnum
          · split at h
            · next hc => exact readName_text hc h
            · split at h
              · next hsym =>
                  cases h
                  exact spelling_ne_nil _ (List.mem_of_find?_eq_some hsym)
              · cases h

end Lexeme

theorem utf8Length_pos {cs : List Char} (h : cs ≠ []) : 0 < utf8Length cs := by
  cases cs with
  | nil => exact absurd rfl h
  | cons c cs =>
      have := c.utf8Size_pos
      rw [utf8Length_cons]
      omega

/-! ### Where tokens start -/

theorem skipBytes_zero (cs : List Char) : Cursor.skipBytes 0 cs = (0, cs) := by
  cases cs with
  | nil => rfl
  | cons c cs =>
      have hpos : ¬(c.utf8Size ≤ 0) := Nat.not_le_of_lt c.utf8Size_pos
      rw [Cursor.skipBytes, if_neg hpos]

/-- At the start of a source all of its text is still to be read. -/
theorem ofSource_zero (source : String) : Cursor.ofSource source 0 =
    { seen := [], rest := source.toList, position := 0, token := .eof, value := ""
      offset := 0 } := by
  unfold Cursor.ofSource
  rw [skipBytes_zero]

theorem ofSource_start (cs : List Char) : Cursor.ofSource (String.ofList cs) 0 =
    { seen := [], rest := cs, position := 0, token := .eof, value := "", offset := 0 } := by
  rw [ofSource_zero, String.toList_ofList]

namespace Cursor

/-- The cursor behind a gap and a token. -/
def accept (c : Cursor) (gap : List Char) (l : Lexeme) : Cursor where
  seen := l.text.reverse ++ (gap.reverse ++ c.seen)
  rest := l.rest
  position := c.position + utf8Length gap + utf8Length l.text
  token := l.token
  value := l.value
  offset := c.position + utf8Length gap

theorem advance_eq {c : Cursor} {gap rest : List Char} {l : Lexeme}
    (hgap : Token.trivia c.rest = some (gap, rest)) (hread : Lexeme.read c.token rest = .ok l) :
    c.advance = (.ok (), c.accept gap l) := by
  unfold advance
  rw [hgap]
  simp only [move, hread]
  rfl

/-- A token that is read comes behind trivia, and is what the text there starts with. -/
theorem advance_ok {c d : Cursor} (h : c.advance = (.ok (), d)) :
    ∃ gap rest l, Token.trivia c.rest = some (gap, rest) ∧
      Lexeme.read c.token rest = .ok l ∧ d = c.accept gap l := by
  cases hgap : Token.trivia c.rest with
  | none =>
      unfold advance at h
      rw [hgap] at h
      cases h
  | some skipped =>
      obtain ⟨gap, rest⟩ := skipped
      cases hread : Lexeme.read c.token rest with
      | ok l =>
          rw [advance_eq hgap hread] at h
          cases h
          exact ⟨gap, rest, l, rfl, hread, rfl⟩
      | error e =>
          unfold advance at h
          rw [hgap] at h
          simp only [move, hread] at h
          cases e <;> cases h

/-- No token that is still to be read starts before this place. -/
def horizon (c : Cursor) : Nat :=
  min c.offset c.position

theorem position_le_horizon_of_advance {c d : Cursor} (h : c.advance = (.ok (), d)) :
    c.position ≤ d.horizon := by
  obtain ⟨gap, rest, l, -, -, rfl⟩ := advance_ok h
  simp only [horizon, accept]
  omega

/-- The horizon only moves on. -/
theorem Reaches.horizon_le {c d : Cursor} (h : c.Reaches d) : c.horizon ≤ d.horizon := by
  induction h with
  | refl => exact Nat.le_refl _
  | @advance d e _ he ih =>
      have hpos : d.position ≤ e.horizon := position_le_horizon_of_advance he
      exact Nat.le_trans ih (Nat.le_trans (Nat.min_le_right _ _) hpos)
  | endOperand _ ih => exact ih

/-- A cursor at a word that starts a binding stands behind the start of that word. -/
def BehindWord (c : Cursor) : Prop :=
  c.token ∈ [Token.forWord, .someWord, .everyWord] → c.offset < c.position

theorem BehindWord.advance {c d : Cursor} (h : c.advance = (.ok (), d)) : d.BehindWord := by
  obtain ⟨gap, rest, l, -, hread, rfl⟩ := advance_ok h
  intro hword
  have hrest : rest ≠ [] := by
    rintro rfl
    cases hread
    simp [accept] at hword
  have := utf8Length_pos (Lexeme.text_ne_nil hrest hread)
  simp only [accept]
  omega

/-- A cursor that reads on from such a place gets to such places only. -/
theorem Reaches.behindWord {c d : Cursor} (h : c.Reaches d) (hc : c.BehindWord) :
    d.BehindWord := by
  induction h with
  | refl => exact hc
  | advance _ he _ => exact .advance he
  | endOperand _ _ =>
      intro hword
      -- the end of an operand is marked by a token that starts no binding
      change Token.rightParen ∈ _ at hword
      exact absurd hword (by decide)

end Cursor

end XPath
