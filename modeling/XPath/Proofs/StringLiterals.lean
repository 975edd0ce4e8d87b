import XPath.Proofs.Alone
import XPath.Proofs.ReadbackPrimaries
import XPath.Proofs.Tiling

/-!
# String literals

A string literal is a text in quotes in which the quote itself is written twice. Every text has
such a literal, and no run of quotes is split in two ways: what is read from a quote on is the one
text whose literal stands there with no further quote behind it (`readQuoted_eq_some_iff`). When no
literal stands there, all of the source is searched for its end in vain.
-/

namespace XPath

open Lexeme Parse

/-! ### The text in quotes -/

theorem Lexeme.readQuoted_eq_some_iff {quote : Char} {cs value rest : List Char} :
    readQuoted quote cs = some (value, rest) ↔
      cs = doubled quote value ++ quote :: rest ∧ rest.head? ≠ some quote := by
  constructor
  · intro h
    exact ⟨readQuoted_text h, readQuoted_ends h⟩
  · rintro ⟨rfl, hrest⟩
    exact readQuoted_append hrest

namespace Cursor

variable {c d : Cursor} {quote : Char} {cs : List Char}

theorem trivia_quote (hquote : quote = '"' ∨ quote = '\'') :
    Token.trivia (quote :: cs) = some ([], quote :: cs) := by
  refine Token.trivia_solid ⟨quote, cs, rfl, ?_, ?_⟩ <;> rcases hquote with rfl | rfl <;> decide

theorem read_quote {preceding : Token} (hquote : quote = '"' ∨ quote = '\'') :
    Lexeme.read preceding (quote :: cs) = readString quote cs := by
  have hstar : quote ≠ '*' := by rcases hquote with rfl | rfl <;> decide
  rw [Lexeme.read, if_neg hstar, if_pos hquote]

/-- A literal that stands at a cursor is the next token, and the cursor moves right behind it. -/
theorem advance_quoted (hquote : quote = '"' ∨ quote = '\'') {value rest : List Char}
    (hrest : c.rest = quoted quote value ++ rest) (hends : rest.head? ≠ some quote) :
    c.advance = (.ok (), c.accept []
      ⟨.stringLiteral, String.ofList value, quoted quote value, rest⟩) := by
  have htext : c.rest = quote :: (doubled quote value ++ quote :: rest) := by
    rw [hrest, quoted]
    simp
  have hgap : Token.trivia c.rest = some ([], quote :: (doubled quote value ++ quote :: rest)) := by
    rw [htext, trivia_quote hquote]
  refine advance_eq hgap ?_
  rw [read_quote hquote, readString, readQuoted_append hends]

theorem reads_quoted (hquote : quote = '"' ∨ quote = '\'') {s : String} {rest : List Char}
    (hends : rest.head? ≠ some quote) (hrest : c.rest = quoted quote s.toList ++ rest) :
    ∃ d, c.advance = (.ok (), d) ∧ d.token = .stringLiteral ∧ d.value = s ∧ d.rest = rest ∧
      d.offset = c.position ∧ d.position = c.position + utf8Length (quoted quote s.toList) :=
  ⟨_, advance_quoted hquote hrest hends, rfl, String.ofList_toList, rfl, rfl, rfl⟩

/-- Behind a quote that starts no literal nothing is left to be read. -/
theorem advance_unmatched (hquote : quote = '"' ∨ quote = '\'') (hrest : c.rest = quote :: cs)
    (hnone : readQuoted quote cs = none) :
    c.advance = (.error .unmatchedQuote, { c.move c.rest [] with
      token := .unknown, value := "", offset := c.position }) := by
  unfold advance
  rw [hrest, trivia_quote hquote]
  simp only [Cursor.move, read_quote hquote, readString, hnone]
  simp [utf8Length]

/-- What is read from a quote on is a literal with nothing left out. -/
theorem quoted_of_advance (hquote : quote = '"' ∨ quote = '\'') (hhead : c.rest.head? = some quote)
    (h : c.advance = (.ok (), d)) :
    d.token = .stringLiteral ∧ c.rest = quoted quote d.value.toList ++ d.rest ∧
      d.rest.head? ≠ some quote := by
  obtain ⟨cs, hrest⟩ := List.head?_eq_some_iff.mp hhead
  cases hread : readQuoted quote cs with
  | none =>
      rw [advance_unmatched hquote hrest hread] at h
      cases h
  | some parts =>
      obtain ⟨value, rest⟩ := parts
      obtain ⟨rfl, hends⟩ := readQuoted_eq_some_iff.mp hread
      have hquoted : c.rest = quoted quote value ++ rest := by
        rw [hrest, quoted]
        simp
      rw [advance_quoted hquote hquoted hends] at h
      cases h
      refine ⟨rfl, ?_, hends⟩
      show c.rest = quoted quote (String.ofList value).toList ++ rest
      rw [String.toList_ofList, hquoted]

/-- Where no literal stands, the rest of the source is searched and nothing is found. -/
theorem unmatched_of_not_quoted (hquote : quote = '"' ∨ quote = '\'')
    (hhead : c.rest.head? = some quote)
    (hnone : ∀ (s : String) w, c.rest = quoted quote s.toList ++ w → w.head? = some quote) :
    ∃ d, c.advance = (.error .unmatchedQuote, d) ∧ d.rest = [] ∧
      d.position = c.position + utf8Length c.rest := by
  obtain ⟨cs, hrest⟩ := List.head?_eq_some_iff.mp hhead
  cases hread : readQuoted quote cs with
  | none => exact ⟨_, advance_unmatched hquote hrest hread, rfl, rfl⟩
  | some parts =>
      obtain ⟨value, rest⟩ := parts
      obtain ⟨rfl, hends⟩ := readQuoted_eq_some_iff.mp hread
      refine absurd (hnone (String.ofList value) rest ?_) hends
      rw [hrest, String.toList_ofList, quoted]
      simp

theorem Stands.position_add_rest {source : String} {start : Nat} (h : c.Stands source start) :
    c.position + utf8Length c.rest = source.utf8ByteSize := by
  obtain ⟨before, hsource, hposition⟩ := h.rest
  rw [← utf8Length_toList, hsource, utf8Length_append, hposition]

end Cursor

/-! ### The literal as a source -/

theorem readExpression_renderString (s : String) (host : Resolver) (warnings : List String) :
    readExpression (Literal.renderString s) host warnings =
      ⟨.ok (.literal 0 (.string s)), warnings⟩ := by
  have hrest : (Cursor.ofSource (Literal.renderString s) 0).rest = quoted '"' s.toList ++ [] := by
    rw [ofSource_zero, List.append_nil]
    exact Expr.toList_renderString s
  obtain ⟨d, hd, htoken, hvalue, hbehind, hoffset, -⟩ :=
    Cursor.reads_quoted (.inl rfl) (by simp) hrest
  rw [ofSource_zero] at hoffset
  obtain ⟨f, hf, hend, -⟩ := Follows.nil.next d (by rw [htoken]; rfl) hbehind
  have hprimary : ∀ nested (u : ParseState), u.cursor = d →
      Leaves host (fun _ => False) (primary host.reader nested false) u fun e d =>
        e = .literal 0 (.string s) ∧ d.token = .eof := by
    rintro nested u rfl
    refine .token htoken ?_
    refine .value hvalue ?_
    refine .offset ?_
    refine .advance hf ?_
    refine .pure ⟨f, rfl, ?_, hend⟩
    rw [hoffset]
  rcases Leaves.readExpression_step warnings hd (by rw [htoken]; rfl) hprimary
    (fun _ _ h => h.2) with ⟨_, _, hread, rfl, -⟩ | ⟨_, _, hfalse, -⟩
  · exact hread
  · exact hfalse.elim

/-! ### Literals and texts -/

/-- Every text has a literal in quotes of either kind, which is read as that text whatever stands
before and behind it, if only no quote follows; so the rendering of a string literal is read as the
literal. Conversely, what is read from a quote on is the text of a literal that stands there, and
where none stands the reader fails at the end of the source. -/
theorem string_literals_encode {quote : Char} (hquote : quote = '"' ∨ quote = '\'') :
    (∀ (c : Cursor) (s : String) (w : List Char), w.head? ≠ some quote →
      c.rest = quoted quote s.toList ++ w →
      ∃ d, c.advance = (.ok (), d) ∧ d.token = .stringLiteral ∧ d.value = s ∧ d.rest = w ∧
        d.offset = c.position ∧ d.position = c.position + utf8Length (quoted quote s.toList)) ∧
    (∀ n s host warnings, readExpression (Expr.literal n (.string s)).render host warnings =
      ⟨.ok (.literal 0 (.string s)), warnings⟩) ∧
    (∀ source start calls c, c = (Cursor.ofSource source start).run calls →
      c.rest.head? = some quote →
      (∀ d, c.advance = (.ok (), d) → d.token = .stringLiteral ∧
        c.rest = quoted quote d.value.toList ++ d.rest ∧ d.rest.head? ≠ some quote) ∧
      ((∀ (s : String) w, c.rest = quoted quote s.toList ++ w → w.head? = some quote) →
        ∃ e d, c.advance = (.error e, d) ∧ e.message = "Unmatched quote in expression" ∧
          d.position = source.utf8ByteSize)) := by
  refine ⟨?_, ?_, ?_⟩
  · intro c s w hends hrest
    exact Cursor.reads_quoted hquote hends hrest
  · intro n s host warnings
    exact readExpression_renderString s host warnings
  · rintro source start calls c hc hhead
    refine ⟨fun d => Cursor.quoted_of_advance hquote hhead, fun hnone => ?_⟩
    obtain ⟨d, hd, -, hposition⟩ := Cursor.unmatched_of_not_quoted hquote hhead hnone
    have hstands : c.Stands source (Cursor.ofSource source start).position := by
      rw [hc]
      exact (Cursor.ofSource_stands source start).run calls
    exact ⟨_, d, hd, rfl, by rw [hposition, hstands.position_add_rest]⟩

/-- Quotes at both ends and inside, in a literal before an operator. -/
theorem string_literals_encode_of_quotes :
    ∃ d, (Cursor.ofSource "'''it''s''' = \"\"" 0).advance = (.ok (), d) ∧
      d.token = .stringLiteral ∧ d.value = "'it's'" ∧ d.rest = " = \"\"".toList ∧
      d.offset = 0 ∧ d.position = 11 :=
  (string_literals_encode (.inr rfl)).1 (Cursor.ofSource "'''it''s''' = \"\"" 0) "'it's'"
    " = \"\"".toList (by decide) (by decide)

end XPath
