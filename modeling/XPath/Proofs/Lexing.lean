import XPath.Proofs.Chain
import XPath.Proofs.Progress

/-!
# Reading the pieces of a chain

What one token is read from each piece of a chain, whatever stands behind it. Words are told
apart by the token before them only: behind an operand they are operators, elsewhere names,
however they are spelled. So the same letters can be both in one chain.
-/

namespace XPath

/-! ### Gaps -/

namespace Token

/-- A text that starts with neither a blank nor a comment. -/
def IsSolid (cs : List Char) : Prop :=
  ∃ c ds, cs = c :: ds ∧ Text.isBlank c = false ∧ c ≠ '('

theorem trivia_solid {cs : List Char} (h : IsSolid cs) : trivia cs = some ([], cs) := by
  obtain ⟨c, ds, rfl, hblank, hparen⟩ := h
  unfold trivia
  rw [splitTrivia.eq_3]
  · rw [hblank]
    rfl
  · intro es heq
    cases heq
    exact absurd rfl hparen

theorem trivia_blank {cs : List Char} (h : IsSolid cs) : trivia (' ' :: cs) = some ([' '], cs) := by
  have hcs := trivia_solid h
  unfold trivia at hcs ⊢
  rw [splitTrivia.eq_3]
  · have hblank : Text.isBlank ' ' = true := rfl
    rw [hblank, hcs]
    rfl
  · intro es heq
    cases heq

end Token

/-! ### Words -/

theorem isNameStart_ne {c d : Char} (h : isNameStart c = true) (hd : isNameStart d = false) :
    c ≠ d := by
  rintro rfl
  rw [h] at hd
  cases hd

theorem isNameChar_ne {c d : Char} (h : isNameChar c = true) (hd : isNameChar d = false) :
    c ≠ d := by
  rintro rfl
  rw [h] at hd
  cases hd

/-- A digit starts no name. -/
theorem isDigit_of_isNameStart {c : Char} (h : isNameStart c = true) :
    Number.isDigit c = false := by
  cases hdigit : Number.isDigit c with
  | false => rfl
  | true =>
      exfalso
      -- digits are ASCII, and there the letters are those from `A` and from `a` on
      have hrange : 48 ≤ c.toNat ∧ c.toNat ≤ 57 := by
        simpa [Number.isDigit, Char.isDigit, UInt32.le_iff_toNat_le] using hdigit
      simp only [isNameStart, Bool.or_eq_true, decide_eq_true_eq, Text.isAlphabetic] at h
      rcases h with rfl | h
      · exact absurd hrange (by decide)
      · rw [if_pos (by omega)] at h
        rcases (Bool.or_eq_true c.isUpper c.isLower).mp h with hupper | hlower
        · have hle : 'A'.val ≤ c.val := (of_decide_eq_true hupper).1
          have hle' : 65 ≤ c.toNat := UInt32.le_iff_toNat_le.mp hle
          omega
        · have hle : 'a'.val ≤ c.val := of_decide_eq_true ((Bool.and_eq_true _ _).mp hlower).1
          have hle' : 97 ≤ c.toNat := UInt32.le_iff_toNat_le.mp hle
          omega

/-- A name without colons has a first character and further ones. -/
theorem isNCName_spec {cs : List Char} (h : isNCName cs = true) :
    (∃ c ds, cs = c :: ds ∧ isNameStart c = true) ∧ ∀ c ∈ cs, isNameChar c = true := by
  cases cs with
  | nil => cases h
  | cons c ds =>
      rw [isNCName, Bool.and_eq_true, List.all_eq_true] at h
      refine ⟨⟨c, ds, rfl, h.1⟩, fun d hd => ?_⟩
      rcases List.mem_cons.mp hd with rfl | hd
      · exact isNameChar_of_isNameStart h.1
      · exact h.2 d hd

/-- The operator that a sign looks like. -/
def Sign.operator : Sign → Arithmetic
  | .plus => .add
  | .minus => .sub

namespace Lexeme

/-- A word before this text ends there. -/
def EndsWord (cs : List Char) : Prop :=
  ∀ c ∈ cs.head?, isNameChar c = false ∧ c ≠ ':'

/-- A word before this text is neither called nor does it start a binding. -/
def LeavesName (cs : List Char) : Prop :=
  ∃ gap rest, Token.trivia cs = some (gap, rest) ∧ ∀ c ∈ rest.head?, c ≠ '(' ∧ c ≠ '$'

theorem endsWord_blank (cs : List Char) : EndsWord (' ' :: cs) := by
  intro c hc
  cases hc
  exact ⟨rfl, by decide⟩

theorem leavesName_blank {cs : List Char} (h : Token.IsSolid cs) (hdollar : cs.head? ≠ some '$') :
    LeavesName (' ' :: cs) := by
  refine ⟨[' '], cs, Token.trivia_blank h, ?_⟩
  obtain ⟨c, ds, rfl, -, hparen⟩ := h
  intro d hd
  cases hd
  exact ⟨hparen, fun heq => hdollar (congrArg some heq)⟩

theorem isSolid_of_isNameStart {c : Char} {cs : List Char} (h : isNameStart c = true) :
    Token.IsSolid (c :: cs) := by
  refine ⟨c, cs, rfl, ?_, isNameStart_ne h (by decide)⟩
  simp only [Text.isBlank, Bool.or_eq_false_iff, decide_eq_false_iff_not]
  exact ⟨⟨⟨isNameStart_ne h (by decide), isNameStart_ne h (by decide)⟩,
    isNameStart_ne h (by decide)⟩, isNameStart_ne h (by decide)⟩

theorem read_name {preceding : Token} {c : Char} {cs : List Char} (h : isNameStart c = true) :
    read preceding (c :: cs) = readName preceding (c :: cs) := by
  have hnumber : startsNumber (c :: cs) = false := by
    have hdigit := isDigit_of_isNameStart h
    unfold startsNumber
    split
    · next heq =>
        cases heq
        exact absurd h (by decide)
    · next heq =>
        cases heq
        exact hdigit
    · rfl
  rw [read, if_neg (isNameStart_ne h (by decide)), if_neg, hnumber, if_neg (by decide), if_pos h]
  rintro (rfl | rfl)
  · exact absurd h (by decide)
  · exact absurd h (by decide)

/-- A word is taken as a whole, and nothing of what is behind it. -/
theorem span_word {word cs : List Char} (hword : ∀ c ∈ word, isNameChar c = true)
    (hcs : ∀ c ∈ cs.head?, isNameChar c = false) :
    (word ++ cs).takeWhile isNameChar = word ∧ (word ++ cs).dropWhile isNameChar = cs := by
  rw [List.takeWhile_append_of_pos hword, List.dropWhile_append_of_pos hword]
  cases cs with
  | nil => simp
  | cons c cs =>
      have hc : isNameChar c = false := hcs c rfl
      simp [hc]

/-- A word that ends before other text is read as a word. -/
theorem read_word {preceding : Token} {word cs : List Char} (hword : isNCName word = true)
    (hcs : EndsWord cs) : read preceding (word ++ cs) = readWord preceding word cs := by
  obtain ⟨⟨c, ds, rfl, hstart⟩, hchars⟩ := isNCName_spec hword
  obtain ⟨htake, hdrop⟩ := span_word hchars fun d hd => (hcs d hd).1
  rw [List.cons_append, read_name hstart, ← List.cons_append, readName, htake, hdrop]
  split
  · exact absurd rfl (hcs ':' rfl).2
  · exact absurd rfl (hcs ':' rfl).2
  · exact absurd rfl (hcs ':' rfl).2
  · rfl

/-- A word with a qualifier is read as one word. -/
theorem read_qualified {preceding : Token} {qualifier word cs : List Char}
    (hqualifier : isNCName qualifier = true) (hword : isNCName word = true) (hcs : EndsWord cs) :
    read preceding (qualifier ++ ':' :: (word ++ cs)) =
      readWord preceding (qualifier ++ ':' :: word) cs := by
  obtain ⟨⟨c, ds, rfl, hstart⟩, hchars⟩ := isNCName_spec hqualifier
  obtain ⟨⟨d, es, rfl, hstart'⟩, hchars'⟩ := isNCName_spec hword
  have hcolon : ∀ e ∈ (':' :: (d :: es ++ cs)).head?, isNameChar e = false := by
    intro e he
    cases he
    rfl
  -- neither word holds a colon, so the first scan stops there and the second one at `cs`
  obtain ⟨htake, hdrop⟩ := span_word hchars hcolon
  obtain ⟨htake', hdrop'⟩ := span_word hchars' fun e he => (hcs e he).1
  rw [List.cons_append, read_name hstart, ← List.cons_append, readName, htake, hdrop]
  simp only [List.cons_append] at htake' hdrop' ⊢
  split
  · next heq =>
      cases heq
      exact absurd hstart' (by decide)
  · next heq =>
      cases heq
      exact absurd hstart' (by decide)
  · next heq =>
      cases heq
      rw [if_pos hstart', htake', hdrop']
  · next hne => exact absurd rfl (hne d (es ++ cs))

/-! ### Names and operators -/

/-- An operand may start behind the token, and neither a step nor the name of a variable has to
follow. -/
def PrecedesOperand (t : Token) : Prop :=
  t.endsOperand = false ∧ t ≠ .slash ∧ t ≠ .dollar ∧ t ≠ .localWildcard

instance : DecidablePred PrecedesOperand :=
  fun t => inferInstanceAs (Decidable (t.endsOperand = false ∧ _))

/-- At the start of a source an operand may start. -/
theorem precedesOperand_eof : PrecedesOperand .eof := ⟨rfl, by simp, by simp, by simp⟩

theorem precedesOperand_leftParen : PrecedesOperand .leftParen := ⟨rfl, by simp, by simp, by simp⟩

theorem precedesOperand_operator (op : BinaryOperator) : PrecedesOperand (.operator op) :=
  ⟨rfl, by simp, by simp, by simp⟩

theorem precedesOperand_typeOperator (op : TypeOperator) : PrecedesOperand (.typeOperator op) :=
  ⟨rfl, by simp, by simp, by simp⟩

theorem precedesOperand_inWord : PrecedesOperand .inWord := ⟨rfl, by simp, by simp, by simp⟩

theorem precedesOperand_returnWord : PrecedesOperand .returnWord :=
  ⟨rfl, by simp, by simp, by simp⟩

/-- Where an operand may start, every word is a name unless it is called or starts a binding. -/
theorem readWord_name {preceding : Token} {word cs : List Char}
    (hpreceding : PrecedesOperand preceding) (hcs : LeavesName cs) :
    readWord preceding word cs = .ok ⟨.name, String.ofList word, word, cs⟩ := by
  obtain ⟨hends, hslash, hdollar, hwildcard⟩ := hpreceding
  have hname : ¬(preceding = .dollar ∨ preceding = .localWildcard) := by simp [hdollar, hwildcard]
  have hop : ¬(preceding.endsOperand = true ∨ preceding = .slash) := by simp [hends, hslash]
  rw [readWord_eq, if_neg hname, if_neg hop, hends]
  obtain ⟨gap, rest, htrivia, hrest⟩ := hcs
  show readOperandWord word cs = _
  rw [readOperandWord, htrivia]
  dsimp only
  split
  · exact absurd rfl (hrest '(' rfl).1
  · exact absurd rfl (hrest '$' rfl).2
  · rfl

/-- Behind an operand, a word is an operator if it is spelled like one. -/
theorem readWord_linkWord {preceding token : Token} {word cs : List Char}
    (hpreceding : preceding.endsOperand = true)
    (htype : Token.typeWord? (String.ofList word) = none)
    (hlink : Token.linkWord? (String.ofList word) = some token) :
    readWord preceding word cs = .ok ⟨token, String.ofList word, word, cs⟩ := by
  have hname : ¬(preceding = .dollar ∨ preceding = .localWildcard) := by
    rintro (rfl | rfl) <;> cases hpreceding
  rw [readWord_eq, if_neg hname, if_pos (.inl hpreceding), readTypeOperator, htype,
    if_pos hpreceding, hlink]
  rfl

/-- An operator between operands in one of its spellings. -/
theorem read_spelling {preceding : Token} {op : BinaryOperator} {spelling : String}
    (hpreceding : preceding.endsOperand = true) (hspelled : spelling ∈ op.spellings)
    (cs : List Char) :
    ∃ value, read preceding (spelling.toList ++ ' ' :: cs) =
      .ok ⟨.operator op, value, spelling.toList, ' ' :: cs⟩ := by
  -- spellings are words, the star, or symbols that are read without regard to what precedes them
  have hword : ∀ word : String, isNCName word.toList = true → Token.typeWord? word = none →
      Token.linkWord? word = some (.operator op) →
      ∃ value, read preceding (word.toList ++ ' ' :: cs) =
        .ok ⟨.operator op, value, word.toList, ' ' :: cs⟩ := by
    intro word hncname htype hlink
    rw [read_word hncname (endsWord_blank cs), readWord_linkWord hpreceding]
    · exact ⟨_, rfl⟩
    · rw [String.ofList_toList]
      exact htype
    · rw [String.ofList_toList]
      exact hlink
  have hstar : ∃ value, read preceding ("*".toList ++ ' ' :: cs) =
      .ok ⟨.operator (.arithmetic .mul), value, "*".toList, ' ' :: cs⟩ := by
    refine ⟨"", ?_⟩
    show Except.ok (readStar preceding (' ' :: cs)) = _
    unfold readStar
    rw [if_pos hpreceding]
    rfl
  cases op with
  | or | and | range =>
      rw [List.mem_singleton.mp hspelled]
      exact hword _ rfl rfl rfl
  | value op =>
      cases op <;> rw [List.mem_singleton.mp hspelled] <;> exact hword _ rfl rfl rfl
  | general op =>
      cases op <;> rw [List.mem_singleton.mp hspelled] <;> exact ⟨"", rfl⟩
  | node op =>
      cases op <;> rw [List.mem_singleton.mp hspelled]
      case is => exact hword _ rfl rfl rfl
      all_goals exact ⟨"", rfl⟩
  | arithmetic op =>
      cases op <;> rw [List.mem_singleton.mp hspelled]
      case add | sub => exact ⟨"", rfl⟩
      case mul => exact hstar
      all_goals exact hword _ rfl rfl rfl
  | set op =>
      cases op with
      | union =>
          rcases List.mem_cons.mp hspelled with rfl | hspelled
          · exact hword _ rfl rfl rfl
          · rw [List.mem_singleton.mp hspelled]
            exact ⟨"", rfl⟩
      | intersect | except =>
          rw [List.mem_singleton.mp hspelled]
          exact hword _ rfl rfl rfl

/-- A type operator, whose two words are one token. -/
theorem read_typeOperator {preceding : Token} (hpreceding : preceding.endsOperand = true)
    (op : TypeOperator) (cs : List Char) :
    ∃ value, read preceding (op.symbol.toList ++ ' ' :: cs) =
      .ok ⟨.typeOperator op, value, op.symbol.toList, ' ' :: cs⟩ := by
  have hname : ¬(preceding = .dollar ∨ preceding = .localWildcard) := by
    rintro (rfl | rfl) <;> cases hpreceding
  -- the words are read one after the other, and the blank between them belongs to the token
  have hwords : ∀ first second : String, isNCName first.toList = true →
      readTypeOperator first.toList (' ' :: (second.toList ++ ' ' :: cs)) =
        .ok (some ⟨.typeOperator op, first, first.toList ++ ' ' :: second.toList, ' ' :: cs⟩) →
      ∃ value, read preceding (first.toList ++ ' ' :: (second.toList ++ ' ' :: cs)) =
        .ok ⟨.typeOperator op, value, first.toList ++ ' ' :: second.toList, ' ' :: cs⟩ := by
    intro first second hfirst htype
    refine ⟨first, ?_⟩
    rw [read_word hfirst (endsWord_blank _), readWord_eq, if_neg hname, if_pos (.inl hpreceding),
      htype]
  cases op with
  | instanceOf => exact hwords "instance" "of" rfl rfl
  | treatAs => exact hwords "treat" "as" rfl rfl
  | castableAs => exact hwords "castable" "as" rfl rfl
  | castAs => exact hwords "cast" "as" rfl rfl

theorem isNCName_localName (t : AtomicType) : isNCName t.localName.toList = true := by
  cases t <;> rfl

/-- The name of an atomic type behind a type operator. -/
theorem read_atomicType {preceding : Token} (hpreceding : PrecedesOperand preceding)
    (t : AtomicType) (cs : List Char) :
    read preceding (t.render.toList ++ '?' :: cs) =
      .ok ⟨.name, t.render, t.render.toList, '?' :: cs⟩ := by
  have hmark : EndsWord ('?' :: cs) := by
    intro c hc
    cases hc
    exact ⟨rfl, by decide⟩
  have hsolid : Token.IsSolid ('?' :: cs) := ⟨'?', cs, rfl, rfl, by decide⟩
  have hname : LeavesName ('?' :: cs) := by
    refine ⟨[], '?' :: cs, Token.trivia_solid hsolid, fun c hc => ?_⟩
    cases hc
    exact ⟨by decide, by decide⟩
  have hrender : t.render.toList = "xs".toList ++ ':' :: t.localName.toList := by
    rw [AtomicType.render, String.toList_append]
    rfl
  have hread : read preceding ("xs".toList ++ ':' :: (t.localName.toList ++ '?' :: cs)) =
      readWord preceding ("xs".toList ++ ':' :: t.localName.toList) ('?' :: cs) :=
    read_qualified rfl (isNCName_localName t) hmark
  rw [← List.cons_append, ← List.append_assoc, ← hrender] at hread
  rw [hread, readWord_name hpreceding hname, String.ofList_toList]

theorem read_mark (preceding : Token) (cs : List Char) :
    read preceding ('?' :: cs) = .ok ⟨.questionMark, "", ['?'], cs⟩ :=
  rfl

theorem read_sign (preceding : Token) (s : Sign) (cs : List Char) :
    read preceding (s.char :: cs) = .ok ⟨.operator (.arithmetic s.operator), "", [s.char], cs⟩ := by
  cases s <;> rfl

end Lexeme

end XPath
