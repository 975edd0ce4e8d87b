import XPath.Proofs.Forms
import XPath.Proofs.Lookahead

/-!
# The tokens of expressions as text

What one token is read from each piece that expressions are written with. Most of them are read
alike behind every token; a word depends on the token before it and on what follows it. What
may follow an operand is said by `Follows`, together with the token that is read there.
-/

namespace XPath

open Lexeme

/-- A parenthesis starts no comment before anything but a colon. -/
theorem Token.endsTrivia_leftParen {cs : List Char} (h : cs.head? ≠ some ':') :
    Token.EndsTrivia ('(' :: cs) := by
  refine ⟨by rintro d ⟨⟩; rfl, fun hopens => ?_⟩
  obtain ⟨-, ds, rfl⟩ := Token.opens_iff.mp hopens
  exact h rfl

theorem Token.isTrivia_gap {gap : List Char} (h : gap = [] ∨ gap = [' ']) :
    Token.IsTrivia 0 gap := by
  rcases h with rfl | rfl
  · exact .nil
  · exact .blank rfl .nil

namespace Cursor

variable {c : Cursor} {gap cs : List Char} {t : Token} {value : String} {rest : List Char}

/-- The next token with its value, and the text behind it. -/
def Finds (c : Cursor) (t : Token) (value : String) (rest : List Char) : Prop :=
  ∃ d, c.advance = (.ok (), d) ∧ d.token = t ∧ d.value = value ∧ d.rest = rest

theorem finds_of_read (hgap : gap = [] ∨ gap = [' ']) (hrest : c.rest = gap ++ cs)
    (hends : Token.EndsTrivia cs) (text : List Char)
    (hread : read c.token cs = .ok ⟨t, value, text, rest⟩) :
    c.Finds t value rest :=
  ⟨_, advance_eq (Token.trivia_eq_some_iff.mpr ⟨hrest, Token.isTrivia_gap hgap, hends⟩) hread,
    rfl, rfl, rfl⟩

/-- A token is found behind a gap when the text behind that is no trivia. -/
theorem finds_of_solid (hgap : gap = [] ∨ gap = [' ']) (hrest : c.rest = gap ++ cs)
    (hsolid : Token.IsSolid cs) (text : List Char)
    (hread : read c.token cs = .ok ⟨t, value, text, rest⟩) : c.Finds t value rest :=
  finds_of_read hgap hrest hsolid.endsTrivia text hread

/-- A character that is a token by itself. -/
theorem finds_symbol {d : Char} (hrest : c.rest = d :: cs) (hblank : Text.isBlank d = false)
    (hparen : d ≠ '(') (hread : ∀ preceding, read preceding (d :: cs) = .ok ⟨t, "", [d], cs⟩) :
    c.Finds t "" cs :=
  finds_of_solid (.inl rfl) hrest ⟨d, cs, rfl, hblank, hparen⟩ [d] (hread _)

theorem finds_close (hrest : c.rest = ')' :: cs) : c.Finds .rightParen "" cs :=
  finds_symbol hrest rfl (by decide) fun _ => rfl

theorem finds_comma (hrest : c.rest = ',' :: cs) : c.Finds .comma "" cs :=
  finds_symbol hrest rfl (by decide) fun _ => rfl

theorem finds_mark (hrest : c.rest = '?' :: cs) : c.Finds .questionMark "" cs :=
  finds_symbol hrest rfl (by decide) fun _ => rfl

/-- An opening parenthesis before anything but a colon. -/
theorem finds_leftParen (hgap : gap = [] ∨ gap = [' ']) (hrest : c.rest = gap ++ '(' :: cs)
    (hcolon : cs.head? ≠ some ':') : c.Finds .leftParen "" cs :=
  finds_of_read hgap hrest (Token.endsTrivia_leftParen hcolon) ['('] rfl

/-! ### Literals -/

theorem isNameChar_of_isDigit {d : Char} (h : Number.isDigit d = true) :
    isNameChar d = true := by
  have hrange : 48 ≤ d.toNat ∧ d.toNat ≤ 57 := by
    simpa [Number.isDigit, Char.isDigit, UInt32.le_iff_toNat_le] using h
  have hascii : d.toNat < 128 := by omega
  have hdigit : d.isDigit = true := h
  simp [isNameChar, Text.isAlphanumeric, hascii, Char.isAlphanum, hdigit]

theorem isSolid_of_isNameChar {d : Char} {cs : List Char} (h : isNameChar d = true) :
    Token.IsSolid (d :: cs) :=
  ⟨d, cs, rfl, Parse.isBlank_of_isNameChar h, isNameChar_ne h (by decide)⟩

/-- A numeral without an exponent cannot go on where no word goes on. -/
theorem numeral_endsAt {n : Number.Numeral} (hexponent : n.exponent = none) (hcs : EndsWord cs) :
    n.EndsAt cs := by
  have hchar : ∀ {d : Char}, isNameChar d = true → ∀ e ∈ cs.head?, e ≠ d :=
    fun hd e he => (isNameChar_ne hd (hcs e he).1).symm
  refine ⟨fun e he => ?_, fun _ _ e he => ?_, fun _ e he => ?_, fun e he => ?_⟩
  · cases hdigit : Number.isDigit e with
    | false => rfl
    | true => exact absurd rfl (hchar (isNameChar_of_isDigit hdigit) e he)
  · exact decide_eq_false (hchar (by decide) e he)
  · simp [hchar (d := 'e') (by decide) e he, hchar (d := 'E') (by decide) e he]
  · rw [hexponent] at he
    cases he

theorem numeral_isSolid {n : Number.Numeral} (hn : n.IsWritten) (hwhole : n.whole ≠ [])
    (cs : List Char) : Token.IsSolid (n.text ++ cs) := by
  obtain ⟨d, ds, hd⟩ := List.exists_cons_of_ne_nil hwhole
  rw [Number.Numeral.text, hd, List.append_assoc, List.append_assoc, List.cons_append]
  exact isSolid_of_isNameChar (isNameChar_of_isDigit (hn.whole d (by simp [hd])))

/-- A numeral without an exponent, before a text in which it cannot go on. -/
theorem finds_numeral {n : Number.Numeral} (hgap : gap = [] ∨ gap = [' '])
    (hrest : c.rest = gap ++ (n.text ++ cs)) (hn : n.IsWritten) (hwhole : n.whole ≠ [])
    (hexponent : n.exponent = none) (hcs : EndsWord cs) :
    c.Finds .number (String.ofList n.text) cs := by
  refine finds_of_solid hgap hrest (numeral_isSolid hn hwhole cs) n.text ?_
  rw [read_number (hn.startsNumber cs), readNumber,
    Number.Numeral.read_append hn (numeral_endsAt hexponent hcs)]

/-- A string is found as it is written, up to its closing quote. -/
theorem finds_string {quote : Char} {value : List Char} (hquote : quote = '"' ∨ quote = '\'')
    (hgap : gap = [] ∨ gap = [' ']) (hrest : c.rest = gap ++ (quoted quote value ++ cs))
    (hcs : cs.head? ≠ some quote) : c.Finds .stringLiteral (String.ofList value) cs := by
  have hsolid : Token.IsSolid (quoted quote value ++ cs) := by
    refine ⟨quote, _, rfl, ?_, ?_⟩ <;> rcases hquote with rfl | rfl <;> decide
  refine finds_of_solid hgap hrest hsolid (quoted quote value) ?_
  have hread : readQuoted quote (doubled quote value ++ [quote] ++ cs) = some (value, cs) := by
    rw [List.append_assoc]
    exact readQuoted_append hcs
  have hstar : quote ≠ '*' := by
    rcases hquote with rfl | rfl <;> decide
  rw [quoted, List.cons_append, Lexeme.read, if_neg hstar, if_pos hquote, readString, hread]
  rfl

/-! ### Names -/

end Cursor

theorem IsWord.exists_cons {word : List Char} (h : IsWord word) :
    ∃ c cs, word = c :: cs ∧ isNameStart c = true := by
  cases h with
  | simple hword => exact (isNCName_spec hword).1
  | qualified hqualifier _ =>
      obtain ⟨⟨c, cs, rfl, hc⟩, -⟩ := isNCName_spec hqualifier
      exact ⟨c, _, rfl, hc⟩

theorem IsWord.isSolid {word : List Char} (h : IsWord word) (cs : List Char) :
    Token.IsSolid (word ++ cs) := by
  obtain ⟨c, ds, rfl, hc⟩ := h.exists_cons
  exact isSolid_of_isNameStart hc

theorem IsWord.head?_ne {word : List Char} (h : IsWord word) {d : Char}
    (hd : isNameStart d = false) (cs : List Char) : (word ++ cs).head? ≠ some d := by
  obtain ⟨c, ds, rfl, hc⟩ := h.exists_cons
  rintro ⟨⟩
  exact isNameStart_ne hc hd rfl

/-- The qualifiers of the well-known namespaces can be written. -/
theorem Namespace.isNCName_of_qualifier? {uri q : String} (h : qualifier? uri = some q) :
    isNCName q.toList = true := by
  obtain ⟨before, behind, heq, -⟩ := List.lookup_eq_some_iff.mp h
  have hmem : (uri, q) ∈ qualifiers := heq ▸ List.mem_append_right before List.mem_cons_self
  have hall : ∀ entry ∈ qualifiers, isNCName entry.2.toList = true := by decide
  exact hall _ hmem

/-- A name in no namespace, or in a well-known one. -/
def ExpandedName.IsPlain (n : ExpandedName) : Prop :=
  n.uri = "" ∨ ∃ q, Namespace.qualifier? n.uri = some q

theorem ExpandedName.render_unqualified {n : ExpandedName} (h : n.uri = "") :
    n.render = n.localName := by
  rw [render, if_pos h]

theorem ExpandedName.render_qualified {n : ExpandedName} {q : String}
    (h : Namespace.qualifier? n.uri = some q) : n.render = q ++ ":" ++ n.localName := by
  have huri : n.uri ≠ "" := by
    intro huri
    rw [huri] at h
    cases h
  rw [render, if_neg huri, h]

/-- A plain name is written as a word. -/
theorem ExpandedName.isWord_render {n : ExpandedName} (hn : n.IsName) (h : n.IsPlain) :
    IsWord n.render.toList := by
  rcases h with huri | ⟨q, hq⟩
  · rw [render_unqualified huri]
    exact .simple hn
  · have htext : n.render.toList = q.toList ++ ':' :: n.localName.toList := by
      rw [render_qualified hq]
      simp
    rw [htext]
    exact .qualified (Namespace.isNCName_of_qualifier? hq) hn

namespace Lexeme

theorem read_isWord {preceding : Token} {word cs : List Char} (h : IsWord word)
    (hcs : EndsWord cs) : read preceding (word ++ cs) = readWord preceding word cs := by
  cases h with
  | simple hword => exact read_word hword hcs
  | qualified hqualifier hword =>
      rw [List.append_assoc, List.cons_append]
      exact read_qualified hqualifier hword hcs

theorem read_axis (preceding : Token) {word : List Char} (hword : isNCName word = true)
    (cs : List Char) :
    read preceding (word ++ ':' :: ':' :: cs) =
      .ok ⟨.axis, String.ofList word, word ++ [':', ':'], cs⟩ := by
  have haxis := (StartsName.axis hword :
    StartsName preceding (word ++ ':' :: ':' :: cs) _).readName_eq
  obtain ⟨⟨d, ds, rfl, hd⟩, -⟩ := isNCName_spec hword
  rw [List.cons_append, read_name hd]
  exact haxis

/-- An operand may start behind the token. -/
def StartsOperand (t : Token) : Prop :=
  t.endsOperand = false ∧ t ≠ .dollar ∧ t ≠ .localWildcard

instance : DecidablePred StartsOperand :=
  fun t => inferInstanceAs (Decidable (t.endsOperand = false ∧ _))

theorem PrecedesOperand.startsOperand {t : Token} (h : PrecedesOperand t) : StartsOperand t :=
  ⟨h.1, h.2.2.1, h.2.2.2⟩

/-- A word before a parenthesis. Behind a slash it may be no type operator. -/
theorem readWord_call {preceding : Token} {word gap cs : List Char}
    (hpreceding : StartsOperand preceding)
    (htype : preceding = .slash → Token.typeWord? (String.ofList word) = none)
    (hgap : gap = [] ∨ gap = [' ']) (hcolon : cs.head? ≠ some ':') :
    readWord preceding word (gap ++ '(' :: cs) =
      .ok ⟨.ofCallWord (String.ofList word), String.ofList word, word ++ gap ++ ['('], cs⟩ := by
  obtain ⟨hends, hdollar, hwildcard⟩ := hpreceding
  have hname : ¬(preceding = .dollar ∨ preceding = .localWildcard) := by simp [hdollar, hwildcard]
  have hoperator : (if preceding.endsOperand = true ∨ preceding = .slash then
      readTypeOperator word (gap ++ '(' :: cs) else .ok none) = .ok none := by
    split
    · next h =>
        have hslash := h.resolve_left (by simp [hends])
        rw [readTypeOperator, htype hslash]
    · rfl
  have htrivia : Token.trivia (gap ++ '(' :: cs) = some (gap, '(' :: cs) :=
    Token.trivia_eq_some_iff.mpr
      ⟨rfl, Token.isTrivia_gap hgap, Token.endsTrivia_leftParen hcolon⟩
  rw [readWord_eq, if_neg hname, hoperator]
  simp only [hends]
  show readOperandWord word (gap ++ '(' :: cs) = _
  rw [readOperandWord, htrivia]
  rfl

/-- A word that has to be a name, or that is neither called nor an operator. -/
theorem readWord_plain {preceding : Token} {word cs : List Char}
    (hpreceding : PrecedesOperand preceding ∨ preceding = .dollar ∨ preceding = .localWildcard)
    (hcs : LeavesName cs) :
    readWord preceding word cs = .ok ⟨.name, String.ofList word, word, cs⟩ := by
  rcases hpreceding with hpreceding | hpreceding
  · exact readWord_name hpreceding hcs
  · rw [readWord_eq, if_pos hpreceding]

/-- The word before a variable. -/
theorem readWord_binding {preceding t : Token} {word : List Char}
    (hpreceding : PrecedesOperand preceding)
    (hword : Token.bindingWord? (String.ofList word) = some t) (cs : List Char) :
    readWord preceding word (' ' :: '$' :: cs) =
      .ok ⟨t, String.ofList word, word, ' ' :: '$' :: cs⟩ := by
  obtain ⟨hends, hslash, hdollar, hwildcard⟩ := hpreceding
  have hname : ¬(preceding = .dollar ∨ preceding = .localWildcard) := by simp [hdollar, hwildcard]
  have hop : ¬(preceding.endsOperand = true ∨ preceding = .slash) := by simp [hends, hslash]
  have htrivia : Token.trivia (' ' :: '$' :: cs) = some ([' '], '$' :: cs) :=
    Token.trivia_blank ⟨'$', cs, rfl, rfl, by decide⟩
  rw [readWord_eq, if_neg hname, if_neg hop, hends]
  show readOperandWord word (' ' :: '$' :: cs) = _
  rw [readOperandWord, htrivia]
  simp only [hword, Option.getD_some]

end Lexeme

namespace Cursor

variable {c : Cursor} {gap cs : List Char} {word : String}

theorem finds_word {t : Token} {text tail : List Char} (hgap : gap = [] ∨ gap = [' '])
    (hrest : c.rest = gap ++ (word.toList ++ tail)) (hword : IsWord word.toList)
    (hread : read c.token (word.toList ++ tail) =
      .ok ⟨t, String.ofList word.toList, text, cs⟩) : c.Finds t word cs := by
  rw [String.ofList_toList] at hread
  exact finds_of_solid hgap hrest (hword.isSolid _) _ hread

/-- A name is found where no operator can be meant. -/
theorem finds_name (hgap : gap = [] ∨ gap = [' ']) (hrest : c.rest = gap ++ (word.toList ++ cs))
    (hword : IsWord word.toList)
    (hc : PrecedesOperand c.token ∨ c.token = .dollar ∨ c.token = .localWildcard)
    (hends : EndsWord cs) (hleaves : LeavesName cs) : c.Finds .name word cs :=
  finds_word hgap hrest hword ((read_isWord hword hends).trans (readWord_plain hc hleaves))

/-- A word, perhaps a blank, and an opening parenthesis. -/
theorem finds_call {inner : List Char} (hgap : gap = [] ∨ gap = [' '])
    (hinner : inner = [] ∨ inner = [' '])
    (hrest : c.rest = gap ++ (word.toList ++ (inner ++ '(' :: cs)))
    (hword : IsWord word.toList) (hc : StartsOperand c.token)
    (htype : c.token = .slash → Token.typeWord? word = none) (hcolon : cs.head? ≠ some ':') :
    c.Finds (.ofCallWord word) word cs := by
  have hends : EndsWord (inner ++ '(' :: cs) := by
    rcases hinner with rfl | rfl
    · rintro d ⟨⟩
      exact ⟨rfl, by decide⟩
    · exact endsWord_blank _
  rw [← String.ofList_toList (s := word)] at htype
  have hread := (read_isWord hword hends).trans (readWord_call hc htype hinner hcolon)
  rw [String.ofList_toList] at hread
  exact finds_of_solid hgap hrest (hword.isSolid _) _ hread

/-- The keyword of a test or a type, which is one token with its parenthesis. -/
theorem finds_testKeyword (hgap : gap = [] ∨ gap = [' '])
    (hrest : c.rest = gap ++ (word.toList ++ '(' :: cs)) (hword : isNCName word.toList = true)
    (hkind : Token.ofCallWord word = .nodeKind) (hc : PrecedesOperand c.token)
    (hcolon : cs.head? ≠ some ':') : c.Finds .nodeKind word cs := by
  have hcall := finds_call hgap (.inl rfl) hrest (.simple hword) hc.startsOperand
    (fun hslash => absurd hslash hc.2.1) hcolon
  rwa [hkind] at hcall

theorem finds_bindingWord {t : Token} (hgap : gap = [] ∨ gap = [' '])
    (hrest : c.rest = gap ++ (word.toList ++ ' ' :: '$' :: cs))
    (hword : IsWord word.toList) (ht : Token.bindingWord? word = some t)
    (hc : PrecedesOperand c.token) : c.Finds t word (' ' :: '$' :: cs) := by
  rw [← String.ofList_toList (s := word)] at ht
  exact finds_word hgap hrest hword
    ((read_isWord hword (endsWord_blank _)).trans (readWord_binding hc ht cs))

theorem finds_axis (hgap : gap = [] ∨ gap = [' '])
    (hrest : c.rest = gap ++ (word.toList ++ ':' :: ':' :: cs))
    (hword : isNCName word.toList = true) : c.Finds .axis word cs :=
  finds_word hgap hrest (.simple hword) (read_axis c.token hword cs)

theorem finds_dollar (hgap : gap = [] ∨ gap = [' ']) (hrest : c.rest = gap ++ '$' :: cs) :
    c.Finds .dollar "" cs :=
  finds_of_solid hgap hrest ⟨'$', cs, rfl, rfl, by decide⟩ ['$'] rfl

theorem finds_dot (hgap : gap = [] ∨ gap = [' ']) (hrest : c.rest = gap ++ '.' :: cs)
    (hcs : EndsWord cs) : c.Finds .dot "" cs := by
  refine finds_of_solid hgap hrest ⟨'.', cs, rfl, rfl, by decide⟩ ['.'] ?_
  cases cs with
  | nil => rfl
  | cons d ds =>
      have hchar := (hcs d rfl).1
      have hdigit : Number.isDigit d = false := by
        cases hdigit : Number.isDigit d with
        | false => rfl
        | true =>
            rw [isNameChar_of_isDigit hdigit] at hchar
            cases hchar
      have hdot : ('.' == d) = false := by
        have := isNameChar_ne (c := '.') (d := d) (by decide) hchar
        simpa using this
      simp [Lexeme.read, startsNumber, hdigit, Token.symbol?, Token.symbols, List.find?,
        List.isPrefixOf, hdot, show isNameStart '.' = false by decide]

theorem finds_dotDot (hgap : gap = [] ∨ gap = [' ']) (hrest : c.rest = gap ++ '.' :: '.' :: cs) :
    c.Finds .dotDot "" cs :=
  finds_of_solid hgap hrest ⟨'.', _, rfl, rfl, by decide⟩ ['.', '.'] rfl

theorem finds_sign (s : Sign) (hrest : c.rest = s.char :: cs) :
    c.Finds (.operator (.arithmetic s.operator)) "" cs := by
  refine finds_symbol hrest ?_ ?_ fun preceding => read_sign preceding s cs
  · cases s <;> rfl
  · cases s <;> decide

theorem finds_star (hrest : c.rest = '*' :: cs) (hc : c.token.endsOperand = false)
    (hcs : cs.head? ≠ some ':') : c.Finds .star "" cs := by
  refine finds_of_solid (.inl rfl) hrest ⟨'*', cs, rfl, rfl, by decide⟩ ['*'] ?_
  rw [read_star, readStar_star hc]
  rintro d ds rfl
  exact absurd rfl hcs

theorem finds_localWildcard (hgap : gap = [] ∨ gap = [' '])
    (hrest : c.rest = gap ++ '*' :: ':' :: (word.toList ++ cs))
    (hc : c.token.endsOperand = false) (hword : isNCName word.toList = true) :
    c.Finds .localWildcard "" (word.toList ++ cs) := by
  obtain ⟨⟨d, ds, hchars, hd⟩, -⟩ := isNCName_spec hword
  refine finds_of_solid hgap hrest ⟨'*', _, rfl, rfl, by decide⟩ ['*', ':'] ?_
  rw [hchars, read_star, List.cons_append, readStar_wildcard hc hd]

end Cursor

/-! ### What follows an operand -/

/-- A text that may follow an operand, with the token that is read there and the text behind
that. No word, number or string goes on into it, and no word is called by it. -/
structure Follows (tail : List Char) (t : Token) (rest : List Char) : Prop where
  word : EndsWord tail
  name : LeavesName tail
  quote : tail.head? ≠ some '"'
  next : ∀ c : Cursor, c.token.endsOperand = true → c.rest = tail →
    ∃ d, c.advance = (.ok (), d) ∧ d.token = t ∧ d.rest = rest

namespace Follows

variable {tail rest cs : List Char} {t : Token}

/-- What a cursor finds behind every operand follows the operand. -/
theorem of_finds (hword : EndsWord tail) (hname : LeavesName tail) (hquote : tail.head? ≠ some '"')
    (h : ∀ c : Cursor, c.token.endsOperand = true → c.rest = tail → ∃ value, c.Finds t value rest) :
    Follows tail t rest := by
  refine ⟨hword, hname, hquote, fun c hc hrest => ?_⟩
  obtain ⟨value, d, hd, ht, -, hrest'⟩ := h c hc hrest
  exact ⟨d, hd, ht, hrest'⟩

theorem nil : Follows [] .eof [] := by
  refine of_finds (by rintro d ⟨⟩) ⟨[], [], rfl, by rintro d ⟨⟩⟩ (by simp) fun c _ hrest => ⟨"", ?_⟩
  exact Cursor.finds_of_read (.inl rfl) hrest Token.endsTrivia_nil [] rfl

/-- A symbol that is read alike behind every token. -/
theorem symbol {d : Char} (hsymbol : isNameChar d = false ∧ Text.isBlank d = false)
    (hne : d ∉ [':', '(', '$', '"'])
    (hread : ∀ preceding, read preceding (d :: cs) = .ok ⟨t, "", [d], cs⟩) :
    Follows (d :: cs) t cs := by
  simp only [List.mem_cons, List.not_mem_nil, or_false, not_or] at hne
  obtain ⟨hcolon, hparen, hdollar, hquote⟩ := hne
  have hsolid : Token.IsSolid (d :: cs) := ⟨d, cs, rfl, hsymbol.2, hparen⟩
  refine of_finds (by rintro e ⟨⟩; exact ⟨hsymbol.1, hcolon⟩) ?_ ?_ ?_
  · refine ⟨[], d :: cs, Token.trivia_solid hsolid, ?_⟩
    rintro e ⟨⟩
    exact ⟨hparen, hdollar⟩
  · rintro ⟨⟩
    exact hquote rfl
  · exact fun c _ hrest => ⟨"", Cursor.finds_symbol hrest hsymbol.2 hparen hread⟩

theorem close (cs : List Char) : Follows (')' :: cs) .rightParen cs :=
  symbol ⟨rfl, rfl⟩ (by decide) fun _ => rfl

/-- A closing parenthesis, and then what follows it. -/
theorem closing (h : Follows tail t rest) {c : Cursor} (hrest : c.rest = ')' :: tail) :
    ∃ d e, c.advance = (.ok (), d) ∧ d.token = .rightParen ∧ d.advance = (.ok (), e) ∧
      e.token = t ∧ e.rest = rest := by
  obtain ⟨d, hd, hclose, -, hbehind⟩ := Cursor.finds_close hrest
  obtain ⟨e, he, htoken, hrest'⟩ := h.next d (by rw [hclose]; rfl) hbehind
  exact ⟨d, e, hd, hclose, he, htoken, hrest'⟩

theorem openBracket (cs : List Char) : Follows ('[' :: cs) .leftBracket cs :=
  symbol ⟨rfl, rfl⟩ (by decide) fun _ => rfl

theorem closeBracket (cs : List Char) : Follows (']' :: cs) .rightBracket cs :=
  symbol ⟨rfl, rfl⟩ (by decide) fun _ => rfl

theorem comma (cs : List Char) : Follows (',' :: cs) .comma cs :=
  symbol ⟨rfl, rfl⟩ (by decide) fun _ => rfl

theorem mark (cs : List Char) : Follows ('?' :: cs) .questionMark cs :=
  symbol ⟨rfl, rfl⟩ (by decide) fun _ => rfl

theorem plus (cs : List Char) : Follows ('+' :: cs) (.operator (.arithmetic .add)) cs :=
  symbol ⟨rfl, rfl⟩ (by decide) fun _ => rfl

theorem star (cs : List Char) : Follows ('*' :: cs) (.operator (.arithmetic .mul)) cs := by
  have hsolid : Token.IsSolid ('*' :: cs) := ⟨'*', cs, rfl, rfl, by decide⟩
  refine of_finds (by rintro d ⟨⟩; exact ⟨rfl, by decide⟩) ?_ (by simp) fun c hc hrest => ⟨"", ?_⟩
  · refine ⟨[], '*' :: cs, Token.trivia_solid hsolid, ?_⟩
    rintro d ⟨⟩
    exact ⟨by decide, by decide⟩
  · refine Cursor.finds_of_solid (.inl rfl) hrest hsolid ['*'] ?_
    simp [read_star, readStar, hc]

theorem slash (hcs : cs.head? ≠ some '/') : Follows ('/' :: cs) .slash cs := by
  refine symbol ⟨rfl, rfl⟩ (by decide) fun preceding => ?_
  cases cs with
  | nil => rfl
  | cons d ds =>
      have hd : ('/' == d) = false := by
        have : '/' ≠ d := fun heq => hcs (heq ▸ rfl)
        simpa using this
      simp [Lexeme.read, startsNumber, Token.symbol?, Token.symbols, List.find?, List.isPrefixOf,
        hd, show isNameStart '/' = false by decide, show Number.isDigit '/' = false by decide]

/-- A word or symbol between blanks. -/
theorem spaced {text : List Char} (hsolid : Token.IsSolid (text ++ ' ' :: cs))
    (hdollar : (text ++ ' ' :: cs).head? ≠ some '$')
    (hread : ∀ preceding : Token, preceding.endsOperand = true →
      ∃ value, read preceding (text ++ ' ' :: cs) = .ok ⟨t, value, text, ' ' :: cs⟩) :
    Follows (' ' :: (text ++ ' ' :: cs)) t (' ' :: cs) := by
  refine of_finds (endsWord_blank _) (leavesName_blank hsolid hdollar) (by simp) ?_
  intro c hc hrest
  obtain ⟨value, hvalue⟩ := hread c.token hc
  exact ⟨value, Cursor.finds_of_solid (.inr rfl) hrest hsolid text hvalue⟩

/-- An operator between blanks follows an operand. -/
theorem operator (op : BinaryOperator) (cs : List Char) :
    Follows (' ' :: (op.symbol.toList ++ ' ' :: cs)) (.operator op) (' ' :: cs) := by
  have hspelled : op.symbol ∈ op.spellings := by
    cases op with
    | set op => cases op <;> simp [BinaryOperator.spellings, BinaryOperator.symbol]
    | _ => exact List.mem_singleton.mpr rfl
  obtain ⟨d, ds, hchars, hblank, hparen, hdollar⟩ := Step.spelling_head hspelled
  refine spaced ?_ ?_ fun preceding hends => read_spelling hends hspelled cs
  · rw [hchars]
    exact ⟨d, _, rfl, hblank, hparen⟩
  · rw [hchars]
    rintro ⟨⟩
    exact hdollar rfl

theorem typeOperator (op : TypeOperator) (cs : List Char) :
    Follows (' ' :: (op.symbol.toList ++ ' ' :: cs)) (.typeOperator op) (' ' :: cs) := by
  refine spaced ?_ ?_ fun preceding hends => read_typeOperator hends op cs
  · cases op <;> exact ⟨_, _, rfl, rfl, by decide⟩
  · cases op <;> simp [TypeOperator.symbol]

/-- A word that stands between operands. -/
theorem linkWord {word : String} (hword : isNCName word.toList = true)
    (htype : Token.typeWord? word = none) (hlink : Token.linkWord? word = some t)
    (cs : List Char) : Follows (' ' :: (word.toList ++ ' ' :: cs)) t (' ' :: cs) := by
  obtain ⟨⟨d, ds, hchars, hd⟩, -⟩ := isNCName_spec hword
  refine spaced ((IsWord.simple hword).isSolid _) ?_ fun preceding hends => ⟨word, ?_⟩
  · rw [hchars]
    rintro ⟨⟩
    exact absurd hd (by decide)
  · rw [read_word hword (endsWord_blank cs), readWord_linkWord hends]
    · rw [String.ofList_toList]
    · rw [String.ofList_toList]
      exact htype
    · rw [String.ofList_toList]
      exact hlink

end Follows

end XPath
