import XPath.Proofs.Numerals
import XPath.Proofs.Trivia

/-!
# What a token is written with

`Token.Spells` lists the spellings of every token, without regard to where in a source it
stands. A token that is read is one of them, and with the text after it it makes up the text
that it was read from: nothing of the text is left out and nothing is read twice.
-/

namespace XPath

/-! ### Spellings -/

/-- A name, or two names with a colon between them. -/
inductive IsWord : List Char → Prop
  | simple {name : List Char} : isNCName name = true → IsWord name
  | qualified {qualifier name : List Char} : isNCName qualifier = true → isNCName name = true →
      IsWord (qualifier ++ ':' :: name)

/-- The texts that a token with its value may be written as. Only trivia may stand between the
parts of a token that has two. -/
inductive Token.Spells : Token → String → List Char → Prop
  | symbol {t : Token} {text : List Char} : (text, t) ∈ symbols → Spells t "" text
  | product : Spells (.operator (.arithmetic .mul)) "" ['*']
  | star : Spells .star "" ['*']
  | localWildcard : Spells .localWildcard "" ['*', ':']
  | string {quote : Char} (value : List Char) : quote = '"' ∨ quote = '\'' →
      Spells .stringLiteral (String.ofList value) (Lexeme.quoted quote value)
  | number {n : Number.Numeral} : n.IsWritten →
      Spells .number (String.ofList n.text) n.text
  | name {word : List Char} : IsWord word → Spells .name (String.ofList word) word
  | linkWord {word : List Char} {t : Token} : linkWord? (String.ofList word) = some t →
      Spells t (String.ofList word) word
  | bindingWord {word : List Char} {t : Token} : bindingWord? (String.ofList word) = some t →
      Spells t (String.ofList word) word
  | typeOperator {word gap : List Char} {second : String} {op : TypeOperator} :
      typeWord? (String.ofList word) = some (second, op) → IsTrivia 0 gap → gap ≠ [] →
      Spells (.typeOperator op) (String.ofList word) (word ++ gap ++ second.toList)
  | call {word gap : List Char} : IsWord word → IsTrivia 0 gap →
      Spells (ofCallWord (String.ofList word)) (String.ofList word) (word ++ gap ++ ['('])
  | axis {word : List Char} : isNCName word = true →
      Spells .axis (String.ofList word) (word ++ [':', ':'])
  | namespaceWildcard {word : List Char} : isNCName word = true →
      Spells .namespaceWildcard (String.ofList word) (word ++ [':', '*'])

namespace Token

/-- Words that stand before or between expressions are taken for these tokens. -/
def isLink : Token → Bool
  | operator _ | forWord | someWord | everyWord | thenWord | elseWord | inWord | returnWord
  | satisfiesWord => true
  | _ => false

theorem linkWord?_isLink {word : String} {t : Token} (h : linkWord? word = some t) :
    t.isLink = true := by
  unfold linkWord? at h
  split at h <;> cases h <;> rfl

theorem bindingWord?_isLink {word : String} {t : Token} (h : bindingWord? word = some t) :
    t.isLink = true := by
  unfold bindingWord? at h
  split at h <;> cases h <;> rfl

/-- A word before a parenthesis starts a conditional or a test, or names a function. -/
theorem ofCallWord_cases (word : String) :
    ofCallWord word = ifWord ∨ (ofCallWord word = nodeKind ∧ word ∈ kindWords) ∨
      ofCallWord word = function := by
  unfold ofCallWord
  split
  · exact .inl rfl
  · split
    · next hkind => exact .inr (.inl ⟨rfl, hkind⟩)
    · exact .inr (.inr rfl)

/-- No text stands for the end of the source. -/
theorem Spells.ne_eof {t : Token} {value : String} {text : List Char}
    (h : t.Spells value text) : t ≠ .eof := by
  cases h with
  | symbol hmem =>
      have hsymbols : ∀ symbol ∈ symbols, symbol.2 ≠ .eof := by decide
      exact hsymbols _ hmem
  | linkWord hlink =>
      rintro rfl
      cases linkWord?_isLink hlink
  | bindingWord hbinding =>
      rintro rfl
      cases bindingWord?_isLink hbinding
  | @call word =>
      rcases ofCallWord_cases (String.ofList word) with h | ⟨h, -⟩ | h <;> simp [h]
  | _ => simp

/-- A star and a colon are the only spelling of a wildcard for namespaces. -/
theorem Spells.localWildcard_text {t : Token} {value : String} {text : List Char}
    (h : t.Spells value text) (ht : t = .localWildcard) : text = ['*', ':'] := by
  cases h with
  | localWildcard => rfl
  | symbol hmem =>
      have hsymbols : ∀ symbol ∈ symbols, symbol.2 ≠ .localWildcard := by decide
      exact absurd ht (hsymbols _ hmem)
  | linkWord hlink =>
      rw [ht] at hlink
      cases linkWord?_isLink hlink
  | bindingWord hbinding =>
      rw [ht] at hbinding
      cases bindingWord?_isLink hbinding
  | @call word =>
      rcases ofCallWord_cases (String.ofList word) with h | ⟨h, -⟩ | h <;> simp [h] at ht
  | _ => cases ht

end Token

/-! ### Strings and symbols -/

namespace Lexeme

theorem readQuoted_text {quote : Char} {cs value rest : List Char}
    (h : readQuoted quote cs = some (value, rest)) : cs = doubled quote value ++ quote :: rest := by
  fun_induction readQuoted quote cs generalizing value rest with
  | case1 => cases h
  | case2 =>
      cases h
      rfl
  | case3 ds ih =>
      obtain ⟨⟨value', rest'⟩, hread, heq⟩ := Option.map_eq_some_iff.mp h
      cases heq
      rw [doubled, if_pos rfl, ih hread]
      rfl
  | case4 d ds _ =>
      cases h
      rfl
  | case5 c cs hc ih =>
      obtain ⟨⟨value', rest'⟩, hread, heq⟩ := Option.map_eq_some_iff.mp h
      cases heq
      rw [doubled, if_neg hc, ih hread]
      rfl

theorem symbol?_text {cs text : List Char} {t : Token} (h : Token.symbol? cs = some (text, t)) :
    cs = text ++ cs.drop text.length ∧ (text, t) ∈ Token.symbols := by
  refine ⟨?_, List.mem_of_find?_eq_some h⟩
  unfold Token.symbol? at h
  have hfound := List.find?_some h
  obtain ⟨rest, rfl⟩ := List.isPrefixOf_iff_prefix.mp hfound
  rw [List.drop_left]

/-! ### Words -/

theorem afterWord?_text {word cs rest : List Char} (h : afterWord? word cs = some rest) :
    cs = word ++ rest := by
  unfold afterWord? at h
  split at h
  · next hword =>
      cases h
      simp only [Bool.and_eq_true] at hword
      have hprefix : word <+: cs := List.isPrefixOf_iff_prefix.mp hword.1
      obtain ⟨rest, rfl⟩ := hprefix
      rw [List.drop_left]
  · cases h

/-- What is known of a lexeme that was read from a text. -/
def Covers (l : Lexeme) (cs : List Char) : Prop :=
  cs = l.text ++ l.rest ∧ l.token.Spells l.value l.text

theorem typeWord?_second {word : String} {second : String} {op : TypeOperator}
    (h : Token.typeWord? word = some (second, op)) : isNCName second.toList = true := by
  unfold Token.typeWord? at h
  split at h <;> cases h <;> rfl

theorem readTypeOperator_covers {word cs : List Char} {l : Lexeme}
    (hcs : ∀ c ∈ cs.head?, isNameChar c = false)
    (h : readTypeOperator word cs = .ok (some l)) : l.Covers (word ++ cs) := by
  unfold readTypeOperator at h
  split at h
  · cases h
  · next second op htype =>
      split at h
      · cases h
      · next gap after hgap =>
          split at h
          · cases h
          · next rest hafter =>
              cases h
              obtain ⟨rfl, htrivia, -⟩ := Token.trivia_eq_some_iff.mp hgap
              have heq : after = second.toList ++ rest := afterWord?_text hafter
              refine ⟨by simp [heq], .typeOperator htype htrivia ?_⟩
              -- the second word cannot go on where the first one ends
              rintro rfl
              obtain ⟨c, ds, hsecond, hstart⟩ := (isNCName_spec (typeWord?_second htype)).1
              rw [heq, hsecond] at hcs
              have := hcs c rfl
              rw [isNameChar_of_isNameStart hstart] at this
              cases this

theorem readOperandWord_covers {word cs : List Char} {l : Lexeme} (hword : IsWord word)
    (h : readOperandWord word cs = .ok l) : l.Covers (word ++ cs) := by
  unfold readOperandWord at h
  split at h
  · cases h
  · next gap after hgap =>
      obtain ⟨rfl, htrivia, -⟩ := Token.trivia_eq_some_iff.mp hgap
      dsimp only at h
      split at h
      · cases h
        exact ⟨by simp, .call hword htrivia⟩
      · cases h
        refine ⟨rfl, ?_⟩
        cases hbinding : Token.bindingWord? (String.ofList word) with
        | none => exact .name hword
        | some t => exact .bindingWord hbinding
      · cases h
        exact ⟨rfl, .name hword⟩

/-- A word is covered by its token, whatever it is taken for. -/
theorem readWord_covers {preceding : Token} {word cs : List Char} {l : Lexeme}
    (hword : IsWord word) (hcs : ∀ c ∈ cs.head?, isNameChar c = false)
    (h : readWord preceding word cs = .ok l) : l.Covers (word ++ cs) := by
  rw [readWord_eq] at h
  split at h
  · cases h
    exact ⟨rfl, .name hword⟩
  · split at h
    · cases h
    · next htype =>
        cases h
        split at htype
        · exact readTypeOperator_covers hcs htype
        · cases htype
    · split at h
      · cases h
        refine ⟨rfl, ?_⟩
        cases hlink : Token.linkWord? (String.ofList word) with
        | none => exact .name hword
        | some t => exact .linkWord hlink
      · exact readOperandWord_covers hword h

/-- A word cannot be longer before this text, and no name has to follow in it. -/
structure WordEnds (cs : List Char) : Prop where
  nameChar : ∀ c ∈ cs.head?, isNameChar c = false
  colon : ∀ c ds, cs = ':' :: c :: ds → c ≠ ':' ∧ c ≠ '*' ∧ isNameStart c = false

/-- The ways in which a text starts with a name, and what is read then. -/
inductive StartsName (preceding : Token) : List Char → Except LexicalError Lexeme → Prop
  | axis {word rest : List Char} : isNCName word = true →
      StartsName preceding (word ++ ':' :: ':' :: rest)
        (.ok ⟨.axis, String.ofList word, word ++ [':', ':'], rest⟩)
  | namespaceWildcard {word rest : List Char} : isNCName word = true →
      StartsName preceding (word ++ ':' :: '*' :: rest)
        (.ok ⟨.namespaceWildcard, String.ofList word, word ++ [':', '*'], rest⟩)
  | simple {word cs : List Char} : isNCName word = true → WordEnds cs →
      StartsName preceding (word ++ cs) (readWord preceding word cs)
  | qualified {qualifier word cs : List Char} : isNCName qualifier = true →
      isNCName word = true → (∀ c ∈ cs.head?, isNameChar c = false) →
      StartsName preceding (qualifier ++ ':' :: (word ++ cs))
        (readWord preceding (qualifier ++ ':' :: word) cs)

theorem isNCName_takeWhile {c : Char} (hc : isNameStart c = true) (cs : List Char) :
    isNCName ((c :: cs).takeWhile isNameChar) = true := by
  rw [List.takeWhile_cons, if_pos (isNameChar_of_isNameStart hc), isNCName, hc, Bool.true_and]
  exact List.all_takeWhile

theorem readName_startsName (preceding : Token) {c : Char} (hc : isNameStart c = true)
    (cs : List Char) :
    StartsName preceding (c :: cs) (readName preceding (c :: cs)) := by
  have hword := isNCName_takeWhile hc cs
  have hstop : ∀ d ∈ ((c :: cs).dropWhile isNameChar).head?, isNameChar d = false :=
    head_dropWhile (c :: cs)
  have hsplit : (c :: cs).takeWhile isNameChar ++ (c :: cs).dropWhile isNameChar = c :: cs :=
    List.takeWhile_append_dropWhile
  unfold readName
  generalize (c :: cs).takeWhile isNameChar = word at hword hsplit ⊢
  generalize (c :: cs).dropWhile isNameChar = after at hstop hsplit ⊢
  rw [← hsplit]
  dsimp only
  split
  · exact .axis hword
  · exact .namespaceWildcard hword
  · next d rest hcolon hstar =>
      by_cases hd : isNameStart d = true
      · have hlocal := isNCName_takeWhile hd rest
        have hqualified : StartsName preceding _ _ :=
          .qualified hword hlocal (head_dropWhile (d :: rest))
        rw [List.takeWhile_append_dropWhile] at hqualified
        rw [if_pos hd]
        exact hqualified
      · rw [if_neg hd]
        refine .simple hword ⟨hstop, ?_⟩
        rintro e ds ⟨⟩
        refine ⟨fun h => hcolon (h ▸ rfl), fun h => hstar (h ▸ rfl), by simpa using hd⟩
  · next hne =>
      exact .simple hword ⟨hstop, fun e ds h => absurd h (hne e ds)⟩

/-- Conversely, a name that is written before a text in which it ends is read. -/
theorem StartsName.readName_eq {preceding : Token} {cs : List Char}
    {r : Except LexicalError Lexeme} (h : StartsName preceding cs r) :
    readName preceding cs = r := by
  have hcolon : ∀ rest : List Char, ∀ c ∈ (':' :: rest).head?, isNameChar c = false := by
    rintro rest c ⟨⟩
    rfl
  unfold readName
  cases h with
  | axis hword =>
      obtain ⟨htake, hdrop⟩ := span_append (isNCName_spec hword).2 (hcolon _)
      rw [htake, hdrop]
      rfl
  | namespaceWildcard hword =>
      obtain ⟨htake, hdrop⟩ := span_append (isNCName_spec hword).2 (hcolon _)
      rw [htake, hdrop]
      rfl
  | simple hword hends =>
      obtain ⟨htake, hdrop⟩ := span_append (isNCName_spec hword).2 hends.nameChar
      rw [htake, hdrop]
      dsimp only
      split
      · exact absurd rfl (hends.colon _ _ rfl).1
      · exact absurd rfl (hends.colon _ _ rfl).2.1
      · rw [if_neg (by simp [(hends.colon _ _ rfl).2.2])]
      · rfl
  | @qualified qualifier word cs hqualifier hword hends =>
      obtain ⟨htake, hdrop⟩ :=
        span_append (isNCName_spec hqualifier).2 (hcolon (word ++ cs))
      obtain ⟨htake', hdrop'⟩ := span_append (isNCName_spec hword).2 hends
      obtain ⟨⟨d, ds, rfl, hd⟩, -⟩ := isNCName_spec hword
      rw [htake, hdrop]
      simp only [List.cons_append] at htake' hdrop' ⊢
      split
      · next heq =>
          cases heq
          exact absurd hd (by decide)
      · next heq =>
          cases heq
          exact absurd hd (by decide)
      · next heq =>
          cases heq
          rw [if_pos hd, htake', hdrop']
      · next hne => exact absurd rfl (hne d (ds ++ cs))

/-- A name is covered by its token, with a qualifier or without. -/
theorem readName_covers {preceding : Token} {c : Char} {cs : List Char} {l : Lexeme}
    (hc : isNameStart c = true) (h : readName preceding (c :: cs) = .ok l) :
    l.Covers (c :: cs) := by
  have hname := readName_startsName preceding hc cs
  rw [h] at hname
  generalize c :: cs = text at hname ⊢
  generalize hr : Except.ok l = r at hname
  cases hname with
  | axis hword =>
      cases hr
      exact ⟨by simp, .axis hword⟩
  | namespaceWildcard hword =>
      cases hr
      exact ⟨by simp, .namespaceWildcard hword⟩
  | simple hword hends => exact readWord_covers (.simple hword) hends.nameChar hr.symm
  | qualified hqualifier hword hends =>
      have hcovers := readWord_covers (.qualified hqualifier hword) hends hr.symm
      rw [List.append_assoc, List.cons_append] at hcovers
      exact hcovers

/-! ### Tokens -/

theorem readStar_covers (preceding : Token) (cs : List Char) :
    (readStar preceding cs).Covers ('*' :: cs) := by
  unfold readStar
  split
  · exact ⟨rfl, .product⟩
  · split
    · split
      · exact ⟨rfl, .localWildcard⟩
      · exact ⟨rfl, .star⟩
    · exact ⟨rfl, .star⟩

/-- A token before the end of the source is written as one of its spellings, and the text
behind it is all that is left. -/
theorem read_covers {preceding : Token} {cs : List Char} {l : Lexeme} (hcs : cs ≠ [])
    (h : read preceding cs = .ok l) : l.Covers cs := by
  cases cs with
  | nil => exact absurd rfl hcs
  | cons c cs =>
      rw [read] at h
      split at h
      · next hstar =>
          cases h
          subst hstar
          exact readStar_covers preceding cs
      · split at h
        · next hquote =>
            unfold readString at h
            split at h
            · next value rest hread =>
                cases h
                exact ⟨by simp [quoted, readQuoted_text hread], .string value hquote⟩
            · cases h
        · split at h
          · next hnumber =>
              cases h
              exact ⟨Number.Numeral.read_text _, .number (Number.Numeral.read_isWritten hnumber)⟩
          · split at h
            · next hc => exact readName_covers hc h
            · split at h
              · next hsymbol =>
                  cases h
                  obtain ⟨heq, hmem⟩ := symbol?_text hsymbol
                  exact ⟨heq, .symbol hmem⟩
              · cases h

/-- Only the end of the source is read as the end. -/
theorem token_eq_eof_iff {preceding : Token} {cs : List Char} {l : Lexeme}
    (h : read preceding cs = .ok l) : l.token = .eof ↔ cs = [] := by
  constructor
  · intro heof
    by_cases hcs : cs = []
    · exact hcs
    · exact absurd heof (read_covers hcs h).2.ne_eof
  · rintro rfl
    cases h
    rfl

end Lexeme

/-! ### How tokens end -/

namespace Number

theorem Exponent.IsWritten.mem_text {e : Exponent} (he : e.IsWritten) {c : Char}
    (hc : c ∈ e.text) : isDigit c = true ∨ c ∈ ['e', 'E', '+', '-'] := by
  rcases List.mem_cons.mp hc with rfl | hc
  · rcases he.mark with h | h <;> simp [h]
  · rcases List.mem_append.mp hc with hc | hc
    · rcases he.sign c (Option.mem_toList.mp hc) with h | h <;> simp [h]
    · exact .inl (he.digits c hc)

theorem Numeral.IsWritten.mem_text {n : Numeral} (hn : n.IsWritten) {c : Char}
    (hc : c ∈ n.text) : isDigit c = true ∨ c ∈ ['.', 'e', 'E', '+', '-'] := by
  rcases List.mem_append.mp hc with hc | hc
  · rcases List.mem_append.mp hc with hc | hc
    · exact .inl (hn.whole c hc)
    · cases hfraction : n.fraction with
      | none =>
          rw [hfraction] at hc
          cases hc
      | some ds =>
          rw [hfraction] at hc
          rcases List.mem_cons.mp hc with rfl | hc
          · simp
          · exact .inl (hn.fraction ds hfraction c hc)
  · cases hexponent : n.exponent with
    | none =>
        rw [hexponent] at hc
        cases hc
    | some e =>
        rw [hexponent] at hc
        exact ((hn.exponent e hexponent).mem_text hc).imp_right (List.mem_cons_of_mem _)

end Number

namespace Token

theorem linkWord?_isNCName {word : String} {t : Token} (h : linkWord? word = some t) :
    isNCName word.toList = true := by
  unfold linkWord? at h
  split at h <;> cases h <;> rfl

theorem bindingWord?_isNCName {word : String} {t : Token} (h : bindingWord? word = some t) :
    isNCName word.toList = true := by
  unfold bindingWord? at h
  split at h <;> cases h <;> rfl

/-- A name ends in a character of names. -/
theorem getLast?_ne_of_isNCName {word : List Char} (h : isNCName word = true) (cs : List Char)
    {c : Char} (hc : isNameChar c = false) : (cs ++ word).getLast? ≠ some c := by
  obtain ⟨⟨d, ds, rfl, -⟩, hall⟩ := isNCName_spec h
  intro hlast
  rw [List.getLast?_append, List.getLast?_eq_some_getLast (List.cons_ne_nil d ds)] at hlast
  have hmem := List.getLast_mem (List.cons_ne_nil d ds)
  rw [Option.some.inj hlast] at hmem
  rw [hall c hmem] at hc
  cases hc

/-- Every token is written with something. -/
theorem Spells.ne_nil {t : Token} {value : String} {text : List Char} (h : t.Spells value text) :
    text ≠ [] := by
  have hword : ∀ {word : List Char}, isNCName word = true → word ≠ [] := by
    intro word h
    obtain ⟨⟨c, cs, rfl, -⟩, -⟩ := isNCName_spec h
    exact List.cons_ne_nil c cs
  cases h with
  | symbol hmem =>
      have hsymbols : ∀ symbol ∈ symbols, symbol.1 ≠ [] := by decide
      exact hsymbols _ hmem
  | number hn =>
      rcases hn.digit with hwhole | ⟨d, ds, hfraction⟩
      · simp [Number.Numeral.text, hwhole]
      · simp [Number.Numeral.text, hfraction]
  | name h =>
      cases h with
      | simple hname => exact hword hname
      | qualified _ _ => simp
  | linkWord hlink =>
      have hname := linkWord?_isNCName hlink
      rw [String.toList_ofList] at hname
      exact hword hname
  | bindingWord hbinding =>
      have hname := bindingWord?_isNCName hbinding
      rw [String.toList_ofList] at hname
      exact hword hname
  | typeOperator _ _ hgap => simp [hgap]
  | _ => simp [Lexeme.quoted]

/-- Blanks, and marks that end no token but symbols. -/
def endMarks : List Char :=
  [' ', '\t', '\n', '\r', '/', ')', '\x7d']

/-- What ends in one of the marks is a symbol. -/
theorem Spells.of_mark {t : Token} {value : String} {text : List Char} {c : Char}
    (h : t.Spells value text) (hc : c ∈ endMarks) (hlast : text.getLast? = some c) :
    (text, t) ∈ symbols := by
  have hname : isNameChar c = false := by
    have hmarks : endMarks.all (!isNameChar ·) = true := by decide
    exact Bool.not_eq_true' _ ▸ List.all_eq_true.mp hmarks c hc
  cases h with
  | symbol hmem => exact hmem
  | string value hquote =>
      rw [Lexeme.quoted, ← List.cons_append, List.getLast?_concat] at hlast
      cases hlast
      rcases hquote with rfl | rfl
      · exact absurd hc (by decide)
      · exact absurd hc (by decide)
  | number hn =>
      have hnumbers : (endMarks.all fun c =>
          !(Number.isDigit c || ['.', 'e', 'E', '+', '-'].contains c)) = true := by decide
      have hnumber := List.all_eq_true.mp hnumbers c hc
      rcases hn.mem_text (List.mem_of_getLast? hlast) with hdigit | hother
      · simp [hdigit] at hnumber
      · have hcontains := List.contains_iff_mem.mpr hother
        rw [hcontains, Bool.or_true] at hnumber
        exact absurd hnumber Bool.false_ne_true
  | name hword =>
      cases hword with
      | simple hword => exact absurd hlast (getLast?_ne_of_isNCName hword [] hname)
      | @qualified qualifier name _ hword =>
          rw [List.append_cons] at hlast
          exact absurd hlast (getLast?_ne_of_isNCName hword _ hname)
  | linkWord hlink =>
      have hword := linkWord?_isNCName hlink
      rw [String.toList_ofList] at hword
      exact absurd hlast (getLast?_ne_of_isNCName hword [] hname)
  | bindingWord hbinding =>
      have hword := bindingWord?_isNCName hbinding
      rw [String.toList_ofList] at hword
      exact absurd hlast (getLast?_ne_of_isNCName hword [] hname)
  | typeOperator htype _ _ =>
      exact absurd hlast (getLast?_ne_of_isNCName (Lexeme.typeWord?_second htype) _ hname)
  | call _ _ =>
      rw [List.getLast?_concat] at hlast
      cases hlast
      exact absurd hc (by decide)
  | axis hword =>
      rw [List.getLast?_append] at hlast
      cases hlast
      exact absurd hc (by decide)
  | namespaceWildcard hword =>
      rw [List.getLast?_append] at hlast
      cases hlast
      exact absurd hc (by decide)
  | product | star | localWildcard =>
      cases hlast
      exact absurd hc (by decide)

end Token

end XPath
