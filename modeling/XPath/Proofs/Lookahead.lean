import XPath.Proofs.Lexemes

/-!
# How far a token looks ahead

A token that has been read is read again from every text that starts with it and goes on in
much the same way (`Lexeme.read_alike`). Most tokens see no more of what follows than its first
character, and all of them end before blanks, parentheses and commas. Only a word sees more: it
looks past the trivia behind it for a parenthesis, a variable or the second word of an operator.
-/

namespace XPath

/-! ### First characters -/

/-- A blank, a parenthesis or a comma. Every name, number and symbol ends before one. -/
def isStop (c : Char) : Bool :=
  Text.isBlank c || c = '(' || c = ')' || c = ','

/-- The test fails for blanks, parentheses and commas. -/
def FailsAtStops (p : Char → Bool) : Prop :=
  [' ', '\t', '\n', '\r', '(', ')', ','].any p = false

theorem FailsAtStops.eq_false {p : Char → Bool} (hp : FailsAtStops p) {c : Char}
    (hc : isStop c = true) : p c = false := by
  have hmem : c ∈ [' ', '\t', '\n', '\r', '(', ')', ','] := by
    simpa [isStop, Text.isBlank, or_assoc] using hc
  simpa using List.any_eq_false.mp hp c hmem

theorem failsAtStops_isNameChar : FailsAtStops isNameChar := rfl

theorem failsAtStops_isDigit : FailsAtStops Number.isDigit := rfl

/-- The second text starts like the first one, or with a character before which everything
ends. -/
def EndsLike (cs cs' : List Char) : Prop :=
  (∃ c ∈ cs'.head?, isStop c = true) ∨ cs'.head? = cs.head?

/-- No scan that ends before the first text goes on into the second one. -/
theorem EndsLike.head_false {cs cs' : List Char} (h : EndsLike cs cs') {p : Char → Bool}
    (hp : FailsAtStops p)
    (hcs : ∀ c ∈ cs.head?, p c = false) : ∀ c ∈ cs'.head?, p c = false := by
  intro c hc
  rcases h with ⟨d, hd, hstop⟩ | heq
  · rw [Option.mem_unique hc hd]
    exact hp.eq_false hstop
  · rw [heq] at hc
    exact hcs c hc

theorem EndsLike.head_ne {cs cs' : List Char} (h : EndsLike cs cs') {d : Char}
    (hd : isStop d = false) (hcs : cs.head? ≠ some d) : cs'.head? ≠ some d := by
  intro heq
  rcases h with ⟨c, hc, hstop⟩ | hsame
  · rw [heq] at hc
    cases hc
    rw [hstop] at hd
    cases hd
  · exact hcs (hsame ▸ heq)

theorem EndsLike.refl (cs : List Char) : EndsLike cs cs :=
  .inr rfl

theorem EndsLike.append {text : List Char} (htext : text ≠ []) (cs cs' : List Char) :
    EndsLike (text ++ cs) (text ++ cs') := by
  cases text with
  | nil => exact absurd rfl htext
  | cons c text => exact .inr rfl

theorem Number.Numeral.EndsAt.alike {n : Number.Numeral} {cs cs' : List Char} (h : n.EndsAt cs)
    (hcs : EndsLike cs cs') : n.EndsAt cs' where
  digit := hcs.head_false rfl h.digit
  point := fun hf he => hcs.head_false rfl (h.point hf he)
  mark := fun he => hcs.head_false rfl (h.mark he)
  sign := fun e he hs hd => hcs.head_false rfl (h.sign e he hs hd)

namespace Lexeme

/-! ### Strings and symbols -/

theorem readQuoted_append {quote : Char} {value rest : List Char}
    (hrest : rest.head? ≠ some quote) :
    readQuoted quote (doubled quote value ++ quote :: rest) = some (value, rest) := by
  induction value with
  | nil =>
      cases rest with
      | nil => simp [doubled, readQuoted]
      | cons c rest =>
          have hc : c ≠ quote := fun h => hrest (h ▸ rfl)
          simp [doubled, readQuoted, hc]
  | cons c value ih =>
      by_cases hc : c = quote
      · simp [doubled, readQuoted, hc, ih]
      · rw [doubled, if_neg hc, List.cons_append, readQuoted.eq_def]
        simp [hc, ih]

theorem readQuoted_ends {quote : Char} {cs value rest : List Char}
    (h : readQuoted quote cs = some (value, rest)) : rest.head? ≠ some quote := by
  fun_induction readQuoted quote cs generalizing value rest with
  | case1 => cases h
  | case2 =>
      cases h
      simp
  | case3 ds ih =>
      obtain ⟨⟨value', rest'⟩, hread, heq⟩ := Option.map_eq_some_iff.mp h
      cases heq
      exact ih hread
  | case4 d ds hd =>
      cases h
      simpa using hd
  | case5 c cs hc ih =>
      obtain ⟨⟨value', rest'⟩, hread, heq⟩ := Option.map_eq_some_iff.mp h
      cases heq
      exact ih hread

/-- A symbol has two characters at most, and no blank or parenthesis goes on one. -/
theorem symbols_short : ∀ symbol ∈ Token.symbols,
    symbol.1.length ≤ 2 ∧ symbol.1.tail.any isStop = false := by
  decide

theorem spelling_alike {spelling text cs cs' : List Char} (htext : text ≠ [])
    (hcs : EndsLike cs cs') (hshort : spelling.length ≤ 2)
    (hstop : spelling.tail.any isStop = false) (h : spelling <+: text ++ cs') :
    spelling <+: text ++ cs := by
  obtain ⟨rest, heq⟩ := h
  match spelling, text, hshort with
  | [], _, _ => exact List.nil_prefix
  | _, [], _ => exact absurd rfl htext
  | [c], d :: text, _ =>
      cases heq
      exact ⟨text ++ cs, rfl⟩
  | [c, d], e :: f :: text, _ =>
      cases heq
      exact ⟨text ++ cs, rfl⟩
  | [c, d], [e], _ =>
      cases heq
      rcases hcs with ⟨f, ⟨⟩, hf⟩ | heq
      · simp [hf] at hstop
      · obtain ⟨ds, rfl⟩ := List.head?_eq_some_iff.mp heq.symm
        exact ⟨ds, rfl⟩

theorem symbol?_alike {text cs cs' : List Char} {t : Token} (hcs : EndsLike cs cs')
    (h : Token.symbol? (text ++ cs) = some (text, t)) :
    Token.symbol? (text ++ cs') = some (text, t) := by
  have hmem : (text, t) ∈ Token.symbols := List.mem_of_find?_eq_some h
  have htext : text ≠ [] := spelling_ne_nil _ hmem
  unfold Token.symbol? at h ⊢
  rw [List.find?_eq_some_iff_append] at h ⊢
  obtain ⟨-, before, after, hsymbols, hbefore⟩ := h
  refine ⟨List.isPrefixOf_iff_prefix.mpr ⟨cs', rfl⟩, before, after, hsymbols, ?_⟩
  intro symbol hsymbol
  have hne := hbefore symbol hsymbol
  obtain ⟨hshort, hstop⟩ := symbols_short symbol (by rw [hsymbols]; simp [hsymbol])
  rw [Bool.not_eq_true', Bool.eq_false_iff, ne_eq, List.isPrefixOf_iff_prefix] at hne ⊢
  intro hprefix
  exact hne (spelling_alike htext hcs hshort hstop hprefix)

/-! ### Words -/

theorem afterWord?_spec {word cs rest : List Char} (h : afterWord? word cs = some rest) :
    cs = word ++ rest ∧ ∀ c ∈ rest.head?, isNameChar c = false := by
  refine ⟨afterWord?_text h, ?_⟩
  unfold afterWord? at h
  split at h
  · next hword =>
      cases h
      simp only [Bool.and_eq_true, Bool.not_eq_true'] at hword
      intro c hc
      have := hword.2
      rw [Option.mem_def.mp hc] at this
      simpa using this
  · cases h

theorem afterWord?_append {word rest : List Char}
    (hrest : ∀ c ∈ rest.head?, isNameChar c = false) :
    afterWord? word (word ++ rest) = some rest := by
  have hends : rest.head?.any isNameChar = false := by
    cases rest with
    | nil => rfl
    | cons c rest => exact hrest c rfl
  unfold afterWord?
  rw [List.drop_left, hends]
  simp [List.isPrefixOf_iff_prefix]

/-- The second text shows to a word before it what the first one does: it ends the word like
that, and behind its trivia comes nothing that changes what the word is. -/
structure LooksLike (cs cs' : List Char) : Prop where
  head : EndsLike cs cs'
  colon : cs.head? = some ':' → cs'.head? = some ':' → EndsLike cs.tail cs'.tail
  gap : ∀ gap after, Token.trivia cs = some (gap, after) →
    ∃ gap' after', Token.trivia cs' = some (gap', after') ∧
      (after'.head? = some '(' → after.head? = some '(') ∧
      (after'.head? = some '$' ↔ after.head? = some '$') ∧
      ∀ word second op, Token.typeWord? word = some (second, op) →
        afterWord? second.toList after = none → afterWord? second.toList after' = none

/-- What does not stand behind a colon in the first text does not in the second one. -/
theorem LooksLike.colon_false {cs cs' : List Char} (h : LooksLike cs cs') {p : Char → Bool}
    (hp : FailsAtStops p)
    (hcs : ∀ c ds, cs = ':' :: c :: ds → p c = false) :
    ∀ c ds, cs' = ':' :: c :: ds → p c = false := by
  rintro c ds rfl
  have hcolon : cs.head? = some ':' := by
    rcases h.head with ⟨d, ⟨⟩, hstop⟩ | heq
    · cases hstop
    · exact heq.symm
  obtain ⟨es, rfl⟩ := List.head?_eq_some_iff.mp hcolon
  have hfirst : ∀ d ∈ es.head?, p d = false := by
    intro d hd
    obtain ⟨fs, rfl⟩ := List.head?_eq_some_iff.mp hd
    exact hcs d fs rfl
  exact (h.colon rfl rfl).head_false hp hfirst c rfl

theorem LooksLike.refl (cs : List Char) : LooksLike cs cs where
  head := .refl cs
  colon := fun _ _ => .refl cs.tail
  gap := fun gap after h => ⟨gap, after, h, id, Iff.rfl, fun _ _ _ _ h => h⟩

theorem LooksLike.wordEnds {cs cs' : List Char} (h : LooksLike cs cs') (hcs : WordEnds cs) :
    WordEnds cs' := by
  refine ⟨h.head.head_false rfl hcs.nameChar, fun c ds heq => ?_⟩
  have hc := h.colon_false (p := fun d => d = ':' || d = '*' || isNameStart d) rfl
    (fun d es hd => by simpa [and_assoc] using hcs.colon d es hd) c ds heq
  simpa [and_assoc] using hc

theorem readTypeOperator_alike {word cs cs' : List Char} (h : LooksLike cs cs')
    (hread : readTypeOperator word cs = .ok none) : readTypeOperator word cs' = .ok none := by
  unfold readTypeOperator at hread ⊢
  split at hread
  · rfl
  · next second op htype =>
      split at hread
      · cases hread
      · next gap after hgap =>
          split at hread
          · next hafter =>
              obtain ⟨gap', after', hgap', -, -, hsecond⟩ := h.gap gap after hgap
              simp only [hgap', hsecond _ second op htype hafter]
          · cases hread

/-- A word is read again with all that it takes up, however the text goes on behind that. -/
theorem readTypeOperator_append {word cs cs' : List Char} {l : Lexeme}
    (hread : readTypeOperator word cs = .ok (some l)) (h : EndsLike l.rest cs') :
    ∃ more, l.text = word ++ more ∧ cs = more ++ l.rest ∧ more.head? ≠ some ':' ∧
      readTypeOperator word (more ++ cs') = .ok (some { l with rest := cs' }) := by
  unfold readTypeOperator at hread
  split at hread
  · cases hread
  · next second op htype =>
      split at hread
      · cases hread
      · next gap after hgap =>
          split at hread
          · cases hread
          · next rest hafter =>
              cases hread
              obtain ⟨rfl, htrivia, -⟩ := Token.trivia_eq_some_iff.mp hgap
              obtain ⟨rfl, hends⟩ := afterWord?_spec hafter
              have hends' := h.head_false failsAtStops_isNameChar hends
              obtain ⟨⟨c, ds, hsecond, hc⟩, -⟩ := isNCName_spec (typeWord?_second htype)
              have hgap' : Token.trivia (gap ++ (second.toList ++ cs')) =
                  some (gap, second.toList ++ cs') := by
                refine Token.trivia_eq_some_iff.mpr ⟨rfl, htrivia, ?_⟩
                rw [hsecond]
                exact (isSolid_of_isNameStart hc).endsTrivia
              refine ⟨gap ++ second.toList, by simp, by simp, ?_, ?_⟩
              · refine htrivia.head?_append_ne ?_
                rw [hsecond]
                rintro ⟨⟩
                exact absurd hc (by decide)
              · unfold readTypeOperator
                simp only [htype, List.append_assoc, hgap', afterWord?_append hends']

/-- A gap ends before the same token again. -/
theorem trivia_alike {gap text cs cs' : List Char}
    (hgap : Token.trivia (gap ++ (text ++ cs)) = some (gap, text ++ cs)) (htext : text ≠ [])
    (h : EndsLike cs cs') :
    Token.trivia (gap ++ (text ++ cs')) = some (gap, text ++ cs') := by
  obtain ⟨-, htrivia, hblank, hopens⟩ := Token.trivia_eq_some_iff.mp hgap
  obtain ⟨c, text, rfl⟩ := List.exists_cons_of_ne_nil htext
  refine Token.trivia_eq_some_iff.mpr ⟨rfl, htrivia, hblank, ?_⟩
  intro hprefix
  obtain ⟨rfl, ds, hds⟩ := Token.opens_iff.mp hprefix
  cases text with
  | cons d text =>
      cases hds
      exact hopens ⟨text ++ cs, rfl⟩
  | nil =>
      have hds : cs' = ':' :: ds := hds
      subst hds
      have hcolon : cs.head? ≠ some ':' := by
        intro hcolon
        obtain ⟨ds, rfl⟩ := List.head?_eq_some_iff.mp hcolon
        exact hopens ⟨ds, rfl⟩
      exact h.head_ne (by decide) hcolon rfl

/-- A parenthesis behind a gap is seen there again. -/
theorem trivia_call {gap rest cs' : List Char}
    (hgap : Token.trivia (gap ++ '(' :: rest) = some (gap, '(' :: rest))
    (h : EndsLike rest cs') :
    Token.trivia (gap ++ '(' :: cs') = some (gap, '(' :: cs') := by
  have hparen : Token.trivia (gap ++ (['('] ++ rest)) = some (gap, ['('] ++ rest) := hgap
  exact trivia_alike hparen (by simp) h

theorem LooksLike.call {gap rest cs' : List Char}
    (hgap : Token.trivia (gap ++ '(' :: rest) = some (gap, '(' :: rest))
    (h : EndsLike rest cs') : LooksLike (gap ++ '(' :: rest) (gap ++ '(' :: cs') where
  head := by
    cases gap with
    | nil => exact .inr rfl
    | cons c gap => exact .inr rfl
  colon := by
    intro hcolon
    obtain ⟨-, htrivia, -⟩ := Token.trivia_eq_some_iff.mp hgap
    exact absurd hcolon (htrivia.head?_append_ne (by simp))
  gap := by
    intro gap' after heq
    rw [hgap] at heq
    cases heq
    refine ⟨gap, '(' :: cs', trivia_call hgap h, fun _ => rfl, by simp, ?_⟩
    intro word second op htype _
    have hsecond := isNCName_spec (typeWord?_second htype)
    obtain ⟨⟨c, ds, hsecond, hc⟩, -⟩ := hsecond
    unfold afterWord?
    rw [hsecond, if_neg]
    have hparen : c ≠ '(' := isNameStart_ne hc (by decide)
    simp [List.isPrefixOf, hparen]

theorem readOperandWord_append {word cs cs' : List Char} {l : Lexeme}
    (hread : readOperandWord word cs = .ok l) (h : LooksLike l.rest cs') :
    ∃ more, l.text = word ++ more ∧ cs = more ++ l.rest ∧ more.head? ≠ some ':' ∧
      LooksLike (more ++ l.rest) (more ++ cs') ∧
      readOperandWord word (more ++ cs') = .ok { l with rest := cs' } := by
  unfold readOperandWord at hread
  split at hread
  · cases hread
  · next gap after hgap =>
      dsimp only at hread
      split at hread
      · next rest =>
          cases hread
          obtain ⟨rfl, htrivia, -⟩ := Token.trivia_eq_some_iff.mp hgap
          have hcall := LooksLike.call hgap h.head
          refine ⟨gap ++ ['('], by simp, by simp, htrivia.head?_append_ne (by simp),
            by simpa using hcall, ?_⟩
          unfold readOperandWord
          simp only [List.append_assoc, List.cons_append, List.nil_append,
            trivia_call hgap h.head]
      · next rest =>
          cases hread
          obtain ⟨gap', after', hgap', -, hdollar, -⟩ := h.gap gap _ hgap
          refine ⟨[], by simp, rfl, by simp, h, ?_⟩
          obtain ⟨rest', rfl⟩ := List.head?_eq_some_iff.mp (hdollar.mpr rfl)
          unfold readOperandWord
          simp only [List.nil_append, hgap']
      · next hparen hdollar =>
          cases hread
          obtain ⟨gap', after', hgap', hparen', hdollar', -⟩ := h.gap gap after hgap
          refine ⟨[], by simp, rfl, by simp, h, ?_⟩
          unfold readOperandWord
          simp only [List.nil_append, hgap']
          split
          · obtain ⟨ds, rfl⟩ := List.head?_eq_some_iff.mp (hparen' rfl)
            exact absurd rfl (hparen ds)
          · obtain ⟨ds, rfl⟩ := List.head?_eq_some_iff.mp (hdollar'.mp rfl)
            exact absurd rfl (hdollar ds)
          · rfl

/-- A word is read again with all that it takes up, however the text goes on behind that. -/
theorem readWord_append {preceding : Token} {word cs cs' : List Char} {l : Lexeme}
    (hread : readWord preceding word cs = .ok l) (h : LooksLike l.rest cs') :
    ∃ more, l.text = word ++ more ∧ cs = more ++ l.rest ∧ more.head? ≠ some ':' ∧
      readWord preceding word (more ++ cs') = .ok { l with rest := cs' } := by
  rw [readWord_eq] at hread
  by_cases hname : preceding = .dollar ∨ preceding = .localWildcard
  · rw [if_pos hname] at hread
    cases hread
    refine ⟨[], by simp, rfl, by simp, ?_⟩
    rw [readWord_eq, if_pos hname]
    rfl
  · rw [if_neg hname] at hread
    split at hread
    · cases hread
    · next l' htype =>
        cases hread
        split at htype
        · next hop =>
            obtain ⟨more, htext, rfl, hcolon, htype'⟩ := readTypeOperator_append htype h.head
            refine ⟨more, htext, rfl, hcolon, ?_⟩
            rw [readWord_eq, if_neg hname, if_pos hop, htype']
        · cases htype
    · next htype =>
        -- no type operator is read in the other text either
        have htype' : ∀ text', LooksLike cs text' →
            (if preceding.endsOperand ∨ preceding = .slash then readTypeOperator word text'
              else .ok none) = .ok none := by
          intro text' hlike
          split
          · next hop =>
              rw [if_pos hop] at htype
              exact readTypeOperator_alike hlike htype
          · rfl
        split at hread
        · next hends =>
            cases hread
            refine ⟨[], by simp, rfl, by simp, ?_⟩
            rw [readWord_eq, if_neg hname, List.nil_append, htype' _ h]
            exact if_pos hends
        · next hends =>
            obtain ⟨more, htext, rfl, hcolon, hlike, hread'⟩ := readOperandWord_append hread h
            refine ⟨more, htext, rfl, hcolon, ?_⟩
            rw [readWord_eq, if_neg hname, htype' _ hlike]
            exact (if_neg hends).trans hread'

theorem readName_alike {preceding : Token} {c : Char} {cs cs' : List Char} {l : Lexeme}
    (hc : isNameStart c = true) (hread : readName preceding (c :: cs) = .ok l)
    (h : LooksLike l.rest cs') :
    readName preceding (l.text ++ cs') = .ok { l with rest := cs' } := by
  have hname := readName_startsName preceding hc cs
  rw [hread] at hname
  generalize c :: cs = text at hname
  generalize hr : Except.ok l = r at hname
  apply StartsName.readName_eq
  cases hname with
  | axis hword =>
      cases hr
      simpa using StartsName.axis hword
  | namespaceWildcard hword =>
      cases hr
      simpa using StartsName.namespaceWildcard hword
  | simple hword hends =>
      obtain ⟨more, htext, rfl, hcolon, hread'⟩ := readWord_append hr.symm h
      have hends' : WordEnds (more ++ cs') := by
        cases more with
        | nil => exact h.wordEnds hends
        | cons d more =>
            refine ⟨hends.nameChar, fun e ds heq => ?_⟩
            simp only [List.cons_append, List.cons.injEq] at heq
            exact absurd (congrArg some heq.1) hcolon
      rw [← hread', htext, List.append_assoc]
      exact .simple hword hends'
  | qualified hqualifier hword hends =>
      obtain ⟨more, htext, rfl, -, hread'⟩ := readWord_append hr.symm h
      have hends' : ∀ d ∈ (more ++ cs').head?, isNameChar d = false := by
        cases more with
        | nil => exact h.head.head_false failsAtStops_isNameChar hends
        | cons d more => exact hends
      have hqualified : StartsName preceding _ _ := .qualified hqualifier hword hends'
      rw [← hread', htext]
      simpa using hqualified

/-! ### Tokens -/

theorem startsNumber_cons (c : Char) (cs : List Char) :
    startsNumber (c :: cs) =
      (Number.isDigit c || decide (c = '.') && cs.head?.any Number.isDigit) := by
  by_cases hc : c = '.'
  · subst hc
    cases cs with
    | nil => rfl
    | cons d cs => simp [startsNumber, show Number.isDigit '.' = false from rfl]
  · simp [startsNumber, hc]

theorem read_number {preceding : Token} {cs : List Char} (h : startsNumber cs = true) :
    read preceding cs = .ok (readNumber cs) := by
  cases cs with
  | nil => cases h
  | cons c cs =>
      have hc : ∀ d, Number.isDigit d = false → d ≠ '.' → c ≠ d := by
        rintro d hdigit hpoint rfl
        rw [startsNumber_cons, hdigit] at h
        simp [hpoint] at h
      have hquote : ¬(c = '"' ∨ c = '\'') := by
        simp [hc '"' rfl (by decide), hc '\'' rfl (by decide)]
      rw [read, if_neg (hc '*' rfl (by decide)), if_neg hquote, if_pos h]

theorem read_star (preceding : Token) (cs : List Char) :
    read preceding ('*' :: cs) = .ok (readStar preceding cs) :=
  rfl

/-- A star behind which no name has to follow. -/
theorem readStar_star {preceding : Token} (hends : preceding.endsOperand = false)
    {cs : List Char} (hcs : ∀ c ds, cs = ':' :: c :: ds → isNameStart c = false) :
    readStar preceding cs = ⟨.star, "", ['*'], cs⟩ := by
  unfold readStar
  rw [if_neg (by simp [hends])]
  split
  · next c rest => rw [if_neg (by simp [hcs c rest rfl])]
  · rfl

theorem readStar_wildcard {preceding : Token} (hends : preceding.endsOperand = false)
    {c : Char} (hc : isNameStart c = true) (rest : List Char) :
    readStar preceding (':' :: c :: rest) = ⟨.localWildcard, "", ['*', ':'], c :: rest⟩ := by
  simp [readStar, hends, hc]

theorem readStar_alike {preceding : Token} {cs cs' : List Char} {l : Lexeme}
    (hread : readStar preceding cs = l) (h : LooksLike l.rest cs')
    (hwildcard : l.token = .localWildcard → cs'.head? = l.rest.head?) :
    read preceding (l.text ++ cs') = .ok { l with rest := cs' } := by
  cases hends : preceding.endsOperand with
  | true =>
      simp only [readStar, hends, if_true] at hread
      subst hread
      simp [read_star, readStar, hends]
  | false =>
      by_cases hcs : ∀ c ds, cs = ':' :: c :: ds → isNameStart c = false
      · rw [readStar_star hends hcs] at hread
        subst hread
        simp [read_star, readStar_star hends (h.colon_false rfl hcs)]
      · simp only [Classical.not_forall, Bool.not_eq_false] at hcs
        obtain ⟨c, ds, rfl, hc⟩ := hcs
        rw [readStar_wildcard hends hc] at hread
        subst hread
        obtain ⟨ds', rfl⟩ := List.head?_eq_some_iff.mp (hwildcard rfl)
        simp [read_star, readStar_wildcard hends hc]

theorem readString_alike {preceding : Token} {quote : Char} {cs cs' : List Char} {l : Lexeme}
    (hquote : quote = '"' ∨ quote = '\'') (hread : readString quote cs = .ok l)
    (h : LooksLike l.rest cs') : read preceding (l.text ++ cs') = .ok { l with rest := cs' } := by
  unfold readString at hread
  split at hread
  · next value rest hquoted =>
      cases hread
      have hends : cs'.head? ≠ some quote := by
        refine h.head.head_ne ?_ (readQuoted_ends hquoted)
        rcases hquote with rfl | rfl <;> rfl
      have hstar : quote ≠ '*' := by rcases hquote with rfl | rfl <;> decide
      rw [quoted, List.cons_append, read, if_neg hstar, if_pos hquote, readString,
        List.append_assoc, List.cons_append, List.nil_append, readQuoted_append hends]
      rfl
  · cases hread

theorem readNumber_alike {preceding : Token} {cs cs' : List Char} {l : Lexeme}
    (hnumber : startsNumber cs = true) (hread : readNumber cs = l) (h : LooksLike l.rest cs') :
    read preceding (l.text ++ cs') = .ok { l with rest := cs' } := by
  subst hread
  have hwritten := Number.Numeral.read_isWritten hnumber
  have hends : (Number.Numeral.read cs).1.EndsAt cs' :=
    (Number.Numeral.read_endsAt cs).alike h.head
  show read preceding ((Number.Numeral.read cs).1.text ++ cs') = _
  rw [read_number (hwritten.startsNumber cs'), readNumber,
    Number.Numeral.read_append hwritten hends]
  rfl

theorem readSymbol_alike {preceding t : Token} {c : Char} {cs text cs' : List Char}
    (hstar : c ≠ '*') (hquote : ¬(c = '"' ∨ c = '\''))
    (hnumber : ¬startsNumber (c :: cs) = true) (hc : ¬isNameStart c = true)
    (hread : Token.symbol? (c :: cs) = some (text, t))
    (h : EndsLike ((c :: cs).drop text.length) cs') :
    read preceding (text ++ cs') = .ok ⟨t, "", text, cs'⟩ := by
  obtain ⟨hcovers, hmem⟩ := symbol?_text hread
  obtain ⟨d, text, rfl⟩ := List.exists_cons_of_ne_nil (spelling_ne_nil _ hmem)
  generalize (c :: cs).drop (d :: text).length = rest at hcovers h
  rw [List.cons_append, List.cons.injEq] at hcovers
  obtain ⟨rfl, rfl⟩ := hcovers
  have hread' : Token.symbol? (c :: text ++ cs') = some (c :: text, t) := symbol?_alike h hread
  -- a point does not start a number in the second text, since it does not in the first
  have hnumber' : ¬startsNumber (c :: (text ++ cs')) = true := by
    rw [startsNumber_cons] at hnumber ⊢
    cases text with
    | cons e text => exact hnumber
    | nil =>
        simp only [List.nil_append, Bool.or_eq_true, Bool.and_eq_true, decide_eq_true_eq,
          not_or, not_and] at hnumber ⊢
        refine ⟨hnumber.1, fun hpoint => ?_⟩
        have hdigit : ∀ d ∈ rest.head?, Number.isDigit d = false := by
          intro d hd
          have := hnumber.2 hpoint
          rw [Option.mem_def.mp hd] at this
          simpa using this
        have hdigit' := h.head_false failsAtStops_isDigit hdigit
        cases cs' with
        | nil => simp
        | cons e es => simp [hdigit' e rfl]
  rw [List.cons_append] at hread' ⊢
  rw [read, if_neg hstar, if_neg hquote, if_neg hnumber', if_neg hc, hread']
  simp


/-- A token that has been read is read from every text that starts with the same characters and
goes on in much the same way. -/
theorem read_alike {preceding : Token} {cs cs' : List Char} {l : Lexeme} (hcs : cs ≠ [])
    (hread : read preceding cs = .ok l) (h : LooksLike l.rest cs')
    (hwildcard : l.token = .localWildcard → cs'.head? = l.rest.head?) :
    read preceding (l.text ++ cs') = .ok { l with rest := cs' } := by
  have htext := text_ne_nil hcs hread
  obtain ⟨hcovers, -⟩ := read_covers hcs hread
  cases cs with
  | nil => exact absurd rfl hcs
  | cons c cs =>
      obtain ⟨text, hl⟩ : ∃ text, l.text = c :: text := by
        obtain ⟨d, text, hl⟩ := List.exists_cons_of_ne_nil htext
        rw [hl, List.cons_append, List.cons.injEq] at hcovers
        exact ⟨text, by rw [hl, hcovers.1]⟩
      rw [read] at hread
      split at hread
      · exact readStar_alike (Except.ok.inj hread) h hwildcard
      · next hstar =>
          split at hread
          · next hquote => exact readString_alike hquote hread h
          · next hquote =>
              split at hread
              · next hnumber => exact readNumber_alike hnumber (Except.ok.inj hread) h
              · next hnumber =>
                  split at hread
                  · next hc =>
                      have hname := readName_alike hc hread h
                      rw [hl, List.cons_append] at hname ⊢
                      rw [read_name hc]
                      exact hname
                  · next hc =>
                      split at hread
                      · next hsymbol =>
                          cases hread
                          exact readSymbol_alike hstar hquote hnumber hc hsymbol h.head
                      · cases hread

/-- A wildcard for namespaces has a name behind it. -/
theorem rest_ne_nil_of_localWildcard {preceding : Token} {cs : List Char} {l : Lexeme}
    (hcs : cs ≠ []) (hread : read preceding cs = .ok l) (hl : l.token = .localWildcard) :
    l.rest ≠ [] := by
  obtain ⟨hcovers, hspells⟩ := read_covers hcs hread
  rw [hspells.localWildcard_text hl] at hcovers
  intro hnil
  rw [hnil] at hcovers
  subst hcovers
  have hl' : l = readStar preceding [':'] := (Except.ok.inj hread).symm
  subst hl'
  unfold readStar at hl
  split at hl <;> cases hl

/-! ### Texts that show the same -/

theorem read_colon {preceding : Token} {cs : List Char} {l : Lexeme} :
    read preceding (':' :: cs) ≠ .ok l := by
  have hnumber : ¬startsNumber (':' :: cs) = true := by
    rw [startsNumber_cons]
    simp [show Number.isDigit ':' = false from rfl]
  have hc : ¬isNameStart ':' = true := by decide
  have hsymbol : Token.symbol? (':' :: cs) = none := rfl
  rw [read, if_neg (by decide), if_neg (by decide), if_neg hnumber, if_neg hc, hsymbol]
  simp

/-- A name that is all that a token is written with ends where the token does. -/
theorem read_name_ends {preceding : Token} {cs : List Char} {l : Lexeme}
    (hread : read preceding cs = .ok l) (hname : isNCName l.text = true) :
    ∀ c ∈ l.rest.head?, isNameChar c = false := by
  obtain ⟨⟨c, text, htext, hc⟩, hchars⟩ := isNCName_spec hname
  have hcs : cs ≠ [] := by
    rintro rfl
    cases hread
    cases htext
  obtain ⟨hcovers, -⟩ := read_covers hcs hread
  rw [htext, List.cons_append] at hcovers
  subst hcovers
  rw [read_name hc] at hread
  have hstarts := readName_startsName preceding hc (text ++ l.rest)
  rw [hread] at hstarts
  rw [← List.cons_append, ← htext] at hstarts
  generalize htext' : l.text ++ l.rest = cs at hstarts
  generalize hr : Except.ok l = r at hstarts
  -- the text has no colon, and it goes on behind its first word only with what ends names
  have hcolon : ':' ∉ l.text := fun h => absurd (hchars ':' h) (by decide)
  cases hstarts with
  | axis hword =>
      cases hr
      exact absurd (by simp) hcolon
  | namespaceWildcard hword =>
      cases hr
      exact absurd (by simp) hcolon
  | simple hword hends =>
      obtain ⟨more, hmore, hrest, -, -⟩ := readWord_append hr.symm (.refl _)
      rw [hrest] at hends
      cases more with
      | nil => exact hends.nameChar
      | cons d more =>
          have hd := hchars d (by rw [hmore]; simp)
          have hd' := hends.nameChar d rfl
          rw [hd] at hd'
          cases hd'
  | qualified hqualifier hword hends =>
      obtain ⟨more, hmore, -, -, -⟩ := readWord_append hr.symm (.refl _)
      exact absurd (by rw [hmore]; simp) hcolon

/-- The second word of an operator is not there in a text that goes on in much the same way
behind its first token. -/
theorem afterWord?_alike {preceding : Token} {text cs cs' word : List Char} {t : Token}
    {value : String} (hread : read preceding (text ++ cs) = .ok ⟨t, value, text, cs⟩)
    (htext : text ≠ []) (h : EndsLike cs cs') (hword : isNCName word = true)
    (hafter : afterWord? word (text ++ cs) = none) : afterWord? word (text ++ cs') = none := by
  cases hafter' : afterWord? word (text ++ cs') with
  | none => rfl
  | some rest =>
      exfalso
      obtain ⟨hsplit, hrest⟩ := afterWord?_spec hafter'
      obtain ⟨⟨c, ds, hc, hstart⟩, hchars⟩ := isNCName_spec hword
      rcases List.append_eq_append_iff.mp hsplit with ⟨more, rfl, rfl⟩ | ⟨more, rfl, rfl⟩
      · -- the token is the head of the word or the word itself, and ends where names end
        have hname : isNCName text = true := by
          cases text with
          | nil => exact absurd rfl htext
          | cons d text =>
              cases hc
              rw [isNCName, hstart, Bool.true_and, List.all_eq_true]
              intro e he
              exact hchars e (by simp [he])
        have hends := read_name_ends hread hname
        cases more with
        | nil =>
            rw [List.append_nil, afterWord?_append hends] at hafter
            cases hafter
        | cons d more =>
            have hd := hchars d (by simp)
            have hd' := h.head_false failsAtStops_isNameChar hends d rfl
            rw [hd] at hd'
            cases hd'
      · rw [List.append_assoc, afterWord?_append] at hafter
        · cases hafter
        · cases more with
          | nil =>
              rw [List.append_nil] at hread
              exact read_name_ends hread hword
          | cons d more => exact hrest

/-- Behind a token that is read, two texts may go on differently, and before it they show the
same. -/
theorem LooksLike.of_read {preceding : Token} {gap text cs cs' : List Char} {t : Token}
    {value : String} (hgap : Token.trivia (gap ++ (text ++ cs)) = some (gap, text ++ cs))
    (hread : read preceding (text ++ cs) = .ok ⟨t, value, text, cs⟩) (htext : text ≠ [])
    (h : EndsLike cs cs') : LooksLike (gap ++ (text ++ cs)) (gap ++ (text ++ cs')) := by
  obtain ⟨-, htrivia, -⟩ := Token.trivia_eq_some_iff.mp hgap
  obtain ⟨c, text, rfl⟩ := List.exists_cons_of_ne_nil htext
  have hcolon : (c :: text ++ cs).head? ≠ some ':' := by
    rintro ⟨⟩
    exact read_colon hread
  constructor
  · rw [← List.append_assoc, ← List.append_assoc]
    exact .append (by simp) cs cs'
  · intro hhead
    exact absurd hhead (htrivia.head?_append_ne hcolon)
  · intro gap' after heq
    rw [hgap] at heq
    cases heq
    exact ⟨gap, _, trivia_alike hgap htext h, id, Iff.rfl, fun word second op htype =>
      afterWord?_alike hread htext h (typeWord?_second htype)⟩

/-- Trivia in front of a text change nothing behind them. -/
theorem LooksLike.insert {gap : List Char} (hgap : Token.IsTrivia 0 gap) (cs : List Char) :
    LooksLike cs (gap ++ cs) := by
  cases gap with
  | nil => exact .refl cs
  | cons c gap =>
      have hstop : isStop c = true := by
        rcases hgap.head with hblank | ⟨rfl, -⟩
        · simp [isStop, hblank]
        · rfl
      constructor
      · exact .inl ⟨c, rfl, hstop⟩
      · rintro - ⟨⟩
        cases hstop
      · intro gap' after heq
        refine ⟨c :: gap ++ gap', after, ?_, id, Iff.rfl, fun _ _ _ _ h => h⟩
        rw [Token.trivia_append hgap, heq]
        rfl

/-- Where nothing but trivia is left, there may be more of them. -/
theorem LooksLike.at_end {cs gap : List Char} (hcs : Token.IsTrivia 0 cs)
    (hgap : Token.IsTrivia 0 gap) : LooksLike cs (cs ++ gap) := by
  cases cs with
  | nil => simpa using LooksLike.insert hgap []
  | cons c cs =>
      have hall : ∀ {text : List Char}, Token.IsTrivia 0 text →
          Token.trivia text = some (text, []) := fun h =>
        Token.trivia_eq_some_iff.mpr ⟨by simp, h, Token.endsTrivia_nil⟩
      have hcolon : (c :: cs).head? ≠ some ':' := by
        have hnil : ([] : List Char).head? ≠ some ':' := by simp
        simpa using hcs.head?_append_ne hnil
      refine ⟨.inr rfl, fun h => absurd h hcolon, fun gap' after heq => ?_⟩
      rw [hall hcs] at heq
      cases heq
      exact ⟨_, [], hall (hcs.append hgap), id, Iff.rfl, fun _ _ _ _ h => h⟩

end Lexeme

/-! ### Cursors -/

/-- A token that a cursor reads is read by every cursor behind the same token, before a text
that goes on in much the same way. More trivia may stand before the token. -/
theorem Cursor.advance_alike {c d : Cursor} (hadvance : c.advance = (.ok (), d))
    (hd : d.token ≠ .eof) :
    ∃ gap l, d = c.accept gap l ∧ Token.IsTrivia 0 gap ∧ l.text ≠ [] ∧
      c.rest = gap ++ (l.text ++ l.rest) ∧ (l.token = .localWildcard → l.rest ≠ []) ∧
      ∀ cs', Lexeme.LooksLike l.rest cs' →
        (l.token = .localWildcard → cs'.head? = l.rest.head?) →
        Lexeme.LooksLike c.rest (gap ++ (l.text ++ cs')) ∧
        ∀ (c' : Cursor) more, c'.token = c.token → Token.IsTrivia 0 more →
          c'.rest = more ++ (gap ++ (l.text ++ cs')) →
          c'.advance = (.ok (), c'.accept (more ++ gap) { l with rest := cs' }) := by
  obtain ⟨gap, rest, l, hgap, hread, rfl⟩ := advance_ok hadvance
  obtain ⟨hsplit, htrivia, -⟩ := Token.trivia_eq_some_iff.mp hgap
  have hrest : rest ≠ [] := fun h => hd ((Lexeme.token_eq_eof_iff hread).mpr h)
  have htext := Lexeme.text_ne_nil hrest hread
  obtain ⟨hcovers, -⟩ := Lexeme.read_covers hrest hread
  rw [hcovers] at hsplit
  refine ⟨gap, l, rfl, htrivia, htext, hsplit,
    Lexeme.rest_ne_nil_of_localWildcard hrest hread, fun cs' hcs' hwildcard => ?_⟩
  have hread' := Lexeme.read_alike hrest hread hcs' hwildcard
  rw [hsplit, hcovers] at hgap
  rw [hcovers] at hread
  constructor
  · rw [hsplit]
    exact Lexeme.LooksLike.of_read hgap hread htext hcs'.head
  · intro c' more htoken hmore hc'
    apply advance_eq
    · rw [hc', Token.trivia_append hmore, Lexeme.trivia_alike hgap htext hcs'.head]
      rfl
    · rw [htoken]
      exact hread'

end XPath
