import XPath.Expr.Render
import XPath.Proofs.Lookahead

/-!
# Two texts with a seam

Two texts that start alike go on differently behind a seam: with a blank and a word in the first
one, with a comma in the second one. As long as no token of the first text reaches over the seam,
the same tokens are read from both, and then the word from one and the comma from the other
(`Track.seam`). A token that does reach over it, or a comment that does, leaves a cursor in the
first text behind the word for good.
-/

namespace XPath

namespace Token

/-- A blank at the end of trivia stands behind all comments. -/
theorem IsTrivia.of_blank {n : Nat} {cs : List Char} (h : IsTrivia n (cs ++ [' '])) :
    IsTrivia n cs := by
  generalize htext : cs ++ [' '] = text at h
  induction h generalizing cs with
  | nil => simp at htext
  | @blank c ds hc h ih =>
      match cs with
      | [] => exact .nil
      | d :: cs =>
          cases htext
          exact .blank hc (ih rfl)
  | opening h ih =>
      match cs with
      | [] => cases htext
      | [d] => cases htext
      | d :: e :: cs =>
          cases htext
          exact .opening (ih rfl)
  | closing h ih =>
      match cs with
      | [] => cases htext
      | [d] => cases htext
      | d :: e :: cs =>
          cases htext
          exact .closing (ih rfl)
  | inside hopen hclose h ih =>
      match cs with
      | [] =>
          cases htext
          cases h
      | d :: cs =>
          cases htext
          have hcs := ih rfl
          exact .inside (fun hstarts => hopen (hstarts.trans ⟨[' '], rfl⟩))
            (fun hstarts => hclose (hstarts.trans ⟨[' '], rfl⟩)) hcs

/-- The trivia before a seam end at it or before it, or the first text has a blank there that
belongs to them. -/
theorem trivia_before_blank {mid x gap after : List Char}
    (hgap : trivia (mid ++ ' ' :: x) = some (gap, after)) (hlength : x.length ≤ after.length) :
    (∃ body, body ≠ [] ∧ mid = gap ++ body ∧ after = body ++ ' ' :: x) ∨
      IsTrivia 0 mid ∧ gap = mid ++ [' '] ∧ after = x := by
  obtain ⟨hsplit, htrivia, hends⟩ := trivia_eq_some_iff.mp hgap
  have hblank : after ≠ ' ' :: x := by
    rintro rfl
    exact absurd (hends.1 ' ' rfl) (by decide)
  rcases List.append_eq_append_iff.mp hsplit with ⟨more, hmore, hx⟩ | ⟨body, hbody, hafter⟩
  · match more with
    | [] => exact absurd hx.symm hblank
    | [c] =>
        cases hx
        rw [hmore] at htrivia
        exact .inr ⟨htrivia.of_blank, hmore, rfl⟩
    | c :: d :: more =>
        have hlengths := congrArg List.length hx
        simp only [List.length_cons, List.length_append] at hlengths
        omega
  · refine .inl ⟨body, ?_, hbody, hafter⟩
    rintro rfl
    exact hblank hafter

/-- No token ends with a blank. -/
theorem Spells.getLast?_ne_blank {t : Token} {value : String} {text : List Char}
    (h : t.Spells value text) : text.getLast? ≠ some ' ' := by
  intro hlast
  have hsymbols : ∀ symbol ∈ symbols, symbol.1.getLast? ≠ some ' ' := by decide
  exact hsymbols _ (h.of_mark (by decide) hlast) hlast

theorem linkWord?_eq_action {kind : BindingKind} {word : String}
    (h : linkWord? word = some (Parse.actionToken kind)) : word = kind.actionWord := by
  unfold linkWord? at h
  cases kind <;> split at h <;> first | rfl | cases h

theorem bindingWord?_ne_action {kind : BindingKind} (word : String) :
    bindingWord? word ≠ some (Parse.actionToken kind) := by
  intro h
  unfold bindingWord? at h
  cases kind <;> split at h <;> cases h

/-- The word before an action is all that its token is written with. -/
theorem Spells.of_action {kind : BindingKind} {value : String} {text : List Char}
    (h : (Parse.actionToken kind).Spells value text) : text = kind.actionWord.toList := by
  generalize ht : Parse.actionToken kind = t at h
  cases h with
  | symbol hmem =>
      have hsymbols : ∀ symbol ∈ symbols, ∀ kind, symbol.2 ≠ Parse.actionToken kind := by
        rintro symbol hsymbol (_ | _ | _) <;> revert symbol <;> decide
      exact absurd ht.symm (hsymbols _ hmem kind)
  | linkWord hword =>
      subst ht
      rw [← linkWord?_eq_action hword, String.toList_ofList]
  | bindingWord hword =>
      subst ht
      exact absurd hword (bindingWord?_ne_action _)
  | @call word =>
      rcases ofCallWord_cases (String.ofList word) with h | ⟨h, -⟩ | h <;> rw [h] at ht <;>
        cases kind <;> cases ht
  | _ => cases kind <;> cases ht

end Token

namespace Lexeme

/-! ### Before a comma -/

theorem read_comma (preceding : Token) (cs : List Char) :
    read preceding (',' :: cs) = .ok ⟨.comma, "", [','], cs⟩ :=
  rfl

theorem trivia_comma {gap : List Char} (h : Token.IsTrivia 0 gap) (cs : List Char) :
    Token.trivia (gap ++ ',' :: cs) = some (gap, ',' :: cs) :=
  Token.trivia_eq_some_iff.mpr
    ⟨rfl, h, Token.IsSolid.endsTrivia ⟨',', cs, rfl, rfl, by decide⟩⟩

theorem EndsLike.comma (mid x y : List Char) : EndsLike (mid ++ ' ' :: x) (mid ++ ',' :: y) := by
  cases mid with
  | nil => exact .inl ⟨',', rfl, rfl⟩
  | cons c mid => exact .inr rfl

theorem endsTrivia_comma {body x : List Char} (hbody : body ≠ [])
    (h : Token.EndsTrivia (body ++ ' ' :: x)) (y : List Char) :
    Token.EndsTrivia (body ++ ',' :: y) := by
  match body with
  | [] => exact absurd rfl hbody
  | [c] =>
      refine ⟨h.1, fun hopens => ?_⟩
      obtain ⟨-, ds, hds⟩ := Token.opens_iff.mp hopens
      cases hds
  | c :: d :: body =>
      refine ⟨h.1, fun hopens => h.2 ?_⟩
      obtain ⟨rfl, ds, hds⟩ := Token.opens_iff.mp hopens
      cases hds
      exact ⟨body ++ ' ' :: x, rfl⟩

theorem afterWord?_comma {word body x : List Char} (hword : isNCName word = true)
    (h : afterWord? word (body ++ ' ' :: x) = none) (y : List Char) :
    afterWord? word (body ++ ',' :: y) = none := by
  cases hafter : afterWord? word (body ++ ',' :: y) with
  | none => rfl
  | some rest =>
      exfalso
      obtain ⟨hsplit, hrest⟩ := afterWord?_spec hafter
      -- the word does not reach beyond the comma, so it is in the text before that
      rcases List.append_eq_append_iff.mp hsplit with ⟨more, rfl, htail⟩ | ⟨more, rfl, htail⟩
      · cases more with
        | nil =>
            have hends : ∀ c ∈ (' ' :: x).head?, isNameChar c = false := by
              rintro c ⟨⟩
              rfl
            rw [List.append_nil, afterWord?_append hends] at h
            cases h
        | cons c more =>
            cases htail
            have hchar := (isNCName_spec hword).2 ',' (by simp)
            cases hchar
      · have hends : ∀ c ∈ (more ++ ' ' :: x).head?, isNameChar c = false := by
          cases more with
          | nil =>
              rintro c ⟨⟩
              rfl
          | cons c more =>
              rw [htail] at hrest
              exact hrest
        rw [List.append_assoc, afterWord?_append hends] at h
        cases h

/-- A comma behind a text ends it like a blank and a word, unless the trivia at its end go on
behind the blank. -/
theorem LooksLike.comma {mid x gap after : List Char} (hx : x.head? ≠ some '$')
    (hgap : Token.trivia (mid ++ ' ' :: x) = some (gap, after)) (hlength : x.length ≤ after.length)
    (y : List Char) : LooksLike (mid ++ ' ' :: x) (mid ++ ',' :: y) where
  head := EndsLike.comma mid x y
  colon := by
    intro hcolon _
    cases mid with
    | nil => cases hcolon
    | cons c mid => exact EndsLike.comma mid x y
  gap := by
    intro gap' after' heq
    rw [hgap] at heq
    cases heq
    obtain ⟨-, htrivia, hends⟩ := Token.trivia_eq_some_iff.mp hgap
    rcases Token.trivia_before_blank hgap hlength with ⟨body, hbody, rfl, rfl⟩ | ⟨hmid, -, rfl⟩
    · obtain ⟨c, body, rfl⟩ := List.exists_cons_of_ne_nil hbody
      refine ⟨gap, c :: body ++ ',' :: y, ?_, id, Iff.rfl, ?_⟩
      · exact Token.trivia_eq_some_iff.mpr ⟨by simp, htrivia, endsTrivia_comma hbody hends y⟩
      · intro word second op htype hafter
        exact afterWord?_comma (typeWord?_second htype) hafter y
    · refine ⟨mid, ',' :: y, trivia_comma hmid y, by simp, by simp [hx], ?_⟩
      intro word second op htype _
      obtain ⟨⟨c, ds, hsecond, hc⟩, -⟩ := isNCName_spec (typeWord?_second htype)
      unfold afterWord?
      rw [hsecond, if_neg]
      have hcomma : c ≠ ',' := isNameStart_ne hc (by decide)
      simp [List.isPrefixOf, hcomma]

/-- A wildcard for namespaces has a name behind it. -/
theorem isNameStart_of_localWildcard {preceding : Token} {cs : List Char} {l : Lexeme}
    (hcs : cs ≠ []) (hread : read preceding cs = .ok l) (hl : l.token = .localWildcard) :
    ∀ c ∈ l.rest.head?, isNameStart c = true := by
  obtain ⟨hcovers, hspells⟩ := read_covers hcs hread
  rw [hspells.localWildcard_text hl] at hcovers
  subst hcovers
  generalize l.rest = rest at hread ⊢
  have hl' : l = readStar preceding (':' :: rest) := (Except.ok.inj hread).symm
  subst hl'
  intro c hc
  obtain ⟨ds, rfl⟩ := List.head?_eq_some_iff.mp hc
  unfold readStar at hl
  split at hl
  · cases hl
  · split at hl
    · next heq =>
        cases heq
        split at hl
        · next hstart => exact hstart
        · cases hl
    · cases hl

end Lexeme

namespace Cursor

variable {c d : Cursor}

theorem rest_of_eof (h : c.advance = (.ok (), d)) (hd : d.token = .eof) : d.rest = [] := by
  obtain ⟨gap, rest, l, -, hread, rfl⟩ := advance_ok h
  obtain rfl := (Lexeme.token_eq_eof_iff hread).mp hd
  cases hread
  rfl

theorem isNameStart_of_localWildcard (h : c.advance = (.ok (), d)) (hd : d.token = .localWildcard) :
    ∀ e ∈ d.rest.head?, isNameStart e = true := by
  obtain ⟨gap, rest, l, -, hread, rfl⟩ := advance_ok h
  refine Lexeme.isNameStart_of_localWildcard ?_ hread hd
  rintro rfl
  cases hread
  cases hd

end Cursor

/-! ### Cursors side by side -/

/-- A way on which two cursors move alike. Inside of what is to be read, both are at the same token.
At the end of that, the first cursor is at the word before an action and the second one at a
comma. The first cursor is lost when it has gone past the end in another way, or will do so with
its next token. -/
structure Track where
  Inside : Cursor → Cursor → Prop
  AtEnd : Cursor → Cursor → Prop
  Lost : Cursor → Prop
  token {c c' : Cursor} : Inside c c' → c'.token = c.token
  value {c c' : Cursor} : Inside c c' → c'.value = c.value
  ends {c c' : Cursor} : AtEnd c c' →
    (c.token = .returnWord ∨ c.token = .satisfiesWord) ∧ c'.token = .comma
  advance {c c' d : Cursor} : Inside c c' → c.advance = (.ok (), d) →
    Lost d ∨ ∃ d', c'.advance = (.ok (), d') ∧ (Inside d d' ∨ AtEnd d d')
  endOperand {c c' : Cursor} : Inside c c' → Inside c.endOperand c'.endOperand
  past {c c' d : Cursor} : AtEnd c c' → c.advance = (.ok (), d) → Lost d
  lost_advance {c d : Cursor} : Lost c → c.advance = (.ok (), d) → Lost d
  lost_endOperand {c : Cursor} : Lost c → Lost c.endOperand

namespace Track

/-- The cursor is neither lost nor at the end. -/
def Before (k : Track) (c : Cursor) : Prop :=
  ¬k.Lost c ∧ ∀ c', ¬k.AtEnd c c'

/-- A cursor that is lost stays so. -/
theorem lost_of_reaches {k : Track} {c d : Cursor} (h : c.Reaches d) (hc : k.Lost c) :
    k.Lost d := by
  induction h with
  | refl => exact hc
  | advance _ hd ih => exact k.lost_advance ih hd
  | endOperand _ ih => exact k.lost_endOperand ih

/-- Two cursors before the same text. -/
def same : Track where
  Inside c c' := c'.rest = c.rest ∧ c'.token = c.token ∧ c'.value = c.value
  AtEnd _ _ := False
  Lost _ := False
  token h := h.2.1
  value h := h.2.2
  ends h := h.elim
  advance := by
    rintro c c' d ⟨hrest, htoken, -⟩ hadvance
    obtain ⟨gap, after, l, hgap, hread, rfl⟩ := Cursor.advance_ok hadvance
    rw [← hrest] at hgap
    rw [← htoken] at hread
    exact .inr ⟨_, Cursor.advance_eq hgap hread, .inl ⟨rfl, rfl, rfl⟩⟩
  endOperand h := ⟨h.1, rfl, h.2.2⟩
  past h _ := h.elim
  lost_advance h _ := h
  lost_endOperand h := h

end Track

/-- Where two texts part: the first one goes on with a blank, the word before an action, a blank
and `rest`, the second one with a comma and `rest'`. -/
structure Seam where
  kind : BindingKind
  rest : List Char
  rest' : List Char

namespace Seam

variable {k : Seam} {c c' d : Cursor}

/-- The word and what follows it. -/
def word (k : Seam) : List Char :=
  k.kind.actionWord.toList ++ ' ' :: k.rest

/-- The trivia before the next token do not go past the blank at the seam. -/
def Keeps (k : Seam) (cs : List Char) : Prop :=
  ∃ gap after, Token.trivia cs = some (gap, after) ∧ k.word.length ≤ after.length

/-- The same text is left before the seam. -/
def Inside (k : Seam) (c c' : Cursor) : Prop :=
  ∃ mid, c.rest = mid ++ ' ' :: k.word ∧ c'.rest = mid ++ ',' :: k.rest' ∧
    c'.token = c.token ∧ c'.value = c.value ∧ k.Keeps c.rest

/-- The cursor is at the word of the seam. -/
def AtWord (k : Seam) (c : Cursor) : Prop :=
  c.token = Parse.actionToken k.kind ∧ c.rest = ' ' :: k.rest

/-- One cursor is at the word and the other one at the comma. -/
def AtEnd (k : Seam) (c c' : Cursor) : Prop :=
  k.AtWord c ∧ c'.token = .comma ∧ c'.rest = k.rest'

/-- The next token starts behind the start of the word, and the current one is not that word. -/
def Lost (k : Seam) (c : Cursor) : Prop :=
  (∀ gap after, Token.trivia c.rest = some (gap, after) → after.length < k.word.length) ∧
    ¬(c.token = Parse.actionToken k.kind ∧ c.rest.length = k.rest.length + 1)

theorem length_word (k : Seam) :
    k.word.length = k.kind.actionWord.toList.length + (k.rest.length + 1) := by
  simp [word]

theorem length_actionWord_pos (k : Seam) : 0 < k.kind.actionWord.toList.length := by
  cases k.kind <;> decide

theorem word_ne_nil (k : Seam) : k.word ≠ [] := by
  simp [word]

theorem head?_word (k : Seam) : k.word.head? ≠ some '$' := by
  unfold word
  cases k.kind <;> simp [BindingKind.actionWord]

theorem length_after {cs gap after : List Char} (h : Token.trivia cs = some (gap, after)) :
    after.length ≤ cs.length := by
  obtain ⟨rfl, -, -⟩ := Token.trivia_eq_some_iff.mp h
  simp

/-- Less than the word is left, and the cursor has not read just this word. -/
theorem lost_of_length (hrest : c.rest.length < k.word.length)
    (hword : c.token = Parse.actionToken k.kind → c.rest.length ≠ k.rest.length + 1) :
    k.Lost c := by
  refine ⟨fun gap after hgap => ?_, fun h => hword h.1 h.2⟩
  have := length_after hgap
  omega

/-- Before the seam a cursor that is not lost keeps its trivia before the word. -/
theorem keeps_or_lost {mid : List Char} (hrest : c.rest = mid ++ ' ' :: k.word) :
    k.Keeps c.rest ∨ k.Lost c := by
  by_cases hkeeps : k.Keeps c.rest
  · exact .inl hkeeps
  · refine .inr ⟨fun gap after hgap => ?_, fun h => ?_⟩
    · exact Nat.lt_of_not_le fun hle => hkeeps ⟨gap, after, hgap, hle⟩
    · have hlength := h.2
      rw [hrest, List.length_append, List.length_cons, length_word] at hlength
      omega

/-- A cursor that is at the word is before no seam. -/
theorem AtWord.atEnd (h : k.AtWord c) (hbeside : k.Inside c c' ∨ k.AtEnd c c') : k.AtEnd c c' := by
  rcases hbeside with ⟨mid, hrest, -⟩ | hend
  · have hlength := congrArg List.length (h.2.symm.trans hrest)
    rw [List.length_append, List.length_cons, List.length_cons, length_word] at hlength
    have hword := k.length_actionWord_pos
    omega
  · exact hend

/-- A token that is the word of the seam is written with all of it. -/
theorem length_of_action {preceding : Token} {cs : List Char} {l : Lexeme}
    (hread : Lexeme.read preceding cs = .ok l) (hl : l.token = Parse.actionToken k.kind) :
    cs = k.kind.actionWord.toList ++ l.rest := by
  have hcs : cs ≠ [] := by
    rintro rfl
    cases hread
    cases hkind : k.kind <;> rw [hkind] at hl <;> cases hl
  obtain ⟨hcovers, hspells⟩ := Lexeme.read_covers hcs hread
  rw [hl] at hspells
  rw [hcovers, hspells.of_action]

/-- A token that starts behind the start of the word is not the word of the seam. -/
theorem lost_of_read {gap after : List Char} {l : Lexeme}
    (hread : Lexeme.read c.token after = .ok l) (hafter : after.length < k.word.length) :
    k.Lost (c.accept gap l) := by
  have hle : l.rest.length ≤ after.length := by
    by_cases hnil : after = []
    · subst hnil
      cases hread
      exact Nat.le_refl _
    · rw [(Lexeme.read_covers hnil hread).1, List.length_append]
      exact Nat.le_add_left _ _
  refine lost_of_length (Nat.lt_of_le_of_lt hle hafter) fun hl hlength => ?_
  have hcovers := congrArg List.length (length_of_action hread hl)
  rw [length_word] at hafter
  rw [List.length_append] at hcovers
  change l.rest.length = _ at hlength
  omega

theorem lost_advance (h : k.Lost c) (hadvance : c.advance = (.ok (), d)) : k.Lost d := by
  obtain ⟨gap, after, l, hgap, hread, rfl⟩ := Cursor.advance_ok hadvance
  exact lost_of_read hread (h.1 gap after hgap)

theorem past (h : k.AtEnd c c') (hadvance : c.advance = (.ok (), d)) : k.Lost d := by
  obtain ⟨gap, after, l, hgap, hread, rfl⟩ := Cursor.advance_ok hadvance
  refine lost_of_read hread ?_
  have hafter := length_after hgap
  rw [h.1.2, List.length_cons] at hafter
  rw [length_word]
  have hword := k.length_actionWord_pos
  omega

/-- A token that ends before the seam is read by both cursors. -/
theorem advance_inside {mid : List Char} (hrest : c.rest = mid ++ ' ' :: k.word)
    (hrest' : c'.rest = mid ++ ',' :: k.rest') (htoken : c'.token = c.token)
    (hadvance : c.advance = (.ok (), d)) {mid' : List Char}
    (hmid : d.rest = mid' ++ ' ' :: k.word) :
    k.Lost d ∨ ∃ d', c'.advance = (.ok (), d') ∧ k.Inside d d' := by
  have hd : d.token ≠ .eof := by
    intro heof
    rw [Cursor.rest_of_eof hadvance heof] at hmid
    simp at hmid
  have hwildcard : d.token = .localWildcard → ∃ e mid, mid' = e :: mid := by
    intro hd
    cases mid' with
    | nil =>
        have hstart := Cursor.isNameStart_of_localWildcard hadvance hd ' ' (by rw [hmid]; rfl)
        exact absurd hstart (by decide)
    | cons e mid => exact ⟨e, mid, rfl⟩
  obtain ⟨gap, l, rfl, -, htext, hsplit, -, hafter⟩ := Cursor.advance_alike hadvance hd
  change l.rest = _ at hmid
  rcases keeps_or_lost (c := c.accept gap l) hmid with hkeeps | hlost
  · obtain ⟨gap', after', hgap', hlength⟩ : k.Keeps (mid' ++ ' ' :: k.word) := hmid ▸ hkeeps
    have hlike := Lexeme.LooksLike.comma k.head?_word hgap' hlength k.rest'
    rw [← hmid] at hlike
    have hhead : l.token = .localWildcard →
        (mid' ++ ',' :: k.rest').head? = l.rest.head? := by
      intro hl
      obtain ⟨e, mid', rfl⟩ := hwildcard hl
      rw [hmid]
      rfl
    obtain ⟨-, hread'⟩ := hafter _ hlike hhead
    have hbefore : c'.rest = [] ++ (gap ++ (l.text ++ (mid' ++ ',' :: k.rest'))) := by
      have hmids : mid ++ ' ' :: k.word = gap ++ (l.text ++ mid') ++ ' ' :: k.word := by
        rw [← hrest, hsplit, hmid]
        simp
      rw [hrest', List.append_cancel_right hmids]
      simp
    exact .inr ⟨_, hread' c' [] htoken .nil hbefore, mid', hmid, rfl, rfl, rfl, hkeeps⟩
  · exact .inl hlost

/-- From a common text the same token is read, or the cursors come to the end of what they have
in common, or the first one gets lost. -/
theorem advance (h : k.Inside c c') (hadvance : c.advance = (.ok (), d)) :
    k.Lost d ∨ ∃ d', c'.advance = (.ok (), d') ∧ (k.Inside d d' ∨ k.AtEnd d d') := by
  obtain ⟨mid, hrest, hrest', htoken, -, gap, after, hgap, hlength⟩ := h
  have hinside : ∀ mid', d.rest = mid' ++ ' ' :: k.word →
      k.Lost d ∨ ∃ d', c'.advance = (.ok (), d') ∧ (k.Inside d d' ∨ k.AtEnd d d') := by
    intro mid' hmid
    exact (advance_inside hrest hrest' htoken hadvance hmid).imp_right fun ⟨d', hd', hin⟩ =>
      ⟨d', hd', .inl hin⟩
  rw [hrest] at hgap
  obtain ⟨gap', after', l, hgap', hread, rfl⟩ := Cursor.advance_ok hadvance
  rw [hrest, hgap] at hgap'
  cases hgap'
  rcases Token.trivia_before_blank hgap hlength with ⟨body, hbody, rfl, rfl⟩ | ⟨hmid, rfl, rfl⟩
  · have hafter : body ++ ' ' :: k.word ≠ [] := by simp
    obtain ⟨hcovers, hspells⟩ := Lexeme.read_covers hafter hread
    rcases List.append_eq_append_iff.mp hcovers with ⟨more, htext, hseam⟩ | ⟨mid, -, hleft⟩
    · match more with
      | [] => exact hinside [] hseam.symm
      | [e] =>
          obtain ⟨rfl, -⟩ := List.cons.inj hseam
          exact absurd (by rw [htext]; simp) hspells.getLast?_ne_blank
      | e :: f :: more =>
          -- the token reaches over the blank at the seam
          refine .inl (lost_of_length ?_ fun hl hlength => ?_)
          · have := congrArg List.length hseam
            simp only [List.length_cons, List.length_append] at this
            show l.rest.length < _
            omega
          · have := congrArg List.length (length_of_action hread hl)
            have hbody' := List.length_pos_iff.mpr hbody
            rw [List.length_append, List.length_append, List.length_cons, length_word] at this
            change l.rest.length = _ at hlength
            omega
    · exact hinside mid hleft
  · -- the word itself is next
    obtain ⟨hcovers, -⟩ := Lexeme.read_covers k.word_ne_nil hread
    have htext := List.length_pos_iff.mpr (Lexeme.text_ne_nil k.word_ne_nil hread)
    by_cases hl : l.token = Parse.actionToken k.kind
    · have hword := length_of_action hread hl
      have hleft : l.rest = ' ' :: k.rest := (List.append_cancel_left hword).symm
      have hgap' : Token.trivia c'.rest = some (mid, ',' :: k.rest') := by
        rw [hrest']
        exact Lexeme.trivia_comma hmid _
      exact .inr ⟨_, Cursor.advance_eq hgap' (Lexeme.read_comma _ _),
        .inr ⟨⟨hl, hleft⟩, rfl, rfl⟩⟩
    · refine .inl (lost_of_length ?_ fun h => absurd h hl)
      have := congrArg List.length hcovers
      rw [List.length_append] at this
      show l.rest.length < _
      omega

end Seam

/-- The way of two cursors up to a seam. -/
def Track.seam (k : Seam) : Track where
  Inside := k.Inside
  AtEnd := k.AtEnd
  Lost := k.Lost
  token := fun ⟨_, _, _, htoken, _⟩ => htoken
  value := fun ⟨_, _, _, _, hvalue, _⟩ => hvalue
  ends := by
    rintro c c' ⟨⟨hword, -⟩, hcomma, -⟩
    refine ⟨?_, hcomma⟩
    rw [hword]
    cases k.kind
    · exact .inl rfl
    · exact .inr rfl
    · exact .inr rfl
  advance := Seam.advance
  endOperand := fun ⟨mid, hrest, hrest', _, hvalue, hkeeps⟩ =>
    ⟨mid, hrest, hrest', rfl, hvalue, hkeeps⟩
  past := Seam.past
  lost_advance := Seam.lost_advance
  lost_endOperand := by
    rintro c ⟨hgap, -⟩
    refine ⟨hgap, fun h => ?_⟩
    have hparen : Token.rightParen = Parse.actionToken k.kind := h.1
    cases hkind : k.kind <;> rw [hkind] at hparen <;> cases hparen

end XPath
