import XPath.Proofs.Lookahead
import XPath.Proofs.Tiling

/-!
# Blanks and comments between tokens

Behind every token, trivia may be put into a source without any effect on the tokens
(`Cursor.tokens_insert`), with one exception: no blank may stand between a star with a colon
and the name after it. The tokens behind the new trivia are read from the same text behind the
same token. Those before them are read from a text that shows the same to each of them.
-/

namespace XPath.Cursor

/-! ### All tokens of a source -/

theorem rest_length_lt {c d : Cursor} (hadvance : c.advance = (.ok (), d))
    (hd : d.token ≠ .eof) : d.rest.length < c.rest.length := by
  obtain ⟨gap, l, rfl, -, htext, hrest, -, -⟩ := advance_alike hadvance hd
  have := List.length_pos_iff.mpr htext
  rw [hrest, List.length_append, List.length_append]
  show l.rest.length < _
  omega

/-- The tokens from a cursor on, each with its value, and how they end: at the end of the source
or with an error. -/
def tokens (c : Cursor) : List (Token × String) × Except LexicalError Unit :=
  match _h : c.advance with
  | (.error e, _) => ([], .error e)
  | (.ok (), d) =>
    if _hd : d.token = .eof then ([], .ok ())
    else
      let (following, ending) := d.tokens
      ((d.token, d.value) :: following, ending)
termination_by c.rest.length
decreasing_by exact rest_length_lt _h _hd

theorem tokens_of_error {c d : Cursor} {e : LexicalError} (h : c.advance = (.error e, d)) :
    c.tokens = ([], .error e) := by
  rw [tokens]
  split
  · next heq =>
      rw [h] at heq
      cases heq
      rfl
  · next heq =>
      rw [h] at heq
      cases heq

theorem tokens_of_eof {c d : Cursor} (h : c.advance = (.ok (), d)) (hd : d.token = .eof) :
    c.tokens = ([], .ok ()) := by
  rw [tokens]
  split
  · next heq =>
      rw [h] at heq
      cases heq
  · next heq =>
      rw [h] at heq
      cases heq
      rw [dif_pos hd]

theorem tokens_of_next {c d : Cursor} (h : c.advance = (.ok (), d)) (hd : d.token ≠ .eof) :
    c.tokens = ((d.token, d.value) :: d.tokens.1, d.tokens.2) := by
  rw [tokens]
  split
  · next heq =>
      rw [h] at heq
      cases heq
  · next heq =>
      rw [h] at heq
      cases heq
      rw [dif_neg hd]

/-! ### Trivia before a token -/

/-- Trivia before the next token do not change what comes of reading it. -/
theorem advance_insert {c c' : Cursor} {gap : List Char} (htoken : c'.token = c.token)
    (hgap : Token.IsTrivia 0 gap) (hrest : c'.rest = gap ++ c.rest) :
    c'.advance.1 = c.advance.1 ∧ (c.advance.1 = .ok () →
      c'.advance.2.token = c.advance.2.token ∧ c'.advance.2.value = c.advance.2.value ∧
      c'.advance.2.rest = c.advance.2.rest) := by
  have htrivia := Token.trivia_append hgap c.rest
  rw [← hrest] at htrivia
  cases hsplit : Token.trivia c.rest with
  | none =>
      rw [hsplit] at htrivia
      simp [advance, hsplit, htrivia]
  | some skipped =>
      obtain ⟨more, rest⟩ := skipped
      rw [hsplit] at htrivia
      cases hread : Lexeme.read c.token rest with
      | ok l =>
          have hread' : Lexeme.read c'.token rest = .ok l := by rw [htoken, hread]
          rw [advance_eq hsplit hread, advance_eq htrivia hread']
          exact ⟨rfl, fun _ => ⟨rfl, rfl, rfl⟩⟩
      | error e =>
          have hread' : Lexeme.read c'.token rest = .error e := by rw [htoken, hread]
          have hfails : ∀ b : Cursor, ∀ skipped, Token.trivia b.rest = some (skipped, rest) →
              Lexeme.read b.token rest = .error e → b.advance.1 = .error e := by
            intro b skipped hsplit hread
            simp only [advance, hsplit, move, hread]
            cases e <;> rfl
          rw [hfails c more hsplit hread, hfails c' (gap ++ more) htrivia hread']
          exact ⟨rfl, fun h => by cases h⟩

theorem tokens_insert_before {c c' : Cursor} {gap : List Char} (htoken : c'.token = c.token)
    (hgap : Token.IsTrivia 0 gap) (hrest : c'.rest = gap ++ c.rest) : c'.tokens = c.tokens := by
  generalize hlength : c.rest.length = n
  induction n using Nat.strongRecOn generalizing c c' gap with
  | ind n ih =>
      obtain ⟨houtcome, hsame⟩ := advance_insert htoken hgap hrest
      cases hc : c.advance with | mk outcome d =>
      cases hc' : c'.advance with | mk outcome' d' =>
      rw [hc, hc'] at houtcome hsame
      cases houtcome
      cases outcome with
      | error e => rw [tokens_of_error hc, tokens_of_error hc']
      | ok u =>
          obtain ⟨ht, hv, hr⟩ := hsame rfl
          by_cases hd : d.token = .eof
          · rw [tokens_of_eof hc hd, tokens_of_eof hc' (ht.trans hd)]
          · have hd' : d'.token ≠ .eof := by rwa [ht]
            have hlt : d.rest.length < n := hlength ▸ rest_length_lt hc hd
            have hsame' : d'.tokens = d.tokens := ih _ hlt ht .nil hr rfl
            rw [tokens_of_next hc hd, tokens_of_next hc' hd', ht, hv, hsame']

/-! ### Trivia behind later tokens -/

/-- A cursor gets to another by reading one token or more. -/
inductive Passes : Cursor → Cursor → Prop
  | last {c d : Cursor} : c.advance = (.ok (), d) → Passes c d
  | step {c d e : Cursor} : c.advance = (.ok (), d) → Passes d e → Passes c e

theorem rest_of_advance {c d : Cursor} (h : c.advance = (.ok (), d)) :
    ∃ before, c.rest = before ++ d.rest ∧ (c.rest ≠ [] → before ≠ []) := by
  by_cases hd : d.token = .eof
  · obtain ⟨gap, rest, l, hgap, hread, rfl⟩ := advance_ok h
    obtain ⟨hsplit, -, -⟩ := Token.trivia_eq_some_iff.mp hgap
    obtain rfl := (Lexeme.token_eq_eof_iff hread).mp hd
    cases hread
    rw [List.append_nil] at hsplit
    exact ⟨gap, by simp [hsplit, accept], fun hne => hsplit ▸ hne⟩
  · obtain ⟨gap, l, rfl, -, htext, hrest, -, -⟩ := advance_alike h hd
    exact ⟨gap ++ l.text, by simp [hrest, accept], fun _ => by simp [htext]⟩

theorem Passes.rest {c d : Cursor} (h : c.Passes d) :
    ∃ before, c.rest = before ++ d.rest ∧ (c.rest ≠ [] → before ≠ []) := by
  induction h with
  | last h => exact rest_of_advance h
  | step h _ ih =>
      obtain ⟨before, hrest, hne⟩ := rest_of_advance h
      obtain ⟨before', hrest', -⟩ := ih
      refine ⟨before ++ before', by simp [hrest, hrest'], fun hc => ?_⟩
      simp [hne hc]

theorem Passes.stands {source : String} {start : Nat} {c d : Cursor} (h : c.Passes d)
    (hc : c.Stands source start) : d.Stands source start := by
  induction h with
  | last h =>
      have := hc.after .next
      rwa [after, h] at this
  | step h _ ih =>
      apply ih
      have := hc.after .next
      rwa [after, h] at this

/-- Where nothing but trivia is left, further trivia have no effect. -/
theorem insert_at_end {c d : Cursor} (h : c.advance = (.ok (), d)) (hd : d.token = .eof)
    {gap : List Char} (hgap : Token.IsTrivia 0 gap) :
    d.rest = [] ∧ Lexeme.LooksLike c.rest (c.rest ++ gap) ∧
      ∀ c' : Cursor, c'.token = c.token → c'.rest = c.rest ++ gap → c'.tokens = c.tokens := by
  obtain ⟨before, rest, l, hbefore, hread, rfl⟩ := advance_ok h
  obtain ⟨hsplit, htrivia, -⟩ := Token.trivia_eq_some_iff.mp hbefore
  obtain rfl := (Lexeme.token_eq_eof_iff hread).mp hd
  cases hread
  rw [List.append_nil] at hsplit
  subst hsplit
  have hall : Token.trivia (c.rest ++ gap) = some (c.rest ++ gap, []) :=
    Token.trivia_eq_some_iff.mpr ⟨by simp, htrivia.append hgap, Token.endsTrivia_nil⟩
  refine ⟨rfl, .at_end htrivia hgap, fun c' htoken hrest => ?_⟩
  have hall : Token.trivia c'.rest = some (c.rest ++ gap, []) :=
    Token.trivia_eq_some_iff.mpr ⟨by simp [hrest], htrivia.append hgap, Token.endsTrivia_nil⟩
  have hread' : Lexeme.read c'.token [] = .ok ⟨.eof, "", [], []⟩ := rfl
  rw [tokens_of_eof h hd, tokens_of_eof (advance_eq hall hread') rfl]

/-- Trivia behind one of the next tokens have no effect on the tokens, and what is read before
them looks like before. -/
theorem Passes.insert {c d : Cursor} (h : c.Passes d) (hd : d.token ≠ .localWildcard)
    {gap : List Char} (hgap : Token.IsTrivia 0 gap) {before : List Char}
    (hbefore : c.rest = before ++ d.rest) :
    Lexeme.LooksLike c.rest (before ++ (gap ++ d.rest)) ∧
      ∀ c' : Cursor, c'.token = c.token → c'.rest = before ++ (gap ++ d.rest) →
        c'.tokens = c.tokens := by
  induction h generalizing before with
  | @last c d h =>
      by_cases heof : d.token = .eof
      · obtain ⟨hnil, hsame⟩ := insert_at_end h heof hgap
        rw [hnil, List.append_nil] at hbefore ⊢
        exact hbefore ▸ hsame
      · obtain ⟨skipped, l, rfl, -, -, hrest, -, hafter⟩ := advance_alike h heof
        have heq : before = skipped ++ l.text := by
          rw [hrest, ← List.append_assoc] at hbefore
          exact (List.append_cancel_right hbefore).symm
        obtain ⟨hlike, hadvance⟩ := hafter (gap ++ l.rest) (.insert hgap l.rest)
          (fun hl => absurd hl hd)
        rw [heq, List.append_assoc]
        refine ⟨hlike, fun c' htoken hc' => ?_⟩
        have hc'' := hadvance c' [] htoken .nil hc'
        have hsame : (c'.accept skipped { l with rest := gap ++ l.rest }).tokens =
            (c.accept skipped l).tokens := tokens_insert_before rfl hgap rfl
        rw [tokens_of_next h heof, tokens_of_next hc'' heof, List.nil_append, hsame]
        rfl
  | @step c d e h hpasses ih =>
      by_cases heof : d.token = .eof
      · obtain ⟨hnil, hsame⟩ := insert_at_end h heof hgap
        obtain ⟨before', hrest, -⟩ := hpasses.rest
        obtain ⟨-, hnil'⟩ := List.append_eq_nil_iff.mp (hrest.symm.trans hnil)
        rw [hnil', List.append_nil] at hbefore ⊢
        exact hbefore ▸ hsame
      · obtain ⟨skipped, l, rfl, -, -, hrest, hwildcard, hafter⟩ := advance_alike h heof
        obtain ⟨before', hrest', hne⟩ := hpasses.rest
        have heq : before = skipped ++ l.text ++ before' := by
          have hl : l.rest = before' ++ e.rest := hrest'
          rw [hrest, hl, ← List.append_assoc, ← List.append_assoc] at hbefore
          exact (List.append_cancel_right hbefore).symm
        obtain ⟨hlike', htokens⟩ := ih hd hrest'
        obtain ⟨hlike, hadvance⟩ := hafter (before' ++ (gap ++ e.rest)) hlike' (by
          -- the name behind the wildcard is not moved
          intro hl
          have hne' : before' ≠ [] := hne (hwildcard hl)
          have hl : l.rest = before' ++ e.rest := hrest'
          obtain ⟨f, fs, rfl⟩ := List.exists_cons_of_ne_nil hne'
          rw [hl]
          rfl)
        rw [heq, List.append_assoc, List.append_assoc]
        refine ⟨hlike, fun c' htoken hc' => ?_⟩
        have hc'' := hadvance c' [] htoken .nil hc'
        have hsame : (c'.accept skipped { l with rest := before' ++ (gap ++ e.rest) }).tokens =
            (c.accept skipped l).tokens := htokens _ rfl rfl
        rw [tokens_of_next h heof, tokens_of_next hc'' heof, List.nil_append, hsame]
        rfl

/-- Blanks and comments behind a token never change the tokens of a source, nor how they end,
unless the token is a wildcard for namespaces. -/
theorem tokens_insert {source : String} {d : Cursor} {before after gap : List Char}
    (hpasses : (ofSource source 0).Passes d) (hd : d.token ≠ .localWildcard)
    (hsource : source.toList = before ++ after) (hposition : utf8Length before = d.position)
    (hgap : Token.IsTrivia 0 gap) :
    (ofSource (String.ofList (before ++ (gap ++ after))) 0).tokens =
      (ofSource source 0).tokens := by
  -- the text is cut where the cursor stands
  obtain ⟨before', hsource', hposition'⟩ := (hpasses.stands (ofSource_stands source 0)).rest
  obtain ⟨rfl, rfl⟩ := prefix_unique (hsource.symm.trans hsource') (hposition.trans hposition'.symm)
  have hstart : (ofSource source 0).token = .eof ∧
      (ofSource source 0).rest = before ++ d.rest := by
    rw [← String.ofList_toList (s := source), hsource, ofSource_start]
    exact ⟨rfl, rfl⟩
  obtain ⟨-, hinsert⟩ := hpasses.insert hd hgap hstart.2
  apply hinsert
  · rw [ofSource_start, hstart.1]
  · rw [ofSource_start]

/-- A comment within a comment and a line end behind a name, before the operator. -/
theorem tokens_insert_of_comment :
    (ofSource (String.ofList
      ("div".toList ++ (" (: or (: and :) :)\n".toList ++ " div div".toList))) 0).tokens =
      (ofSource "div div div" 0).tokens := by
  have hpasses : (ofSource "div div div" 0).Passes (ofSource "div div div" 0).advance.2 :=
    .last (Prod.ext rfl rfl)
  have hgap : Token.trivia " (: or (: and :) :)\n".toList =
      some (" (: or (: and :) :)\n".toList, []) := by
    decide +kernel
  exact tokens_insert hpasses (by decide +kernel) (by decide +kernel) (by decide +kernel)
    (Token.trivia_eq_some_iff.mp hgap).2.1

end XPath.Cursor
