import XPath.Proofs.Attempt
import XPath.Proofs.Lookahead
import XPath.Proofs.Scanning
import XPath.Proofs.Shift

/-!
# Reading a source within parentheses

A source that is read by itself is read in the same way between parentheses in another source.
Both readers take the same steps (`Lockstep`): what the second one reads is shifted to its place,
and where the first one comes to the end of its source, the second one finds the closing
parenthesis. Only the levels in use may differ, so that the second reader may fail with too many
of them. Whether it does depends on nothing but the number of levels in use at its start:
`Mirrors` says of an action that either all readers go through with it that start with that
many levels, or none does.
-/

namespace XPath

/-- A place for a source within another one: behind `start` bytes and `ids` declarations of
variables, and before a closing parenthesis and `tail`. -/
structure Place where
  start : Nat
  ids : Nat
  tail : List Char

/-- The expression, shifted to the place. -/
abbrev Place.expr (k : Place) (e : Expr) : Expr :=
  e.shift k.start k.ids

namespace Lexeme

/-! ### Before a closing parenthesis -/

theorem read_rightParen (preceding : Token) (cs : List Char) :
    read preceding (')' :: cs) = .ok ⟨.rightParen, "", [')'], cs⟩ :=
  rfl

theorem trivia_close (cs : List Char) : Token.trivia (')' :: cs) = some ([], ')' :: cs) :=
  Token.trivia_solid ⟨')', cs, rfl, rfl, by decide⟩

theorem EndsLike.close (cs tail : List Char) : EndsLike cs (cs ++ ')' :: tail) := by
  cases cs with
  | nil => exact .inl ⟨')', rfl, rfl⟩
  | cons c cs => exact .inr rfl

theorem endsTrivia_close {cs : List Char} (h : Token.EndsTrivia cs) (tail : List Char) :
    Token.EndsTrivia (cs ++ ')' :: tail) := by
  match cs with
  | [] => exact Token.IsSolid.endsTrivia ⟨')', tail, rfl, rfl, by decide⟩
  | [c] =>
      refine ⟨h.1, fun hopens => ?_⟩
      obtain ⟨-, ds, hds⟩ := Token.opens_iff.mp hopens
      cases hds
  | c :: d :: cs =>
      refine ⟨h.1, fun hopens => h.2 ?_⟩
      obtain ⟨rfl, ds, hds⟩ := Token.opens_iff.mp hopens
      cases hds
      exact ⟨cs, rfl⟩

theorem afterWord?_close {word cs : List Char} (hword : isNCName word = true)
    (h : afterWord? word cs = none) (tail : List Char) :
    afterWord? word (cs ++ ')' :: tail) = none := by
  cases hafter : afterWord? word (cs ++ ')' :: tail) with
  | none => rfl
  | some rest =>
      exfalso
      obtain ⟨hsplit, hrest⟩ := afterWord?_spec hafter
      -- the word does not reach beyond the parenthesis, so it is in the text before that
      rcases List.append_eq_append_iff.mp hsplit with ⟨more, rfl, htail⟩ | ⟨more, rfl, htail⟩
      · cases more with
        | nil =>
            have hends : ∀ c ∈ ([] : List Char).head?, isNameChar c = false := by simp
            rw [List.append_nil] at h
            have hafter' : afterWord? cs (cs ++ []) = some [] := afterWord?_append hends
            rw [List.append_nil, h] at hafter'
            cases hafter'
        | cons c more =>
            cases htail
            have hchar := (isNCName_spec hword).2 ')' (by simp)
            cases hchar
      · have hends : ∀ c ∈ more.head?, isNameChar c = false := by
          cases more with
          | nil => simp
          | cons c more =>
              rw [htail] at hrest
              exact hrest
        rw [afterWord?_append hends] at h
        cases h

/-- A closing parenthesis behind a text ends it like the end of the source. -/
theorem LooksLike.close (cs tail : List Char) : LooksLike cs (cs ++ ')' :: tail) where
  head := EndsLike.close cs tail
  colon := by
    intro hcolon _
    obtain ⟨ds, rfl⟩ := List.head?_eq_some_iff.mp hcolon
    exact EndsLike.close ds tail
  gap := by
    intro gap after hgap
    obtain ⟨rfl, htrivia, hends⟩ := Token.trivia_eq_some_iff.mp hgap
    refine ⟨gap, after ++ ')' :: tail, ?_, ?_, ?_, ?_⟩
    · exact Token.trivia_eq_some_iff.mpr
        ⟨by simp, htrivia, endsTrivia_close hends tail⟩
    · cases after with
      | nil => simp
      | cons c after => exact id
    · cases after with
      | nil => simp
      | cons c after => exact Iff.rfl
    · intro word second op htype hafter
      exact afterWord?_close (typeWord?_second htype) hafter tail

end Lexeme

namespace Cursor

/-! ### Cursors -/

/-- The second cursor reads at a place in another source what the first one reads in its own. At
the end of its source, the first one stays and the second one is at the parenthesis. -/
structure Beside (k : Place) (c c' : Cursor) : Prop where
  value : c'.value = c.value
  offset : c'.offset = c.offset + k.start
  inside : c.token ≠ .eof → c'.token = c.token ∧ c'.rest = c.rest ++ ')' :: k.tail ∧
    c'.position = c.position + k.start
  outside : c.token = .eof → c.rest = [] ∧ c'.token = .rightParen ∧ c'.rest = k.tail ∧
    c'.position = c.position + k.start + 1

/-- The next token is the same for both, or the end for one and the parenthesis for the other. -/
theorem beside_of_advance {k : Place} {c c' d : Cursor} (htoken : c'.token = c.token)
    (hrest : c'.rest = c.rest ++ ')' :: k.tail) (hposition : c'.position = c.position + k.start)
    (hadvance : c.advance = (.ok (), d)) :
    ∃ d', c'.advance = (.ok (), d') ∧ d.Beside k d' := by
  by_cases hd : d.token = .eof
  · obtain ⟨gap, rest, l, hgap, hread, rfl⟩ := advance_ok hadvance
    obtain ⟨hsplit, htrivia, -⟩ := Token.trivia_eq_some_iff.mp hgap
    obtain rfl := (Lexeme.token_eq_eof_iff hread).mp hd
    cases hread
    rw [hsplit, List.append_nil] at hrest
    have hgap' : Token.trivia c'.rest = some (gap, ')' :: k.tail) := by
      rw [hrest, Token.trivia_append htrivia, Lexeme.trivia_close]
      simp
    refine ⟨_, advance_eq hgap' (Lexeme.read_rightParen c'.token k.tail), rfl, ?_, ?_, ?_⟩
    · simp only [accept, hposition]
      omega
    · intro hne
      exact absurd rfl hne
    · intro _
      refine ⟨rfl, rfl, rfl, ?_⟩
      simp only [accept, hposition, utf8Length_cons, show utf8Length [] = 0 from rfl,
        show ')'.utf8Size = 1 from rfl]
      omega
  · obtain ⟨gap, l, rfl, -, htext, hsplit, hwildcard, hafter⟩ := advance_alike hadvance hd
    have hhead : l.token = .localWildcard → (l.rest ++ ')' :: k.tail).head? = l.rest.head? := by
      intro hl
      obtain ⟨d, ds, hds⟩ := List.exists_cons_of_ne_nil (hwildcard hl)
      rw [hds]
      rfl
    obtain ⟨-, hadvance'⟩ := hafter _ (.close l.rest k.tail) hhead
    have hrest' : c'.rest = [] ++ (gap ++ (l.text ++ (l.rest ++ ')' :: k.tail))) := by
      rw [hrest, hsplit]
      simp
    refine ⟨_, hadvance' c' [] htoken .nil hrest', rfl, ?_, ?_, ?_⟩
    · simp only [accept, hposition, List.nil_append]
      omega
    · intro _
      refine ⟨rfl, rfl, ?_⟩
      simp only [accept, hposition, List.nil_append]
      omega
    · intro heof
      exact absurd heof hd

/-- Two cursors side by side read the same token, and stay side by side. -/
theorem Beside.advance {k : Place} {c c' d : Cursor} (h : c.Beside k c') (hc : c.token ≠ .eof)
    (hadvance : c.advance = (.ok (), d)) :
    ∃ d', c'.advance = (.ok (), d') ∧ d.Beside k d' :=
  beside_of_advance (h.inside hc).1 (h.inside hc).2.1 (h.inside hc).2.2 hadvance

theorem Beside.endOperand {k : Place} {c c' : Cursor} (h : c.Beside k c') (hc : c.token ≠ .eof) :
    c.endOperand.Beside k c'.endOperand where
  value := h.value
  offset := h.offset
  inside := fun _ => ⟨rfl, (h.inside hc).2.1, (h.inside hc).2.2⟩
  outside := fun heof => by cases heof

/-- Nothing is left but to stay at the end of the source. -/
def Spent (c : Cursor) : Prop :=
  c.rest = [] ∧ (c.token = .eof ∨ c.token = .rightParen)

/-- The first cursor may come to where the second one is. -/
structure LeadsTo (c d : Cursor) : Prop where
  length : d.rest.length ≤ c.rest.length
  spent : c.Spent → d.Spent

/-- From the first cursor to the second one, something has been read, or the end found. -/
def Shortens (c d : Cursor) : Prop :=
  d.rest.length < c.rest.length ∨ d.Spent

theorem LeadsTo.refl (c : Cursor) : c.LeadsTo c := ⟨Nat.le_refl _, id⟩

theorem LeadsTo.trans {c d e : Cursor} (h : c.LeadsTo d) (h' : d.LeadsTo e) : c.LeadsTo e :=
  ⟨Nat.le_trans h'.length h.length, h'.spent ∘ h.spent⟩

theorem Shortens.trans {c d e : Cursor} (h : c.Shortens d) (h' : d.LeadsTo e) :
    c.Shortens e := by
  rcases h with h | h
  · exact .inl (Nat.lt_of_le_of_lt h'.length h)
  · exact .inr (h'.spent h)

theorem LeadsTo.shortens {c d e : Cursor} (h : c.LeadsTo d) (h' : d.Shortens e) :
    c.Shortens e := by
  rcases h' with h' | h'
  · exact .inl (Nat.lt_of_lt_of_le h' h.length)
  · exact .inr h'

/-- A token that is read takes up text, unless the source ends there. -/
theorem shortens_of_advance {c d : Cursor} (h : c.advance = (.ok (), d)) : c.Shortens d := by
  by_cases hd : d.token = .eof
  · obtain ⟨gap, rest, l, -, hread, rfl⟩ := advance_ok h
    obtain rfl := (Lexeme.token_eq_eof_iff hread).mp hd
    cases hread
    exact .inr ⟨rfl, .inl rfl⟩
  · obtain ⟨gap, l, rfl, -, htext, hrest, -, -⟩ := advance_alike h hd
    have := List.length_pos_iff.mpr htext
    refine .inl ?_
    rw [hrest, List.length_append, List.length_append]
    show l.rest.length < _
    omega

theorem leadsTo_of_advance {c d : Cursor} (h : c.advance = (.ok (), d)) : c.LeadsTo d := by
  have hshortens := shortens_of_advance h
  refine ⟨?_, fun hc => ?_⟩
  · rcases hshortens with hlength | hspent
    · exact Nat.le_of_lt hlength
    · rw [hspent.1]
      exact Nat.zero_le _
  · rcases hshortens with hlength | hspent
    · rw [hc.1] at hlength
      exact absurd hlength (Nat.not_lt_zero _)
    · exact hspent

end Cursor

namespace Parse

/-! ### States -/

/-- Two readers that take the same steps, the second one at a place in another source. -/
structure Lockstep (k : Place) (s s' : ParseState) : Prop where
  cursor : s.cursor.Beside k s'.cursor
  scope : s'.scope = s.scope.map (RangeVariable.shift k.ids)
  nextId : s'.nextId = s.nextId + k.ids

theorem Lockstep.withDepth {k : Place} {s s' : ParseState} (h : Lockstep k s s') (n n' : Nat) :
    Lockstep k { s with depth := n } { s' with depth := n' } :=
  ⟨h.cursor, h.scope, h.nextId⟩

variable {α β : Type} {σ : Setting} {s t : ParseState} {d : Nat}

/-- What a reader goes through with is gone through at every place by readers with `d` levels in
use, or at none for too many levels. What is read is shifted by `f`. -/
def Mirrors (σ : Setting) (f : Place → α → α) (p : Parse α) (p' : Place → Parse α)
    (s : ParseState) (d : Nat) : Prop :=
  ∀ a t, p s = .ok a t → s.cursor.LeadsTo t.cursor ∧
    ((∃ d', ∀ k s', Lockstep k s s' → s'.depth = d →
        ∃ t', p' k s' = .ok (f k a) t' ∧ Lockstep k t t' ∧ t'.depth = d') ∨
      ∀ k s', Lockstep k s s' → s'.depth = d → TooDeep σ (p' k s'))

/-- The same of an action that reads at least one token. -/
def MirrorsOn (σ : Setting) (f : Place → α → α) (p : Parse α) (p' : Place → Parse α)
    (s : ParseState) (d : Nat) : Prop :=
  Mirrors σ f p p' s d ∧ ∀ a t, p s = .ok a t → s.cursor.Shortens t.cursor

namespace Mirrors

variable {f : Place → α → α} {g : Place → β → β} {p : Parse α} {p' : Place → Parse α}
  {q : α → Parse β} {q' : Place → α → Parse β}

/-! ### Steps in a row -/

theorem fails (h : ∀ a t, p s ≠ .ok a t) : Mirrors σ f p p' s d :=
  fun a t hp => absurd hp (h a t)

theorem reject {fault : Fault} : Mirrors σ f (reject σ fault) p' s d :=
  .fails fun _ _ => reject_ne_ok

theorem pure {a : α} {b : Place → α} (h : ∀ k, b k = f k a) :
    Mirrors σ f (pure a) (fun k => pure (b k)) s d := by
  intro a' t hp
  obtain ⟨rfl, rfl⟩ := pure_ok.mp hp
  refine ⟨.refl _, .inl ⟨d, fun k s' hs hd => ⟨s', ?_, hs, hd⟩⟩⟩
  rw [← h k]
  rfl

/-- Readers in lockstep may do what comes to the same for them. -/
theorem congr {p₀ : Parse α} {r : Place → Parse α} (h : Mirrors σ f p₀ r s d)
    (hp : p s = p₀ s) (hr : ∀ k s', Lockstep k s s' → p' k s' = r k s') :
    Mirrors σ f p p' s d := by
  intro a t ha
  rw [hp] at ha
  obtain ⟨hlead, hrun⟩ := h a t ha
  refine ⟨hlead, hrun.imp ?_ ?_⟩
  · rintro ⟨d', hrun⟩
    refine ⟨d', fun k s' hs hd => ?_⟩
    rw [hr k s' hs]
    exact hrun k s' hs hd
  · intro hrun k s' hs hd
    rw [hr k s' hs]
    exact hrun k s' hs hd

/-- Actions in a row are mirrored when each is, the later one on what the first one gives. -/
theorem bind (hp : Mirrors σ f p p' s d)
    (hq : ∀ a t d', p s = .ok a t → Mirrors σ g (q a) (fun k => q' k (f k a)) t d') :
    Mirrors σ g (p >>= q) (fun k => p' k >>= q' k) s d := by
  intro b u h
  obtain ⟨a, t, ha, hb⟩ := bind_ok.mp h
  obtain ⟨hlead, hfirst⟩ := hp a t ha
  refine ⟨hlead.trans (hq a t d ha b u hb).1, ?_⟩
  rcases hfirst with ⟨d', hfirst⟩ | hfirst
  · -- the levels in use after the first step decide about the second one
    have hstep : ∀ k s', Lockstep k s s' → s'.depth = d → ∃ t', Lockstep k t t' ∧
        t'.depth = d' ∧ (p' k >>= q' k) s' = q' k (f k a) t' := by
      intro k s' hs hd
      obtain ⟨t', ht', hlock, hdepth⟩ := hfirst k s' hs hd
      exact ⟨t', hlock, hdepth, bind_run ht'⟩
    refine (hq a t d' ha b u hb).2.imp ?_ ?_
    · rintro ⟨d'', hsecond⟩
      refine ⟨d'', fun k s' hs hd => ?_⟩
      obtain ⟨t', hlock, hdepth, heq⟩ := hstep k s' hs hd
      show ∃ u', (p' k >>= q' k) s' = .ok (g k b) u' ∧ _
      rw [heq]
      exact hsecond k t' hlock hdepth
    · intro hsecond k s' hs hd
      obtain ⟨t', hlock, hdepth, heq⟩ := hstep k s' hs hd
      show TooDeep σ ((p' k >>= q' k) s')
      rw [heq]
      exact hsecond k t' hlock hdepth
  · refine .inr fun k s' hs hd => ?_
    obtain ⟨location, t', ht'⟩ := hfirst k s' hs hd
    exact ⟨location, t', bind_fails ht'⟩

/-- The current token is shown only when something is wrong. -/
theorem found {q : String → Parse β} {r : Place → Parse β}
    (hq : ∀ shown b t, q shown s ≠ .ok b t) : Mirrors σ g (found >>= q) r s d := by
  refine .fails fun b t h => ?_
  obtain ⟨_, u, hu, h⟩ := bind_ok.mp h
  cases hu
  exact hq _ b t h

theorem reject_bind_ne_ok {fault : Fault} {b : β} :
    (Parse.reject σ fault >>= q) s ≠ .ok b t := by
  intro h
  obtain ⟨_, _, hfail, -⟩ := bind_ok.mp h
  exact reject_ne_ok hfail

theorem reject_bind {fault : Fault} {r : Place → Parse β} :
    Mirrors σ g (Parse.reject σ fault >>= q) r s d :=
  .fails fun _ _ => reject_bind_ne_ok

/-- Every reader gets the answer of an action that does not depend on the state. -/
theorem stateless {p : Parse α} {q' : Place → α → Parse β} (hp : Stateless p)
    (hq : ∀ a, Mirrors σ g (q a) (fun k => q' k a) s d) :
    Mirrors σ g (p >>= q) (fun k => p >>= q' k) s d := by
  intro b u h
  obtain ⟨a, t, ha, -⟩ := bind_ok.mp h
  obtain ⟨rfl, hall⟩ := hp s a t ha
  exact (hq a).congr (bind_run ha) (fun k s' _ => bind_run (hall s')) b u h

/-! ### What a reader looks at -/

/-- Both readers see the same token, or one the end and the other one the parenthesis. -/
theorem token {q : Token → Parse β} {q' : Place → Token → Parse β}
    (hq : s.cursor.token ≠ .eof →
      Mirrors σ g (q s.cursor.token) (fun k => q' k s.cursor.token) s d)
    (hend : s.cursor.token = .eof → Mirrors σ g (q .eof) (fun k => q' k .rightParen) s d) :
    Mirrors σ g (token >>= q) (fun k => token >>= q' k) s d := by
  by_cases heof : s.cursor.token = .eof
  · refine (hend heof).congr ?_ fun k s' hs => ?_
    · rw [token_bind, heof]
    · rw [token_bind, (hs.cursor.outside heof).2.1]
  · refine (hq heof).congr (token_bind q) fun k s' hs => ?_
    rw [token_bind, (hs.cursor.inside heof).1]

theorem value {q : String → Parse β} {q' : Place → String → Parse β}
    (hq : Mirrors σ g (q s.cursor.value) (fun k => q' k s.cursor.value) s d) :
    Mirrors σ g (value >>= q) (fun k => value >>= q' k) s d := by
  refine hq.congr (value_bind q) fun k s' hs => ?_
  rw [value_bind, hs.cursor.value]

theorem offset {q : Nat → Parse β} {q' : Place → Nat → Parse β}
    (hq : Mirrors σ g (q s.cursor.offset) (fun k => q' k (s.cursor.offset + k.start)) s d) :
    Mirrors σ g (offset >>= q) (fun k => offset >>= q' k) s d := by
  refine hq.congr (offset_bind q) fun k s' hs => ?_
  rw [offset_bind, hs.cursor.offset]

/-! ### Moving on -/

/-- A token is mirrored, as long as the source has not ended. -/
theorem advance (hs : s.cursor.token ≠ .eof) :
    Mirrors σ (fun _ a => a) (advance σ) (fun _ => Parse.advance σ) s d := by
  intro a t ha
  obtain ⟨c, hc, rfl⟩ := advance_ok ha
  refine ⟨Cursor.leadsTo_of_advance hc, .inl ⟨d, fun k s' hlock hd => ?_⟩⟩
  obtain ⟨c', hc', hbeside⟩ := hlock.cursor.advance hs hc
  exact ⟨_, advance_run hc', ⟨hbeside, hlock.scope, hlock.nextId⟩, hd⟩

theorem expect {t : Token} {q : Unit → Parse β} {q' : Place → Unit → Parse β} (ht : t ≠ .eof)
    (hq : s.cursor.token = t → Mirrors σ g (q ()) (fun k => q' k ()) s d) :
    Mirrors σ g (expect σ t >>= q) (fun k => Parse.expect σ t >>= q' k) s d := by
  intro b u h
  obtain ⟨_, v, hv, -⟩ := bind_ok.mp h
  obtain ⟨htoken, rfl⟩ := expect_ok hv
  refine (hq htoken).congr (bind_run hv) (fun k s' hs => bind_run (expect_run ?_)) b u h
  exact (hs.cursor.inside (htoken ▸ ht)).1.trans htoken

theorem skip {t : Token} (ht : t ≠ .eof) :
    Mirrors σ (fun _ a => a) (skip σ t) (fun _ => Parse.skip σ t) s d := by
  refine .expect ht fun htoken => ?_
  refine .advance ?_
  rw [htoken]
  exact ht

theorem skipMark (hs : s.cursor.token ≠ .eof) :
    Mirrors σ (fun _ a => a) (skipMark σ) (fun _ => Parse.skipMark σ) s d := by
  intro a t ha
  obtain ⟨_, u, hu, ha⟩ := bind_ok.mp ha
  cases hu
  obtain ⟨c, hc, rfl⟩ := advance_ok ha
  have hmark : s.cursor.endOperand.token ≠ .eof := by
    show Token.rightParen ≠ .eof
    simp
  refine ⟨?_, .inl ⟨d, fun k s' hlock hd => ?_⟩⟩
  · have hlead := Cursor.leadsTo_of_advance hc
    exact ⟨hlead.length, fun hspent => hlead.spent ⟨hspent.1, .inr rfl⟩⟩
  · obtain ⟨c', hc', hbeside⟩ := (hlock.cursor.endOperand hs).advance hmark hc
    exact ⟨_, skipMark_run hc', ⟨hbeside, hlock.scope, hlock.nextId⟩, hd⟩

theorem warn {message : String} :
    Mirrors σ (fun _ a => a) (warn message) (fun _ => Parse.warn message) s d := by
  intro a t ha
  cases ha
  exact ⟨.refl _, .inl ⟨d, fun k s' hlock hd =>
    ⟨_, rfl, ⟨hlock.cursor, hlock.scope, hlock.nextId⟩, hd⟩⟩⟩

/-! ### Nesting and scope -/

theorem descend {levels : Nat} :
    Mirrors σ (fun _ a => a) (descend σ levels) (fun _ => Parse.descend σ levels) s d := by
  intro a t ha
  obtain ⟨-, rfl⟩ := descend_ok ha
  refine ⟨.refl _, ?_⟩
  by_cases hmax : d + levels ≤ maxDepth
  · refine .inl ⟨d + levels, fun k s' hlock hd => ?_⟩
    subst hd
    exact ⟨_, descend_run hmax, hlock.withDepth _ _, rfl⟩
  · refine .inr fun k s' _ hd => ?_
    subst hd
    exact ⟨_, _, descend_fails hmax⟩

/-- Levels are given back in the mirror as well. -/
theorem nesting (hp : Mirrors σ f p p' s d) :
    Mirrors σ f (nesting p) (fun k => Parse.nesting (p' k)) s d := by
  intro a t ha
  obtain ⟨u, hu, rfl⟩ := nesting_ok ha
  obtain ⟨hlead, hrun⟩ := hp a u hu
  refine ⟨hlead, hrun.imp ?_ ?_⟩
  · rintro ⟨d', hrun⟩
    refine ⟨d, fun k s' hlock hd => ?_⟩
    obtain ⟨u', hu', hlock', -⟩ := hrun k s' hlock hd
    exact ⟨_, nesting_run hu', hlock'.withDepth _ _, hd⟩
  · intro hrun k s' hlock hd
    obtain ⟨location, u', hu'⟩ := hrun k s' hlock hd
    exact ⟨location, _, nesting_fails hu'⟩

theorem binding (hp : Mirrors σ f p p' s d) :
    Mirrors σ f (binding p) (fun k => Parse.binding (p' k)) s d := by
  intro a t ha
  obtain ⟨u, hu, rfl⟩ := binding_ok ha
  obtain ⟨hlead, hrun⟩ := hp a u hu
  refine ⟨hlead, hrun.imp ?_ ?_⟩
  · rintro ⟨d', hrun⟩
    refine ⟨d', fun k s' hlock hd => ?_⟩
    obtain ⟨u', hu', hlock', hdepth⟩ := hrun k s' hlock hd
    exact ⟨{ u' with scope := s'.scope }, binding_run hu',
      ⟨hlock'.cursor, hlock.scope, hlock'.nextId⟩, hdepth⟩
  · intro hrun k s' hlock hd
    obtain ⟨location, u', hu'⟩ := hrun k s' hlock hd
    exact ⟨location, _, binding_fails hu'⟩

/-- A variable is declared in the mirror with an id that is moved on. -/
theorem declare {name : ExpandedName} :
    Mirrors σ (fun k v => v.shift k.ids) (declare name) (fun _ => Parse.declare name) s d := by
  intro v t hv
  obtain ⟨rfl, rfl⟩ := declare_ok hv
  refine ⟨.refl _, .inl ⟨d, fun k s' hlock hd => ?_⟩⟩
  have hbound : (⟨s'.nextId, name, .singleItem⟩ : RangeVariable) =
      RangeVariable.shift k.ids ⟨s.nextId, name, .singleItem⟩ := by
    rw [hlock.nextId]
    rfl
  refine ⟨_, congrArg (EStateM.Result.ok · _) hbound, ⟨hlock.cursor, ?_, ?_⟩, hd⟩
  · show _ :: s'.scope = _
    rw [List.map_cons, ← hbound, ← hlock.scope]
  · show s'.nextId + 1 = s.nextId + 1 + k.ids
    rw [hlock.nextId, Nat.add_right_comm]

end Mirrors

namespace MirrorsOn

variable {f : Place → α → α} {g : Place → β → β} {p : Parse α} {p' : Place → Parse α}
  {q : α → Parse β} {q' : Place → α → Parse β}

/-! ### Actions that read on -/

theorem advance (hs : s.cursor.token ≠ .eof) :
    MirrorsOn σ (fun _ a => a) (advance σ) (fun _ => Parse.advance σ) s d := by
  refine ⟨.advance hs, fun a t ha => ?_⟩
  obtain ⟨c, hc, rfl⟩ := advance_ok ha
  exact Cursor.shortens_of_advance hc

/-- Something is read when the first of two actions reads something. -/
theorem bind_left (hp : MirrorsOn σ f p p' s d)
    (hq : ∀ a t d', p s = .ok a t → Mirrors σ g (q a) (fun k => q' k (f k a)) t d') :
    MirrorsOn σ g (p >>= q) (fun k => p' k >>= q' k) s d := by
  refine ⟨.bind hp.1 hq, fun b u h => ?_⟩
  obtain ⟨a, t, ha, hb⟩ := bind_ok.mp h
  exact (hp.2 a t ha).trans (hq a t d ha b u hb).1

/-- Something is read when the second of two actions reads something. -/
theorem bind_right (hp : Mirrors σ f p p' s d)
    (hq : ∀ a t d', p s = .ok a t → MirrorsOn σ g (q a) (fun k => q' k (f k a)) t d') :
    MirrorsOn σ g (p >>= q) (fun k => p' k >>= q' k) s d := by
  refine ⟨.bind hp fun a t d' ha => (hq a t d' ha).1, fun b u h => ?_⟩
  obtain ⟨a, t, ha, hb⟩ := bind_ok.mp h
  exact (hp a t ha).1.shortens ((hq a t d ha).2 b u hb)

theorem token {q : Token → Parse β} {q' : Place → Token → Parse β} (hs : s.cursor.token ≠ .eof)
    (hq : MirrorsOn σ g (q s.cursor.token) (fun k => q' k s.cursor.token) s d) :
    MirrorsOn σ g (token >>= q) (fun k => token >>= q' k) s d := by
  refine ⟨.token (fun _ => hq.1) fun heof => absurd heof hs, fun b u h => ?_⟩
  rw [token_bind] at h
  exact hq.2 b u h

theorem offset {q : Nat → Parse β} {q' : Place → Nat → Parse β}
    (hq : MirrorsOn σ g (q s.cursor.offset) (fun k => q' k (s.cursor.offset + k.start)) s d) :
    MirrorsOn σ g (offset >>= q) (fun k => offset >>= q' k) s d := by
  refine ⟨.offset hq.1, fun b u h => ?_⟩
  rw [offset_bind] at h
  exact hq.2 b u h

theorem nesting (hp : MirrorsOn σ f p p' s d) :
    MirrorsOn σ f (nesting p) (fun k => Parse.nesting (p' k)) s d := by
  refine ⟨.nesting hp.1, fun a t ha => ?_⟩
  obtain ⟨u, hu, rfl⟩ := nesting_ok ha
  exact hp.2 a u hu

end MirrorsOn

/-! ### Repetition -/

section Repetition

variable {f : Place → α → α} {go : Token → Bool} {part : α → Parse α}
  {part' : Place → α → Parse α}

/-- What `Mirrors` says, of a repetition that has `n` rounds left and as many or more at every
place. It reads something if it is not at its end already. -/
def MirrorsRounds (σ : Setting) (f : Place → α → α) (go : Token → Bool) (part : α → Parse α)
    (part' : Place → α → Parse α) (n : Nat) (a : α) (s : ParseState) (d : Nat) : Prop :=
  ∀ b t, repeatAtMost go part n a s = .ok b t → s.cursor.LeadsTo t.cursor ∧
    (go s.cursor.token = true → s.cursor.Shortens t.cursor) ∧
    ((∃ d', ∀ k s' m, n ≤ m → Lockstep k s s' → s'.depth = d →
        ∃ t', repeatAtMost go (part' k) m (f k a) s' = .ok (f k b) t' ∧ Lockstep k t t' ∧
          t'.depth = d') ∨
      ∀ k s' m, n ≤ m → Lockstep k s s' → s'.depth = d →
        TooDeep σ (repeatAtMost go (part' k) m (f k a) s'))

/-- Where one reader stops, the others do. -/
theorem mirrorsRounds_stop {n : Nat} {a : α} (hparen : go .rightParen = false)
    (hgo : go s.cursor.token = false) : MirrorsRounds σ f go part part' n a s d := by
  intro b t h
  rw [repeatAtMost_stop hgo] at h
  cases h
  refine ⟨.refl _, fun hgo' => ?_, .inl ⟨d, fun k s' m _ hlock hd => ?_⟩⟩
  · rw [hgo] at hgo'
    cases hgo'
  · have hgo' : go s'.cursor.token = false := by
      by_cases heof : s.cursor.token = .eof
      · rw [(hlock.cursor.outside heof).2.1, hparen]
      · rw [(hlock.cursor.inside heof).1, hgo]
    exact ⟨s', repeatAtMost_stop hgo', hlock, hd⟩

/-- Where one reader goes on, the others do. -/
theorem Lockstep.goes {k : Place} {s s' : ParseState} (h : Lockstep k s s')
    (heof : go .eof = false) (hgo : go s.cursor.token = true) : go s'.cursor.token = true := by
  have hne : s.cursor.token ≠ .eof := by
    rintro htoken
    rw [htoken, heof] at hgo
    cases hgo
  rw [(h.cursor.inside hne).1, hgo]

/-- A round that shortens the text leaves enough rounds for the rest of it. -/
theorem length_lt_of_shortens {c d : Cursor} {n : Nat} (heof : go .eof = false)
    (hparen : go .rightParen = false) (h : c.Shortens d) (hn : c.rest.length < n + 1)
    (hgo : go d.token = true) : d.rest.length < n := by
  rcases h with hlength | ⟨-, hspent | hspent⟩
  · exact Nat.lt_of_lt_of_le hlength (Nat.le_of_lt_succ hn)
  · rw [hspent, heof] at hgo
    cases hgo
  · rw [hspent, hparen] at hgo
    cases hgo

/-- The number of rounds is bounded by the text that is left. That is enough for all rounds, since
each one reads on, and a reader in another source has at least as many. -/
theorem mirrorsRounds (heof : go .eof = false) (hparen : go .rightParen = false)
    (hround : ∀ a s d, go s.cursor.token = true →
      MirrorsOn σ f (part a) (fun k => part' k (f k a)) s d) (n : Nat) (a : α) (s : ParseState)
    (d : Nat) (hn : go s.cursor.token = true → s.cursor.rest.length < n) :
    MirrorsRounds σ f go part part' n a s d := by
  induction n generalizing a s d with
  | zero =>
      cases hgo : go s.cursor.token with
      | false => exact mirrorsRounds_stop hparen hgo
      | true => exact absurd (hn hgo) (Nat.not_lt_zero _)
  | succ n ih =>
      cases hgo : go s.cursor.token with
      | false => exact mirrorsRounds_stop hparen hgo
      | true =>
          intro b t h
          rw [repeatAtMost_round hgo] at h
          obtain ⟨a', u, hu, h⟩ := bind_ok.mp h
          obtain ⟨hfirst, hshortens⟩ := hround a s d hgo
          obtain ⟨hlead, hfirst⟩ := hfirst a' u hu
          have hshortens := hshortens a' u hu
          have hn' : go u.cursor.token = true → u.cursor.rest.length < n :=
            length_lt_of_shortens heof hparen hshortens (hn hgo)
          have hlead' := (ih a' u d hn' b t h).1
          refine ⟨hlead.trans hlead', fun _ => hshortens.trans hlead', ?_⟩
          have hsucc : ∀ m, n + 1 ≤ m → ∃ m', m = m' + 1 ∧ n ≤ m' := fun m hm =>
            ⟨m - 1, by omega, by omega⟩
          rcases hfirst with ⟨d', hfirst⟩ | hfirst
          · -- the levels in use after the first round decide about the others
            have hstep : ∀ k s' m, n + 1 ≤ m → Lockstep k s s' → s'.depth = d →
                ∃ m' u', n ≤ m' ∧ Lockstep k u u' ∧ u'.depth = d' ∧
                  repeatAtMost go (part' k) m (f k a) s' =
                    repeatAtMost go (part' k) m' (f k a') u' := by
              intro k s' m hm hlock hd
              obtain ⟨m', rfl, hm'⟩ := hsucc m hm
              obtain ⟨u', hu', hlock', hdepth⟩ := hfirst k s' hlock hd
              refine ⟨m', u', hm', hlock', hdepth, ?_⟩
              rw [repeatAtMost_round (hlock.goes heof hgo), bind_run hu']
            refine (ih a' u d' hn' b t h).2.2.imp ?_ ?_
            · rintro ⟨d'', hothers⟩
              refine ⟨d'', fun k s' m hm hlock hd => ?_⟩
              obtain ⟨m', u', hm', hlock', hdepth, heq⟩ := hstep k s' m hm hlock hd
              rw [heq]
              exact hothers k u' m' hm' hlock' hdepth
            · intro hothers k s' m hm hlock hd
              obtain ⟨m', u', hm', hlock', hdepth, heq⟩ := hstep k s' m hm hlock hd
              rw [heq]
              exact hothers k u' m' hm' hlock' hdepth
          · refine .inr fun k s' m hm hlock hd => ?_
            obtain ⟨m', rfl, -⟩ := hsucc m hm
            obtain ⟨location, u', hu'⟩ := hfirst k s' hlock hd
            refine ⟨location, u', ?_⟩
            rw [repeatAtMost_round (hlock.goes heof hgo), bind_fails hu']

theorem Lockstep.length_le {k : Place} {s s' : ParseState} (h : Lockstep k s s') :
    s.cursor.rest.length ≤ s'.cursor.rest.length := by
  by_cases heof : s.cursor.token = .eof
  · rw [(h.cursor.outside heof).1]
    exact Nat.zero_le _
  · rw [(h.cursor.inside heof).2.1, List.length_append]
    exact Nat.le_add_right _ _

/-- A repetition is mirrored when its rounds are, and each of them reads on. -/
theorem Mirrors.repeatWhile (heof : go .eof = false) (hparen : go .rightParen = false)
    (hround : ∀ a s d, go s.cursor.token = true →
      MirrorsOn σ f (part a) (fun k => part' k (f k a)) s d) {a : α} :
    Mirrors σ f (repeatWhile go part a) (fun k => Parse.repeatWhile go (part' k) (f k a)) s d := by
  intro b t h
  obtain ⟨hlead, -, hrun⟩ := mirrorsRounds heof hparen hround _ a s d
    (fun _ => Nat.lt_succ_self _) b t h
  refine ⟨hlead, hrun.imp ?_ ?_⟩
  · rintro ⟨d', hrun⟩
    exact ⟨d', fun k s' hlock hd => hrun k s' _ (Nat.succ_le_succ hlock.length_le) hlock hd⟩
  · intro hrun k s' hlock hd
    exact hrun k s' _ (Nat.succ_le_succ hlock.length_le) hlock hd

theorem MirrorsOn.repeatWhile (heof : go .eof = false) (hparen : go .rightParen = false)
    (hround : ∀ a s d, go s.cursor.token = true →
      MirrorsOn σ f (part a) (fun k => part' k (f k a)) s d) {a : α}
    (hgo : go s.cursor.token = true) :
    MirrorsOn σ f (repeatWhile go part a) (fun k => Parse.repeatWhile go (part' k) (f k a))
      s d := by
  refine ⟨.repeatWhile heof hparen hround, fun b t h => ?_⟩
  exact (mirrorsRounds heof hparen hround _ a s d (fun _ => Nat.lt_succ_self _) b t h).2.1 hgo

/-- Several parts with commas between them. -/
theorem Mirrors.commaSeparated {p : Parse α} {p' : Place → Parse α}
    (hp : ∀ s d, Mirrors σ f p p' s d) :
    Mirrors σ (fun k => List.map (f k)) (commaSeparated σ p)
      (fun k => Parse.commaSeparated σ (p' k)) s d := by
  have hround : ∀ (others : List α) s d, decide (s.cursor.token = .comma) = true →
      MirrorsOn σ (fun k => List.map (f k))
        (Parse.advance σ >>= fun _ => p >>= fun next => Pure.pure (next :: others))
        (fun k => Parse.advance σ >>= fun _ => p' k >>= fun next =>
          Pure.pure (next :: others.map (f k))) s d := by
    intro others s d hgo
    have hcomma : s.cursor.token ≠ .eof := by
      rw [of_decide_eq_true hgo]
      simp
    refine .bind_left (.advance hcomma) fun _ t d _ => ?_
    refine .bind (hp t d) fun next u d' _ => ?_
    exact .pure fun k => rfl
  refine .bind (hp s d) fun first t d' _ => ?_
  refine .bind (f := fun k => List.map (f k)) ?_ fun others u d'' _ => .pure fun k => by simp
  exact Mirrors.repeatWhile (a := []) rfl rfl hround

end Repetition

end Parse

end XPath
