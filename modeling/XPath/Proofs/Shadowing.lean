import XPath.Proofs.Lockstep
import XPath.Proofs.Seams

/-!
# A reader that follows another one along a track

Two readers in texts that start alike take the same steps as long as their cursors are on a track
(`Track`). The second one may be where fewer levels are in use, so that what the first reader goes
through with, without getting lost, the second one goes through with too, and its result looks the
same (`Shadows`). Nothing is said of what the first reader fails with, or of what it reads beyond
the end of the track.
-/

namespace XPath

theorem Cursor.Reaches.leadsTo {c d : Cursor} (h : c.Reaches d) : c.LeadsTo d := by
  induction h with
  | refl => exact .refl c
  | advance _ hd ih => exact ih.trans (leadsTo_of_advance hd)
  | endOperand _ ih => exact ⟨ih.length, fun hspent => ⟨(ih.spent hspent).1, .inr rfl⟩⟩

/-- The token is none of the words that stand before an action, where a track may end. -/
def Token.isInner : Token → Bool
  | returnWord | satisfiesWord => false
  | _ => true

namespace Parse

variable {α β γ δ : Type} {σ : Setting} {k : Track} {s s' t t' : ParseState}

/-! ### States -/

/-- Two readers on a track, with the same variables in scope. -/
structure Beside (k : Track) (s s' : ParseState) : Prop where
  cursor : k.Inside s.cursor s'.cursor ∨ k.AtEnd s.cursor s'.cursor
  scope : s'.scope = s.scope
  nextId : s'.nextId = s.nextId
  depth : s'.depth ≤ s.depth

theorem Beside.inside (h : Beside k s s') (hs : s.cursor.token.isInner = true) :
    k.Inside s.cursor s'.cursor := by
  rcases h.cursor with hin | hend
  · exact hin
  · exfalso
    rcases (k.ends hend).1 with htoken | htoken
    · rw [htoken] at hs
      cases hs
    · rw [htoken] at hs
      cases hs

/-- A reader that is not lost behind a token was inside before it. -/
theorem Beside.advance (h : Beside k s s') {c : Cursor} (hc : s.cursor.advance = (.ok (), c))
    (hlost : ¬k.Lost c) : k.Inside s.cursor s'.cursor ∧ ∃ c', s'.cursor.advance = (.ok (), c') ∧
      Beside k { s with cursor := c } { s' with cursor := c' } := by
  rcases h.cursor with hin | hend
  · refine ⟨hin, ?_⟩
    rcases k.advance hin hc with hlost' | ⟨c', hc', hcursor⟩
    · exact absurd hlost' hlost
    · exact ⟨c', hc', hcursor, h.scope, h.nextId, h.depth⟩
  · exact absurd (k.past hend hc) hlost

/-- What the first reader goes through with and is not lost then, the second one goes through with
too, if it starts beside the first one. The results show the same in a `view`. -/
def Shadows (k : Track) (view : α → γ) (p p' : Parse α) (s s' : ParseState) : Prop :=
  ∀ a t, p s = .ok a t → s.cursor.Reaches t.cursor ∧
    (Beside k s s' → ¬k.Lost t.cursor →
      ∃ a' t', p' s' = .ok a' t' ∧ view a' = view a ∧ Beside k t t')

/-- The results are the same. -/
abbrev ShadowsSame (k : Track) (p p' : Parse α) (s s' : ParseState) : Prop :=
  Shadows k id p p' s s'

namespace Shadows

variable {v : α → γ} {w : β → δ} {p p' : Parse α} {q q' : α → Parse β}

/-! ### Steps in a row -/

theorem fails (h : ∀ a t, p s ≠ .ok a t) : Shadows k v p p' s s' :=
  fun a t hp => absurd hp (h a t)

theorem reject {f : Fault} : Shadows k v (reject σ f) p' s s' :=
  .fails fun _ _ => reject_ne_ok

theorem pure {a a' : α} (h : v a' = v a) : Shadows k v (pure a) (pure a') s s' := by
  intro b t hp
  obtain ⟨rfl, rfl⟩ := pure_ok.mp hp
  exact ⟨.refl, fun hs _ => ⟨a', s', rfl, h, hs⟩⟩

/-- Readers may do what comes to the same for them. -/
theorem congr {r r' : Parse α} (h : Shadows k v r r' s s') (hp : p s = r s)
    (hp' : Beside k s s' → p' s' = r' s') : Shadows k v p p' s s' := by
  intro a t ha
  rw [hp] at ha
  refine ⟨(h a t ha).1, fun hs hlost => ?_⟩
  rw [hp' hs]
  exact (h a t ha).2 hs hlost

/-- The first reader is not lost between two steps if it is not lost at the end. -/
theorem bind (hp : Shadows k v p p' s s')
    (hq : ∀ a a' t t', v a' = v a → Shadows k w (q a) (q' a') t t') :
    Shadows k w (p >>= q) (p' >>= q') s s' := by
  intro b u h
  obtain ⟨a, t, ha, hb⟩ := bind_ok.mp h
  obtain ⟨hreach, hfirst⟩ := hp a t ha
  have hreach' := (hq a a t t rfl b u hb).1
  refine ⟨hreach.trans hreach', fun hs hlost => ?_⟩
  obtain ⟨a', t', ha', hview, ht⟩ := hfirst hs fun h => hlost (Track.lost_of_reaches hreach' h)
  obtain ⟨b', u', hb', hview', hu⟩ := (hq a a' t t' hview b u hb).2 ht hlost
  exact ⟨b', u', (bind_run ha').trans hb', hview', hu⟩

theorem bind_same (hp : ShadowsSame k p p' s s')
    (hq : ∀ a t t', Shadows k w (q a) (q' a) t t') :
    Shadows k w (p >>= q) (p' >>= q') s s' := by
  refine .bind hp fun a a' t t' h => ?_
  cases h
  exact hq a t t'

theorem reject_bind {f : Fault} {r : Parse β} : Shadows k w (Parse.reject σ f >>= q) r s s' :=
  .fails fun _ _ => Mirrors.reject_bind_ne_ok

/-- The current token is shown only when something is wrong. -/
theorem found {q : String → Parse β} {r : Parse β} (hq : ∀ shown b t, q shown s ≠ .ok b t) :
    Shadows k w (found >>= q) r s s' := by
  refine .fails fun b t h => ?_
  obtain ⟨_, u, hu, h⟩ := bind_ok.mp h
  cases hu
  exact hq _ b t h

/-- Both readers get the answer of an action that does not depend on the state. -/
theorem stateless (hp : Stateless p) (hq : ∀ a, Shadows k w (q a) (q' a) s s') :
    Shadows k w (p >>= q) (p >>= q') s s' := by
  intro b u h
  obtain ⟨a, t, ha, -⟩ := bind_ok.mp h
  obtain ⟨rfl, hall⟩ := hp s a t ha
  exact (hq a).congr (bind_run ha) (fun _ => bind_run (hall s')) b u h

/-! ### What a reader looks at -/

/-- Both readers see the same token, or one a word before an action and the other one a comma. -/
theorem token {q q' : Token → Parse β}
    (hq : Shadows k w (q s.cursor.token) (q' s.cursor.token) s s')
    (hreturn : Shadows k w (q .returnWord) (q' .comma) s s')
    (hsatisfies : Shadows k w (q .satisfiesWord) (q' .comma) s s') :
    Shadows k w (token >>= q) (token >>= q') s s' := by
  intro b t h
  rw [token_bind] at h
  refine ⟨(hq b t h).1, fun hs hlost => ?_⟩
  rw [token_bind]
  rcases hs.cursor with hin | hend
  · rw [k.token hin]
    exact (hq b t h).2 hs hlost
  · obtain ⟨hword, hcomma⟩ := k.ends hend
    rw [hcomma]
    rcases hword with hword | hword
    · rw [hword] at h
      exact (hreturn b t h).2 hs hlost
    · rw [hword] at h
      exact (hsatisfies b t h).2 hs hlost

theorem value {q q' : String → Parse β} (hs : s.cursor.token.isInner = true)
    (hq : Shadows k w (q s.cursor.value) (q' s.cursor.value) s s') :
    Shadows k w (value >>= q) (value >>= q') s s' := by
  refine hq.congr (value_bind q) fun hbeside => ?_
  rw [value_bind, k.value (hbeside.inside hs)]

theorem inner_token {q q' : Token → Parse β} (hs : s.cursor.token.isInner = true)
    (hq : Shadows k w (q s.cursor.token) (q' s.cursor.token) s s') :
    Shadows k w (Parse.token >>= q) (Parse.token >>= q') s s' := by
  refine hq.congr (token_bind q) fun hbeside => ?_
  rw [token_bind, k.token (hbeside.inside hs)]

/-- A value that makes no difference but for what is said when something is wrong. -/
theorem any_value {q q' : String → Parse β} (hq : ∀ x x', Shadows k w (q x) (q' x') s s') :
    Shadows k w (Parse.value >>= q) (Parse.value >>= q') s s' :=
  (hq s.cursor.value s'.cursor.value).congr (value_bind q) fun _ => value_bind q'

/-- A value is the same for both readers where the token is. -/
theorem value_token {q q' : String → Token → Parse β}
    (hq : Shadows k w (q s.cursor.value s.cursor.token) (q' s.cursor.value s.cursor.token) s s')
    (hreturn : ∀ x x', Shadows k w (q x .returnWord) (q' x' .comma) s s')
    (hsatisfies : ∀ x x', Shadows k w (q x .satisfiesWord) (q' x' .comma) s s') :
    Shadows k w (Parse.value >>= fun x => Parse.token >>= q x)
      (Parse.value >>= fun x => Parse.token >>= q' x) s s' := by
  intro b t h
  rw [value_bind, token_bind] at h
  refine ⟨(hq b t h).1, fun hs hlost => ?_⟩
  rw [value_bind, token_bind]
  rcases hs.cursor with hin | hend
  · rw [k.value hin, k.token hin]
    exact (hq b t h).2 hs hlost
  · obtain ⟨hword, hcomma⟩ := k.ends hend
    rw [hcomma]
    rcases hword with hword | hword
    · rw [hword] at h
      exact (hreturn _ _ b t h).2 hs hlost
    · rw [hword] at h
      exact (hsatisfies _ _ b t h).2 hs hlost

/-- Offsets are not compared. -/
theorem offset {q q' : Nat → Parse β} (hq : ∀ n n', Shadows k w (q n) (q' n') s s') :
    Shadows k w (offset >>= q) (offset >>= q') s s' :=
  (hq s.cursor.offset s'.cursor.offset).congr (offset_bind q) fun _ => offset_bind q'

/-- Of the state, only the variables in scope are looked at. -/
theorem get {q q' : ParseState → Parse β}
    (hq : ∀ r, r.scope = s.scope → Shadows k w (q s) (q' r) s s') :
    Shadows k w (MonadState.get >>= q) (MonadState.get >>= q') s s' := by
  intro b t h
  rw [get_bind] at h
  refine ⟨(hq s rfl b t h).1, fun hs hlost => ?_⟩
  rw [get_bind]
  exact (hq s' hs.scope b t h).2 hs hlost

/-! ### Moving on -/

theorem advance : ShadowsSame k (advance σ) (advance σ) s s' := by
  intro a t ha
  obtain ⟨c, hc, rfl⟩ := advance_ok ha
  refine ⟨.advance .refl hc, fun hs hlost => ?_⟩
  obtain ⟨-, c', hc', hbeside⟩ := hs.advance hc hlost
  exact ⟨(), _, advance_run hc', rfl, hbeside⟩

theorem expect {t : Token} {q q' : Unit → Parse β} (ht : t.isInner = true)
    (hq : s.cursor.token = t → Shadows k w (q ()) (q' ()) s s') :
    Shadows k w (expect σ t >>= q) (Parse.expect σ t >>= q') s s' := by
  intro b u h
  obtain ⟨_, u', hu', -⟩ := bind_ok.mp h
  obtain ⟨htoken, rfl⟩ := expect_ok hu'
  refine (hq htoken).congr (bind_run hu') (fun hs => bind_run (expect_run ?_)) b u h
  rw [k.token (hs.inside (htoken ▸ ht)), htoken]

theorem value_expect {t : Token} {q q' : String → Parse β} (ht : t.isInner = true)
    (hq : s.cursor.token = t → Shadows k w (q s.cursor.value) (q' s.cursor.value) s s') :
    Shadows k w (Parse.value >>= fun x => Parse.expect σ t >>= fun _ => q x)
      (Parse.value >>= fun x => Parse.expect σ t >>= fun _ => q' x) s s' := by
  intro b u h
  have hb := h
  rw [value_bind] at hb
  obtain ⟨_, _, hu, -⟩ := bind_ok.mp hb
  obtain ⟨htoken, rfl⟩ := expect_ok hu
  exact Shadows.value (htoken ▸ ht) (.expect ht hq) b u h

theorem skip {t : Token} : ShadowsSame k (skip σ t) (skip σ t) s s' := by
  intro a u h
  obtain ⟨_, _, hu, h⟩ := bind_ok.mp h
  obtain ⟨htoken, rfl⟩ := expect_ok hu
  obtain ⟨c, hc, rfl⟩ := advance_ok h
  refine ⟨.advance .refl hc, fun hs hlost => ?_⟩
  obtain ⟨hin, c', hc', hbeside⟩ := hs.advance hc hlost
  exact ⟨(), _, skip_run ((k.token hin).trans htoken) hc', rfl, hbeside⟩

theorem skipMark (hs : s.cursor.token.isInner = true) :
    ShadowsSame k (skipMark σ) (skipMark σ) s s' := by
  intro a t ha
  obtain ⟨_, u, hu, ha⟩ := bind_ok.mp ha
  cases hu
  obtain ⟨c, hc, rfl⟩ := advance_ok ha
  refine ⟨.advance (.endOperand .refl) hc, fun hbeside hlost => ?_⟩
  rcases k.advance (k.endOperand (hbeside.inside hs)) hc with hc' | ⟨c', hc', hcursor⟩
  · exact absurd hc' hlost
  · exact ⟨(), _, skipMark_run hc', rfl, hcursor, hbeside.scope, hbeside.nextId, hbeside.depth⟩

theorem warn {message : String} : ShadowsSame k (warn message) (warn message) s s' := by
  intro a t ha
  cases ha
  exact ⟨.refl, fun hs _ => ⟨(), _, rfl, rfl, hs.cursor, hs.scope, hs.nextId, hs.depth⟩⟩

/-! ### Nesting and scope -/

theorem descend {levels : Nat} : ShadowsSame k (descend σ levels) (descend σ levels) s s' := by
  intro a t ha
  obtain ⟨hmax, rfl⟩ := descend_ok ha
  refine ⟨.refl, fun hs _ => ?_⟩
  have hdepth := hs.depth
  exact ⟨(), _, descend_run (by omega), rfl, hs.cursor, hs.scope, hs.nextId,
    Nat.add_le_add_right hdepth levels⟩

theorem nesting (hp : Shadows k v p p' s s') : Shadows k v (nesting p) (nesting p') s s' := by
  intro a t ha
  obtain ⟨u, hu, rfl⟩ := nesting_ok ha
  refine ⟨(hp a u hu).1, fun hs hlost => ?_⟩
  obtain ⟨a', u', hu', hview, hbeside⟩ := (hp a u hu).2 hs hlost
  exact ⟨a', _, nesting_run hu', hview, hbeside.cursor, hbeside.scope, hbeside.nextId, hs.depth⟩

theorem binding (hp : Shadows k v p p' s s') : Shadows k v (binding p) (binding p') s s' := by
  intro a t ha
  obtain ⟨u, hu, rfl⟩ := binding_ok ha
  refine ⟨(hp a u hu).1, fun hs hlost => ?_⟩
  obtain ⟨a', u', hu', hview, hbeside⟩ := (hp a u hu).2 hs hlost
  exact ⟨a', _, binding_run hu', hview, hbeside.cursor, hs.scope, hbeside.nextId, hbeside.depth⟩

theorem declare {name : ExpandedName} :
    ShadowsSame k (declare name) (declare name) s s' := by
  intro v t hv
  obtain ⟨rfl, rfl⟩ := declare_ok hv
  refine ⟨.refl, fun hs _ => ?_⟩
  have hnext := hs.nextId
  refine ⟨_, _, rfl, ?_, hs.cursor, ?_, ?_, hs.depth⟩
  · show RangeVariable.mk s'.nextId name .singleItem = _
    rw [hnext]
    rfl
  · show RangeVariable.mk s'.nextId name .singleItem :: s'.scope = _
    rw [hnext, hs.scope]
  · show s'.nextId + 1 = _
    rw [hnext]

end Shadows

/-! ### Repetition -/

/-- A repetition for such a token stops at the end of a source, and where a track may end for the
first reader. -/
def Halts (go : Token → Bool) : Prop :=
  [Token.eof, .rightParen, .returnWord, .satisfiesWord].any go = false

theorem Halts.eq_false {go : Token → Bool} (hgo : Halts go) {t : Token}
    (ht : t ∈ [Token.eof, .rightParen, .returnWord, .satisfiesWord]) : go t = false := by
  simpa using List.any_eq_false.mp hgo t ht

theorem Halts.isInner {go : Token → Bool} (hgo : Halts go) {t : Token} (ht : go t = true) :
    t.isInner = true := by
  cases t with
  | returnWord => rw [hgo.eq_false (by simp)] at ht; cases ht
  | satisfiesWord => rw [hgo.eq_false (by simp)] at ht; cases ht
  | _ => rfl

/-- Every round of a repetition reads on. -/
def Advances (go : Token → Bool) (part : α → Parse α) : Prop :=
  ∀ a s b t, go s.cursor.token = true → part a s = .ok b t → s.cursor.Shortens t.cursor

theorem Advances.length_lt {go : Token → Bool} {part : α → Parse α} (hgo : Halts go)
    (h : Advances go part) {a b : α} (hs : go s.cursor.token = true) (hpart : part a s = .ok b t)
    (ht : go t.cursor.token = true) : t.cursor.rest.length < s.cursor.rest.length := by
  rcases h a s b t hs hpart with hlength | ⟨-, hspent | hspent⟩
  · exact hlength
  · rw [hspent, hgo.eq_false (by simp)] at ht
    cases ht
  · rw [hspent, hgo.eq_false (by simp)] at ht
    cases ht

section Repetition

variable {v : α → γ} {go : Token → Bool} {part part' : α → Parse α} {last : Cursor → Prop}

/-- Where the first reader stops, the second one does. -/
theorem repeatAtMost_stops (part' : α → Parse α) (s' : ParseState) (m : Nat)
    (hstop : ∀ {c c'}, k.AtEnd c c' → last c → go c'.token = false) {a a' b : α} {n : Nat}
    (ha : v a' = v a) (hs : go s.cursor.token = false) (h : repeatAtMost go part n a s = .ok b t) :
    s.cursor.Reaches t.cursor ∧ (Beside k s s' → last t.cursor →
      ∃ b' t', repeatAtMost go part' m a' s' = .ok b' t' ∧ v b' = v b ∧ Beside k t t') := by
  rw [repeatAtMost_stop hs] at h
  cases h
  refine ⟨.refl, fun hbeside hlast' => ?_⟩
  have hs' : go s'.cursor.token = false := by
    rcases hbeside.cursor with hin | hend
    · rw [k.token hin, hs]
    · exact hstop hend hlast'
  exact ⟨a', s', repeatAtMost_stop hs', ha, hbeside⟩

/-- The rounds of two repetitions that have as many rounds left as they may need. The second
reader stops with the first one if it does so in the states in which the first one may end. -/
theorem shadows_rounds (s' : ParseState) (m : Nat) (hgo : Halts go)
    (hlast : ∀ {c}, last c → ¬k.Lost c)
    (hstop : ∀ {c c'}, k.AtEnd c c' → last c → go c'.token = false)
    (hround : ∀ a a' s s', go s.cursor.token = true → v a' = v a →
      Shadows k v (part a) (part' a') s s')
    (hpart : Advances go part) (hpart' : Advances go part') (n : Nat) {a a' b : α}
    {s t : ParseState} (ha : v a' = v a) (hn : go s.cursor.token = true → s.cursor.rest.length < n)
    (h : repeatAtMost go part n a s = .ok b t) :
    s.cursor.Reaches t.cursor ∧ (Beside k s s' → last t.cursor →
      (go s'.cursor.token = true → s'.cursor.rest.length < m) →
      ∃ b' t', repeatAtMost go part' m a' s' = .ok b' t' ∧ v b' = v b ∧ Beside k t t') := by
  -- the induction is on the rounds that the first reader has left; the second one may have more
  induction n generalizing a a' s s' m with
  | zero =>
      have hs : go s.cursor.token = false := by
        cases hs : go s.cursor.token with
        | false => rfl
        | true => exact absurd (hn hs) (Nat.not_lt_zero _)
      have hstops := repeatAtMost_stops part' s' m hstop ha hs h
      exact ⟨hstops.1, fun hbeside hlast' _ => hstops.2 hbeside hlast'⟩
  | succ n ih =>
      cases hs : go s.cursor.token with
      | false =>
          have hstops := repeatAtMost_stops part' s' m hstop ha hs h
          exact ⟨hstops.1, fun hbeside hlast' _ => hstops.2 hbeside hlast'⟩
      | true =>
          rw [repeatAtMost_round hs] at h
          obtain ⟨a₁, u, hu, h⟩ := bind_ok.mp h
          have hn' : go u.cursor.token = true → u.cursor.rest.length < n := fun hgo' =>
            Nat.lt_of_lt_of_le (hpart.length_lt hgo hs hu hgo') (Nat.le_of_lt_succ (hn hs))
          have hreach' := (ih u 0 (Eq.refl (v a₁)) hn' h).1
          refine ⟨(hround a a s s hs rfl a₁ u hu).1.trans hreach', fun hbeside hlast' hm => ?_⟩
          have hs' : go s'.cursor.token = true := by
            rw [k.token (hbeside.inside (hgo.isInner hs)), hs]
          have hlost : ¬k.Lost u.cursor := fun hlost =>
            hlast hlast' (Track.lost_of_reaches hreach' hlost)
          obtain ⟨a₁', u', hu', hview, hbeside'⟩ := (hround a a' s s' hs ha a₁ u hu).2 hbeside hlost
          obtain ⟨m, rfl⟩ := Nat.exists_eq_succ_of_ne_zero (Nat.ne_zero_of_lt (hm hs'))
          have hm' : go u'.cursor.token = true → u'.cursor.rest.length < m := fun hgo' =>
            Nat.lt_of_lt_of_le (hpart'.length_lt hgo hs' hu' hgo') (Nat.le_of_lt_succ (hm hs'))
          obtain ⟨b', t', ht', hview', hbeside''⟩ := (ih u' m hview hn' h).2 hbeside' hlast' hm'
          refine ⟨b', t', ?_, hview', hbeside''⟩
          rw [repeatAtMost_round hs', bind_run hu', ht']

theorem Shadows.repeatWhile (hgo : Halts go) (hcomma : go .comma = false)
    (hround : ∀ a a' s s', go s.cursor.token = true → v a' = v a →
      Shadows k v (part a) (part' a') s s')
    (hpart : Advances go part) (hpart' : Advances go part') {a a' : α} (ha : v a' = v a) :
    Shadows k v (repeatWhile go part a) (Parse.repeatWhile go part' a') s s' := by
  intro b t h
  have hstop : ∀ {c c'}, k.AtEnd c c' → ¬k.Lost c → go c'.token = false := by
    intro c c' hend _
    rw [(k.ends hend).2, hcomma]
  obtain ⟨hreach, hrun⟩ := shadows_rounds s' (s'.cursor.rest.length + 1) hgo id hstop hround
    hpart hpart' _ ha (fun _ => Nat.lt_succ_self _) h
  exact ⟨hreach, fun hbeside hlost => hrun hbeside hlost fun _ => Nat.lt_succ_self _⟩

end Repetition

/-! ### Lists -/

section Lists

variable {v : α → γ} {w : β → δ} {p p' : Parse α} {q q' : List α → Parse β}

theorem advances_item (hp : ∀ {s a t}, p s = .ok a t → s.cursor.LeadsTo t.cursor) :
    Advances (· = .comma) (fun others => do
      advance σ
      return (← p) :: others) := by
  intro others s others' t _ h
  obtain ⟨_, u, hu, h⟩ := bind_ok.mp h
  obtain ⟨a, r, hr, h⟩ := bind_ok.mp h
  obtain ⟨-, rfl⟩ := pure_ok.mp h
  obtain ⟨c, hc, rfl⟩ := advance_ok hu
  exact (Cursor.shortens_of_advance hc).trans (hp hr)

/-- Several parts with commas between them, when the first reader stops inside of a track. At the
end of the track the second one would go on. -/
theorem commaSeparated_shadowed (s' : ParseState) (hp : ∀ s s', Shadows k v p p' s s')
    (hp' : ∀ {s a t}, p' s = .ok a t → s.cursor.LeadsTo t.cursor) {as : List α}
    (h : commaSeparated σ p s = .ok as t) :
    s.cursor.Reaches t.cursor ∧
      (Beside k s s' → k.Before t.cursor →
        ∃ as' t', commaSeparated σ p' s' = .ok as' t' ∧ as'.map v = as.map v ∧ Beside k t t') := by
  obtain ⟨first, r, hr, h⟩ := bind_ok.mp h
  obtain ⟨others, _, hothers, h⟩ := bind_ok.mp h
  obtain ⟨rfl, rfl⟩ := pure_ok.mp h
  have hround : ∀ (as as' : List α) s s', decide (s.cursor.token = .comma) = true →
      as'.map v = as.map v →
      Shadows k (List.map v) (advance σ >>= fun _ => p >>= fun a => pure (a :: as))
        (advance σ >>= fun _ => p' >>= fun a => pure (a :: as')) s s' := by
    intro as as' s s' _ has
    refine .bind_same .advance fun _ s s' => ?_
    refine .bind (hp s s') fun a a' _ _ ha => ?_
    exact .pure (by simp [ha, has])
  have hcomma : Halts (· = .comma) := rfl
  have hlost : ∀ {c}, k.Before c → ¬k.Lost c := And.left
  have hstop : ∀ {c c'}, k.AtEnd c c' → k.Before c → decide (c'.token = .comma) = false :=
    fun hend hbefore => absurd hend (hbefore.2 _)
  have hleads : ∀ {s a t}, p s = .ok a t → s.cursor.LeadsTo t.cursor :=
    fun h => (hp _ s' _ _ h).1.leadsTo
  have hrounds := fun r' => shadows_rounds r' (r'.cursor.rest.length + 1) hcomma hlost hstop
    hround (advances_item hleads) (advances_item hp') _ (Eq.refl ([].map v))
    (fun _ => Nat.lt_succ_self _) hothers
  refine ⟨(hp s s' first r hr).1.trans (hrounds s').1, fun hbeside hlast => ?_⟩
  have hr' : ¬k.Lost r.cursor := fun hlost =>
    hlast.1 (Track.lost_of_reaches (hrounds s').1 hlost)
  obtain ⟨first', r', hr', hfirst, hbeside'⟩ := (hp s s' first r hr).2 hbeside hr'
  obtain ⟨others', t', hothers', hview, hbeside''⟩ :=
    (hrounds r').2 hbeside' hlast fun _ => Nat.lt_succ_self _
  refine ⟨first' :: others'.reverse, t', ?_, ?_, hbeside''⟩
  · rw [← repeatWhile_eq] at hothers'
    unfold commaSeparated
    rw [bind_run hr', bind_run hothers']
    rfl
  · simp [hfirst, hview]

/-- Several parts with commas between them and another token behind. Where a track may end with
a comma for the second reader, the first one is not at that token, or gets lost behind it. -/
theorem Shadows.commaSeparated {t : Token} (hp : ∀ s s', Shadows k v p p' s s')
    (hp' : ∀ {s a t}, p' s = .ok a t → s.cursor.LeadsTo t.cursor)
    (hq : ∀ as as' s s', as'.map v = as.map v → Shadows k w (q as) (q' as') s s') :
    Shadows k w (Parse.commaSeparated σ p >>= fun as => Parse.skip σ t >>= fun _ => q as)
      (Parse.commaSeparated σ p' >>= fun as => Parse.skip σ t >>= fun _ => q' as) s s' := by
  intro b u h
  obtain ⟨as, s₁, has, h⟩ := bind_ok.mp h
  obtain ⟨_, s₂, hskip, hb⟩ := bind_ok.mp h
  obtain ⟨hreach₁, hrun⟩ := commaSeparated_shadowed s' hp hp' has
  have hskip' : ∀ s', ShadowsSame k (Parse.skip σ t) (Parse.skip σ t) s₁ s' := fun _ => .skip
  have hreach₂ := (hskip' s' _ s₂ hskip).1
  have hreach₃ := (hq as as s₂ s₂ rfl b u hb).1
  refine ⟨(hreach₁.trans hreach₂).trans hreach₃, fun hbeside hlost => ?_⟩
  have hlost₂ : ¬k.Lost s₂.cursor := fun h => hlost (Track.lost_of_reaches hreach₃ h)
  -- at the end of the track the token would be the word before an action, and is read past
  have hlast : k.Before s₁.cursor := by
    refine ⟨fun h => hlost₂ (Track.lost_of_reaches hreach₂ h), fun c hend => ?_⟩
    obtain ⟨_, v, hv, hadvance⟩ := bind_ok.mp hskip
    obtain ⟨-, rfl⟩ := expect_ok hv
    obtain ⟨d, hd, rfl⟩ := advance_ok hadvance
    exact hlost₂ (k.past hend hd)
  obtain ⟨as', s₁', has', hview, hbeside₁⟩ := hrun hbeside hlast
  obtain ⟨_, s₂', hs₂', -, hbeside₂⟩ := (hskip' s₁' _ s₂ hskip).2 hbeside₁ hlost₂
  obtain ⟨b', u', hb', hview', hbeside₃⟩ := (hq as as' s₂ s₂' hview b u hb).2 hbeside₂ hlost
  refine ⟨b', u', ?_, hview', hbeside₃⟩
  rw [bind_run has', bind_run hs₂', hb']

end Lists

end Parse

end XPath
