import XPath.Proofs.Run

/-!
# Attempts

How an attempt to read a text ends that is known to be well written. `Ends` says of an action and
a state that a value is given, with a property of it and of the state after it, or that the action
fails with a fault of which another property holds. It is kept by actions in a row and by parts in
levels of their own, so that the reading of a text can be followed token by token. An attempt
`Meets` its property if it gives what it should unless too many levels are in use by then; this is
kept by repetition too (`Rounds`), and levels need not be counted.
-/

namespace XPath.Parse

variable {α β : Type} {σ : Setting} {F : Fault → Prop} {s t : ParseState}

/-! ### Faults -/

/-- A fault has been found, somewhere. -/
def Fails (σ : Setting) (f : Fault) (r : EStateM.Result Error ParseState α) : Prop :=
  ∃ location t, r = .error { f.error σ.language with location := some location } t

namespace Fails

variable {f : Fault}

theorem bind {p : Parse α} {q : α → Parse β} (h : Fails σ f (p s)) : Fails σ f ((p >>= q) s) := by
  obtain ⟨location, t, ht⟩ := h
  exact ⟨location, t, bind_fails ht⟩

theorem nesting {p : Parse α} (h : Fails σ f (p s)) : Fails σ f (nesting p s) := by
  obtain ⟨location, t, ht⟩ := h
  exact ⟨location, _, nesting_fails ht⟩

theorem binding {p : Parse α} (h : Fails σ f (p s)) : Fails σ f (binding p s) := by
  obtain ⟨location, t, ht⟩ := h
  exact ⟨location, _, binding_fails ht⟩

end Fails

/-- Too many levels have been taken. -/
def TooDeep (σ : Setting) (r : EStateM.Result Error ParseState α) : Prop :=
  Fails σ .tooDeep r

/-! ### Actions -/

/-- The action gives a value and leaves a state of which a property holds, or it fails with a
fault of another property. -/
def Ends (σ : Setting) (F : Fault → Prop) (p : Parse α) (s : ParseState)
    (Q : α → ParseState → Prop) : Prop :=
  (∃ a t, p s = .ok a t ∧ Q a t) ∨ ∃ f, F f ∧ Fails σ f (p s)

namespace Ends

variable {p : Parse α} {q : α → Parse β} {Q : α → ParseState → Prop} {R : β → ParseState → Prop}

theorem of_run {a : α} (h : p s = .ok a t) (hQ : Q a t) : Ends σ F p s Q :=
  .inl ⟨a, t, h, hQ⟩

theorem pure {a : α} (h : Q a s) : Ends σ F (pure a) s Q :=
  .of_run rfl h

theorem reject {f : Fault} (h : F f) : Ends σ F (reject σ f) s Q :=
  .inr ⟨f, h, _, _, reject_run f⟩

theorem mono {Q' : α → ParseState → Prop} (h : Ends σ F p s Q')
    (hQ : ∀ a t, Q' a t → Q a t) : Ends σ F p s Q := by
  refine h.imp_left ?_
  rintro ⟨a, t, hp, ha⟩
  exact ⟨a, t, hp, hQ a t ha⟩

/-- Nothing matters but what comes of the action in this state. -/
theorem congr {p' : Parse α} (h : Ends σ F p' s Q) (heq : p s = p' s) : Ends σ F p s Q := by
  unfold Ends
  rw [heq]
  exact h

/-- An action that starts with one that gives a known value. -/
theorem run {a : α} (h : p s = .ok a t) (hq : Ends σ F (q a) t R) : Ends σ F (p >>= q) s R := by
  unfold Ends
  rw [bind_run h]
  exact hq

/-- What an action comes to is where the next one starts. -/
theorem bind (h : Ends σ F p s Q) (hq : ∀ a t, Q a t → Ends σ F (q a) t R) :
    Ends σ F (p >>= q) s R := by
  rcases h with ⟨a, t, hp, ha⟩ | ⟨f, hf, hfails⟩
  · exact .run hp (hq a t ha)
  · exact .inr ⟨f, hf, hfails.bind⟩

/-- Levels that are still there. -/
theorem descend_within {levels : Nat} {q : Unit → Parse β} (h : s.depth + levels ≤ maxDepth)
    (hq : Ends σ F (q ()) { s with depth := s.depth + levels } R) :
    Ends σ F (descend σ levels >>= q) s R :=
  .run (descend_run h) hq

theorem token {k : Token} {q : Token → Parse β} (hk : s.cursor.token = k)
    (hq : Ends σ F (q k) s R) : Ends σ F (token >>= q) s R :=
  .congr hq (by rw [token_bind, hk])

theorem value {text : String} {q : String → Parse β} (hvalue : s.cursor.value = text)
    (hq : Ends σ F (q text) s R) : Ends σ F (value >>= q) s R :=
  .congr hq (by rw [value_bind, hvalue])

theorem offset {q : Nat → Parse β} (hq : Ends σ F (q s.cursor.offset) s R) :
    Ends σ F (offset >>= q) s R :=
  hq

theorem advance {c : Cursor} {q : Unit → Parse β} (hc : s.cursor.advance = (.ok (), c))
    (hq : Ends σ F (q ()) { s with cursor := c } R) : Ends σ F (advance σ >>= q) s R :=
  .run (advance_run hc) hq

theorem expect {k : Token} {q : Unit → Parse β} (hk : s.cursor.token = k)
    (hq : Ends σ F (q ()) s R) : Ends σ F (expect σ k >>= q) s R :=
  .run (expect_run hk) hq

theorem skip {k : Token} {c : Cursor} {q : Unit → Parse β} (hk : s.cursor.token = k)
    (hc : s.cursor.advance = (.ok (), c)) (hq : Ends σ F (q ()) { s with cursor := c } R) :
    Ends σ F (skip σ k >>= q) s R :=
  .run (skip_run hk hc) hq

theorem nesting (h : Ends σ F p s fun a t => Q a { t with depth := s.depth }) :
    Ends σ F (nesting p) s Q := by
  rcases h with ⟨a, t, hp, ha⟩ | ⟨f, hf, hfails⟩
  · exact .of_run (nesting_run hp) ha
  · exact .inr ⟨f, hf, hfails.nesting⟩

theorem binding (h : Ends σ F p s fun a t => Q a { t with scope := s.scope }) :
    Ends σ F (binding p) s Q := by
  rcases h with ⟨a, t, hp, ha⟩ | ⟨f, hf, hfails⟩
  · exact .of_run (binding_run hp) ha
  · exact .inr ⟨f, hf, hfails.binding⟩

/-- No round of a repetition. -/
theorem repeatWhile_stop {go : Token → Bool} {part : α → Parse α} {a : α}
    (hgo : go s.cursor.token = false) (h : Q a s) : Ends σ F (repeatWhile go part a) s Q :=
  .of_run (Parse.repeatWhile_stop hgo) h

end Ends

/-- The action gives a value and leaves a state of which a property holds, or it takes too many
levels. -/
def Meets (σ : Setting) (p : Parse α) (s : ParseState) (Q : α → ParseState → Prop) : Prop :=
  Ends σ (· = .tooDeep) p s Q

/-- Levels that may not be there any more. -/
theorem Ends.descend {levels : Nat} {q : Unit → Parse β} {R : β → ParseState → Prop}
    (hq : Ends σ (· = .tooDeep) (q ()) { s with depth := s.depth + levels } R) :
    Ends σ (· = .tooDeep) (descend σ levels >>= q) s R := by
  by_cases hdepth : s.depth + levels ≤ maxDepth
  · exact .descend_within hdepth hq
  · exact .inr ⟨_, rfl, .bind ⟨_, _, descend_fails hdepth⟩⟩

/-! ### Repetition -/

/-- The rounds of a repetition from here on, as many as the current tokens ask for. There are
never more of them than characters left. -/
def Rounds (σ : Setting) (F : Fault → Prop) (go : Token → Bool) (part : α → Parse α) (a : α)
    (s : ParseState) (Q : α → ParseState → Prop) : Prop :=
  ∀ n, s.cursor.rest.length < n → Ends σ F (repeatAtMost go part n a) s Q

section Rounds

variable {go : Token → Bool} {part : α → Parse α} {a : α} {Q : α → ParseState → Prop}

theorem Rounds.stop (hgo : go s.cursor.token = false) (h : Q a s) : Rounds σ F go part a s Q :=
  fun _ _ => .of_run (repeatAtMost_stop hgo) h

/-- One round, which reads on, and those after it. -/
theorem Rounds.round (hgo : go s.cursor.token = true)
    (h : Ends σ F (part a) s fun b t =>
      t.cursor.rest.length < s.cursor.rest.length ∧ Rounds σ F go part b t Q) :
    Rounds σ F go part a s Q := by
  intro n hn
  obtain ⟨n, rfl⟩ := Nat.exists_eq_succ_of_ne_zero (Nat.ne_zero_of_lt hn)
  refine .congr (.bind h fun b t hb => hb.2 n ?_) (repeatAtMost_round hgo)
  have := hb.1
  omega

/-- A repetition comes to what its rounds come to. -/
theorem Ends.repeatWhile (h : Rounds σ F go part a s Q) :
    Ends σ F (repeatWhile go part a) s Q :=
  h _ (Nat.lt_succ_self _)

end Rounds

/-- A row of one part, before another token than a comma. -/
theorem Ends.commaSeparated {part : Parse α} {Q : α → ParseState → Prop}
    (h : Ends σ F part s fun a u => Q a u ∧ u.cursor.token ≠ .comma) :
    Ends σ F (commaSeparated σ part) s fun as u => ∃ a, as = [a] ∧ Q a u := by
  refine .bind h fun a u ⟨ha, hcomma⟩ => ?_
  refine .bind (.repeatWhile_stop (Q := fun others v => others = [] ∧ v = u)
    (decide_eq_false hcomma) ⟨rfl, rfl⟩) ?_
  rintro _ _ ⟨rfl, rfl⟩
  exact .pure ⟨a, rfl, ha⟩

end XPath.Parse
