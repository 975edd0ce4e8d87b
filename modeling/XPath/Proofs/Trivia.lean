import XPath.Proofs.Lexing

/-!
# What stands between tokens

`Token.IsTrivia` says what blanks and comments are without reading them from left to right
as far as they go, and `Token.trivia` is shown to find exactly the longest such text at the head
of another one. Trivia put together are trivia, and trivia put before a text only lengthen the
gap at its head.
-/

namespace XPath.Token

/-- A text of blanks and of comments, of which the first `n` are open already and every one is
closed in it. Comments nest. -/
inductive IsTrivia : Nat → List Char → Prop
  | nil : IsTrivia 0 []
  | blank {c : Char} {cs : List Char} : Text.isBlank c = true → IsTrivia 0 cs →
      IsTrivia 0 (c :: cs)
  | opening {n : Nat} {cs : List Char} : IsTrivia (n + 1) cs → IsTrivia n ('(' :: ':' :: cs)
  | closing {n : Nat} {cs : List Char} : IsTrivia n cs → IsTrivia (n + 1) (':' :: ')' :: cs)
  | inside {n : Nat} {c : Char} {cs : List Char} :
      ¬['(', ':'] <+: c :: cs → ¬[':', ')'] <+: c :: cs → IsTrivia (n + 1) cs →
      IsTrivia (n + 1) (c :: cs)

/-- A text that starts with neither a blank nor a comment. -/
def EndsTrivia (cs : List Char) : Prop :=
  (∀ c ∈ cs.head?, Text.isBlank c = false) ∧ ¬['(', ':'] <+: cs

theorem opens_iff {c : Char} {cs : List Char} :
    ['(', ':'] <+: c :: cs ↔ c = '(' ∧ ∃ ds, cs = ':' :: ds := by
  constructor
  · rintro ⟨ds, heq⟩
    cases heq
    exact ⟨rfl, ds, rfl⟩
  · rintro ⟨rfl, ds, rfl⟩
    exact ⟨ds, rfl⟩

theorem closes_iff {c : Char} {cs : List Char} :
    [':', ')'] <+: c :: cs ↔ c = ':' ∧ ∃ ds, cs = ')' :: ds := by
  constructor
  · rintro ⟨ds, heq⟩
    cases heq
    exact ⟨rfl, ds, rfl⟩
  · rintro ⟨rfl, ds, rfl⟩
    exact ⟨ds, rfl⟩

theorem endsTrivia_nil : EndsTrivia [] :=
  ⟨by simp, by simp⟩

theorem IsSolid.endsTrivia {cs : List Char} (h : IsSolid cs) : EndsTrivia cs := by
  obtain ⟨c, ds, rfl, hblank, hparen⟩ := h
  constructor
  · rintro d ⟨⟩
    exact hblank
  · intro hprefix
    exact hparen (opens_iff.mp hprefix).1

/-! ### Splitting off trivia -/

theorem splitTrivia_blank {c : Char} (h : Text.isBlank c = true) (cs : List Char) :
    splitTrivia 0 (c :: cs) =
      (splitTrivia 0 cs).map fun (gap, rest) => (c :: gap, rest) := by
  rw [splitTrivia.eq_3, if_pos h]
  rintro ds rfl rfl
  exact absurd h (by decide)

theorem splitTrivia_end {cs : List Char} (h : EndsTrivia cs) :
    splitTrivia 0 cs = some ([], cs) := by
  cases cs with
  | nil => rfl
  | cons c cs =>
      have hblank : ¬Text.isBlank c = true := by simp [h.1 c rfl]
      rw [splitTrivia.eq_3, if_neg hblank]
      rintro ds rfl rfl
      exact h.2 ⟨ds, rfl⟩

theorem splitTrivia_opening (n : Nat) (cs : List Char) :
    splitTrivia n ('(' :: ':' :: cs) =
      (splitTrivia (n + 1) cs).map fun (gap, rest) => ('(' :: ':' :: gap, rest) := by
  cases n <;> rfl

theorem splitTrivia_inside {n : Nat} {c : Char} {cs : List Char} (hopen : ¬['(', ':'] <+: c :: cs)
    (hclose : ¬[':', ')'] <+: c :: cs) :
    splitTrivia (n + 1) (c :: cs) =
      (splitTrivia (n + 1) cs).map fun (gap, rest) => (c :: gap, rest) := by
  rw [splitTrivia.eq_7]
  · rintro ds rfl rfl
    exact hopen ⟨ds, rfl⟩
  · rintro ds rfl rfl
    exact hclose ⟨ds, rfl⟩

theorem IsTrivia.ne_nil {n : Nat} {gap : List Char} (h : IsTrivia (n + 1) gap) : gap ≠ [] := by
  cases h <;> simp

/-- A text closes only as many comments as are open. -/
theorem IsTrivia.level_unique {m n : Nat} {cs : List Char} (h : IsTrivia m cs)
    (h' : IsTrivia n cs) : m = n := by
  induction h generalizing n with
  | nil =>
      cases h' with
      | nil => rfl
  | blank hc _ ih =>
      cases h' with
      | blank _ h' => exact ih h'
      | opening _ => exact absurd hc (by decide)
      | closing _ => exact absurd hc (by decide)
      | inside _ _ h' => exact absurd (ih h') (by simp)
  | opening _ ih =>
      cases h' with
      | blank hc _ => exact absurd hc (by decide)
      | opening h' => exact Nat.succ.inj (ih h')
      | inside hopen _ _ => exact absurd ⟨_, rfl⟩ hopen
  | closing _ ih =>
      cases h' with
      | blank hc _ => exact absurd hc (by decide)
      | closing h' => exact congrArg Nat.succ (ih h')
      | inside _ hclose _ => exact absurd ⟨_, rfl⟩ hclose
  | inside hopen hclose _ ih =>
      cases h' with
      | blank _ h' => exact absurd (ih h') (by simp)
      | opening _ => exact absurd ⟨_, rfl⟩ hopen
      | closing _ => exact absurd ⟨_, rfl⟩ hclose
      | inside _ _ h' => exact ih h'

/-- Where trivia are cut in two so that the second part is trivia by itself, the first one ends
with a blank or with the end of a comment. -/
theorem IsTrivia.cut {n : Nat} {before after : List Char} (h : IsTrivia n (before ++ after))
    (hafter : IsTrivia 0 after) {c : Char} (hlast : before.getLast? = some c) :
    Text.isBlank c = true ∨ c = ')' := by
  generalize htext : before ++ after = text at h
  induction h generalizing before with
  | nil =>
      obtain ⟨rfl, -⟩ := List.append_eq_nil_iff.mp htext
      cases hlast
  | @blank d ds hd _ ih =>
      match before with
      | [] => cases hlast
      | [e] =>
          cases htext
          cases hlast
          exact .inl hd
      | e :: e' :: before =>
          cases htext
          have hbefore : (e' :: before).getLast? = some c := hlast
          exact ih hbefore rfl
  | opening h ih =>
      match before with
      | [] => cases hlast
      | [e] =>
          -- a colon at the head of the second part starts no trivia
          cases htext
          obtain ⟨⟩ | ⟨hblank, -⟩ := hafter
          exact absurd hblank (by decide)
      | [e, e'] =>
          cases htext
          exact absurd (h.level_unique hafter) (by simp)
      | e :: e' :: e'' :: before =>
          cases htext
          have hbefore : (e'' :: before).getLast? = some c := hlast
          exact ih hbefore rfl
  | closing _ ih =>
      match before with
      | [] => cases hlast
      | [e] =>
          cases htext
          obtain ⟨⟩ | ⟨hblank, -⟩ := hafter
          exact absurd hblank (by decide)
      | [e, e'] =>
          cases htext
          cases hlast
          exact .inr rfl
      | e :: e' :: e'' :: before =>
          cases htext
          have hbefore : (e'' :: before).getLast? = some c := hlast
          exact ih hbefore rfl
  | inside _ _ h ih =>
      match before with
      | [] => cases hlast
      | [e] =>
          cases htext
          exact absurd (h.level_unique hafter) (by simp)
      | e :: e' :: before =>
          cases htext
          have hbefore : (e' :: before).getLast? = some c := hlast
          exact ih hbefore rfl

/-- The characters of a comment before its end are the same whatever follows the comment. -/
theorem not_prefix_append {d e c : Char} {gap : List Char} (hgap : gap ≠ [])
    (h : ¬[d, e] <+: c :: gap) (cs : List Char) : ¬[d, e] <+: c :: (gap ++ cs) := by
  cases gap with
  | nil => exact absurd rfl hgap
  | cons g gap =>
      intro hprefix
      obtain ⟨ds, heq⟩ := hprefix
      cases heq
      exact h ⟨gap, rfl⟩

/-- Trivia at the head of a text are skipped first. -/
theorem splitTrivia_append {n : Nat} {gap : List Char} (h : IsTrivia n gap) (cs : List Char) :
    splitTrivia n (gap ++ cs) =
      (splitTrivia 0 cs).map fun (more, rest) => (gap ++ more, rest) := by
  induction h with
  | nil => simp
  | blank hc _ ih =>
      rw [List.cons_append, splitTrivia_blank hc, ih]
      simp [Function.comp_def]
  | opening _ ih =>
      simp only [List.cons_append]
      rw [splitTrivia_opening, ih]
      simp [Function.comp_def]
  | closing _ ih =>
      simp only [List.cons_append]
      rw [splitTrivia.eq_6, ih]
      simp [Function.comp_def]
  | inside hopen hclose hgap ih =>
      have hopen' := not_prefix_append hgap.ne_nil hopen cs
      have hclose' := not_prefix_append hgap.ne_nil hclose cs
      rw [List.cons_append, splitTrivia_inside hopen' hclose', ih]
      simp [Function.comp_def]

theorem splitTrivia_spec {n : Nat} {cs gap rest : List Char}
    (h : splitTrivia n cs = some (gap, rest)) :
    cs = gap ++ rest ∧ IsTrivia n gap ∧ EndsTrivia rest := by
  fun_induction splitTrivia n cs generalizing gap with
  | case1 =>
      cases h
      exact ⟨rfl, .nil, endsTrivia_nil⟩
  | case2 cs ih =>
      obtain ⟨⟨gap', rest'⟩, hsplit, heq⟩ := Option.map_eq_some_iff.mp h
      cases heq
      obtain ⟨rfl, hgap, hrest⟩ := ih hsplit
      exact ⟨rfl, .opening hgap, hrest⟩
  | case3 c cs _ hblank ih =>
      obtain ⟨⟨gap', rest'⟩, hsplit, heq⟩ := Option.map_eq_some_iff.mp h
      cases heq
      obtain ⟨rfl, hgap, hrest⟩ := ih hsplit
      exact ⟨rfl, .blank hblank hgap, hrest⟩
  | case4 c cs hopen hblank =>
      cases h
      refine ⟨rfl, .nil, ?_, ?_⟩
      · intro d hd
        cases hd
        simpa using hblank
      · intro hprefix
        obtain ⟨rfl, ds, rfl⟩ := opens_iff.mp hprefix
        exact hopen ds rfl rfl
  | case5 => cases h
  | case6 n cs ih =>
      obtain ⟨⟨gap', rest'⟩, hsplit, heq⟩ := Option.map_eq_some_iff.mp h
      cases heq
      obtain ⟨rfl, hgap, hrest⟩ := ih hsplit
      exact ⟨rfl, .opening hgap, hrest⟩
  | case7 n cs ih =>
      obtain ⟨⟨gap', rest'⟩, hsplit, heq⟩ := Option.map_eq_some_iff.mp h
      cases heq
      obtain ⟨rfl, hgap, hrest⟩ := ih hsplit
      exact ⟨rfl, .closing hgap, hrest⟩
  | case8 n c cs hopen hclose ih =>
      obtain ⟨⟨gap', rest'⟩, hsplit, heq⟩ := Option.map_eq_some_iff.mp h
      cases heq
      obtain ⟨rfl, hgap, hrest⟩ := ih hsplit
      refine ⟨rfl, .inside ?_ ?_ hgap, hrest⟩
      · intro hprefix
        obtain ⟨rfl, ds, rfl⟩ := opens_iff.mp hprefix
        exact hopen _ rfl rfl
      · intro hprefix
        obtain ⟨rfl, ds, rfl⟩ := closes_iff.mp hprefix
        exact hclose _ rfl rfl

/-- What is skipped before a token is the longest text of blanks and comments. -/
theorem trivia_eq_some_iff {cs gap rest : List Char} :
    trivia cs = some (gap, rest) ↔ cs = gap ++ rest ∧ IsTrivia 0 gap ∧ EndsTrivia rest := by
  constructor
  · exact splitTrivia_spec
  · rintro ⟨rfl, hgap, hrest⟩
    rw [trivia, splitTrivia_append hgap, splitTrivia_end hrest]
    simp

/-- Trivia before a text lengthen the gap at its head and change nothing else. -/
theorem trivia_append {gap : List Char} (h : IsTrivia 0 gap) (cs : List Char) :
    trivia (gap ++ cs) = (trivia cs).map fun (more, rest) => (gap ++ more, rest) :=
  splitTrivia_append h cs

theorem IsTrivia.append {n : Nat} {gap more : List Char} (h : IsTrivia n gap)
    (hmore : IsTrivia 0 more) : IsTrivia n (gap ++ more) := by
  induction h with
  | nil => exact hmore
  | blank hc _ ih => exact .blank hc ih
  | opening _ ih => exact .opening ih
  | closing _ ih => exact .closing ih
  | inside hopen hclose hgap ih =>
      exact .inside (not_prefix_append hgap.ne_nil hopen _)
        (not_prefix_append hgap.ne_nil hclose _) ih

/-- Trivia start with a blank or a parenthesis, so that no name, number or symbol goes on into
them. -/
theorem IsTrivia.head {c : Char} {cs : List Char} (h : IsTrivia 0 (c :: cs)) :
    Text.isBlank c = true ∨ c = '(' ∧ ∃ ds, cs = ':' :: ds := by
  cases h with
  | blank hc _ => exact .inl hc
  | opening _ => exact .inr ⟨rfl, _, rfl⟩

theorem IsTrivia.head?_append_ne {gap cs : List Char} (h : IsTrivia 0 gap)
    (hcs : cs.head? ≠ some ':') : (gap ++ cs).head? ≠ some ':' := by
  cases gap with
  | nil => exact hcs
  | cons c gap =>
      rintro ⟨⟩
      rcases h.head with hblank | ⟨hparen, -⟩
      · cases hblank
      · cases hparen

end XPath.Token
