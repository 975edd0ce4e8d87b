import XPath.Token.Lexer

/-!
# Reading numerals

A numeral that has been read is written as numerals are, with the text behind it it makes up
the text it was read from, and it goes as far as it can. Conversely each numeral is read from
every text in which it cannot be longer.
-/

namespace XPath

/-! ### Scans -/

/-- The part of a text that fulfills a test, and the part where it fails first. -/
theorem span_append {p : Char → Bool} {word cs : List Char} (hword : ∀ c ∈ word, p c = true)
    (hcs : ∀ c ∈ cs.head?, p c = false) :
    (word ++ cs).takeWhile p = word ∧ (word ++ cs).dropWhile p = cs := by
  rw [List.takeWhile_append_of_pos hword, List.dropWhile_append_of_pos hword]
  cases cs with
  | nil => simp
  | cons c cs =>
      have hc : p c = false := hcs c rfl
      simp [hc]

theorem mem_takeWhile {p : Char → Bool} {cs : List Char} :
    ∀ c ∈ cs.takeWhile p, p c = true := by
  intro c hc
  exact List.all_eq_true.mp List.all_takeWhile c hc

theorem head_dropWhile {p : Char → Bool} (cs : List Char) :
    ∀ c ∈ (cs.dropWhile p).head?, p c = false := by
  intro c hc
  have := List.head?_dropWhile_not p cs
  rw [Option.mem_def.mp hc] at this
  simpa using this

namespace Number

/-! ### Written numerals -/

/-- An exponent mark, perhaps a sign, and digits. -/
structure Exponent.IsWritten (e : Exponent) : Prop where
  mark : e.mark = 'e' ∨ e.mark = 'E'
  sign : ∀ s ∈ e.sign, s = '+' ∨ s = '-'
  digits : ∀ d ∈ e.digits, isDigit d = true

/-- Digits before a point, digits after it and an exponent, as far as they are there. -/
structure Numeral.IsWritten (n : Numeral) : Prop where
  whole : ∀ d ∈ n.whole, isDigit d = true
  fraction : ∀ ds ∈ n.fraction, ∀ d ∈ ds, isDigit d = true
  exponent : ∀ e ∈ n.exponent, e.IsWritten
  /-- There is a digit on one side of the point. -/
  digit : n.whole ≠ [] ∨ ∃ d ds, n.fraction = some (d :: ds)

/-- The numeral cannot be longer before this text. -/
structure Numeral.EndsAt (n : Numeral) (cs : List Char) : Prop where
  digit : ∀ c ∈ cs.head?, isDigit c = false
  point : n.fraction = none → n.exponent = none → ∀ c ∈ cs.head?, decide (c = '.') = false
  mark : n.exponent = none → ∀ c ∈ cs.head?, (c = 'e' || c = 'E') = false
  sign : ∀ e ∈ n.exponent, e.sign = none → e.digits = [] →
    ∀ c ∈ cs.head?, (c = '+' || c = '-') = false

/-! ### What is read -/

theorem Exponent.read_spec (cs : List Char) :
    cs = ((Exponent.read cs).1.map Exponent.text).getD [] ++ (Exponent.read cs).2 ∧
      ∀ e ∈ (Exponent.read cs).1, e.IsWritten := by
  unfold Exponent.read
  split
  · exact ⟨rfl, by simp⟩
  · next c cs =>
      by_cases hmark : c = 'e' ∨ c = 'E'
      · rw [if_pos (by simpa using hmark)]
        split
        · refine ⟨rfl, ?_⟩
          rintro e ⟨⟩
          exact ⟨hmark, by simp, by simp⟩
        · next s ds =>
            by_cases hsign : s = '+' ∨ s = '-'
            · rw [if_pos (by simpa using hsign)]
              refine ⟨by simp [Exponent.text], ?_⟩
              rintro e ⟨⟩
              refine ⟨hmark, ?_, mem_takeWhile⟩
              rintro t ⟨⟩
              exact hsign
            · rw [if_neg (by simpa using hsign)]
              refine ⟨by simp [Exponent.text], ?_⟩
              rintro e ⟨⟩
              exact ⟨hmark, by simp, mem_takeWhile⟩
      · rw [if_neg (by simpa using hmark)]
        exact ⟨rfl, by simp⟩

theorem Numeral.readFraction_spec (cs : List Char) :
    cs = ((readFraction cs).1.map ('.' :: ·)).getD [] ++ (readFraction cs).2 ∧
      ∀ ds ∈ (readFraction cs).1, ∀ d ∈ ds, isDigit d = true := by
  unfold readFraction
  split
  · refine ⟨by simp, ?_⟩
    rintro ds ⟨⟩
    exact mem_takeWhile
  · exact ⟨rfl, by simp⟩

/-- A numeral and the text behind it are the text that it was read from. -/
theorem Numeral.read_text (cs : List Char) :
    cs = (Numeral.read cs).1.text ++ (Numeral.read cs).2 := by
  have hfraction := (readFraction_spec (cs.dropWhile isDigit)).1
  have hexponent := (Exponent.read_spec (readFraction (cs.dropWhile isDigit)).2).1
  simp only [Numeral.read, Numeral.text]
  rw [List.append_assoc, ← hexponent, List.append_assoc, ← hfraction,
    List.takeWhile_append_dropWhile]

theorem Numeral.read_isWritten {cs : List Char} (h : Lexeme.startsNumber cs = true) :
    (Numeral.read cs).1.IsWritten where
  whole := mem_takeWhile
  fraction := (readFraction_spec (cs.dropWhile isDigit)).2
  exponent := (Exponent.read_spec (readFraction (cs.dropWhile isDigit)).2).2
  digit := by
    unfold Lexeme.startsNumber at h
    split at h
    · next d ds =>
        have hpoint : isDigit '.' = false := by decide
        right
        refine ⟨d, ds.takeWhile isDigit, ?_⟩
        simp [Numeral.read, Numeral.readFraction, hpoint, h]
    · next d ds _ =>
        left
        simp [Numeral.read, h]
    · cases h

theorem Numeral.IsWritten.startsNumber {n : Numeral} (hn : n.IsWritten) (cs : List Char) :
    Lexeme.startsNumber (n.text ++ cs) = true := by
  obtain ⟨whole, fraction, exponent⟩ := n
  cases whole with
  | cons d ds =>
      have hd : isDigit d = true := hn.whole d (by simp)
      have hpoint : d ≠ '.' := by
        rintro rfl
        cases hd
      simp [Numeral.text, Lexeme.startsNumber, hpoint, hd]
  | nil =>
      rcases hn.digit with hne | ⟨d, ds, rfl⟩
      · exact absurd rfl hne
      · exact hn.fraction _ rfl d (by simp)

/-! ### Reading again -/

theorem Exponent.read_none {cs : List Char}
    (hcs : ∀ c ∈ cs.head?, (c = 'e' || c = 'E') = false) : Exponent.read cs = (none, cs) := by
  cases cs with
  | nil => rfl
  | cons c cs =>
      have hc : ¬(c = 'e' || c = 'E') = true := by simp [hcs c rfl]
      rw [Exponent.read.eq_def]
      exact if_neg hc

theorem Numeral.readFraction_none {cs : List Char}
    (hcs : ∀ c ∈ cs.head?, decide (c = '.') = false) : readFraction cs = (none, cs) := by
  unfold readFraction
  split
  · have := hcs '.' rfl
    simp at this
  · rfl

/-- An exponent is read again before a text that does not lengthen it. -/
theorem Exponent.read_append {e : Exponent} (he : e.IsWritten) {cs : List Char}
    (hdigit : ∀ c ∈ cs.head?, isDigit c = false)
    (hsign : e.sign = none → e.digits = [] → ∀ c ∈ cs.head?, (c = '+' || c = '-') = false) :
    Exponent.read (e.text ++ cs) = (some e, cs) := by
  obtain ⟨mark, sign, digits⟩ := e
  obtain ⟨htake, hdrop⟩ := span_append he.digits hdigit
  have hmark : (mark = 'e' || mark = 'E') = true := by simpa using he.mark
  rw [Exponent.read.eq_def]
  simp only [Exponent.text, List.cons_append, List.append_assoc, hmark, if_true]
  cases sign with
  | some s =>
      have hs : (s = '+' || s = '-') = true := by simpa using he.sign s rfl
      simp only [Option.toList_some, List.cons_append, List.nil_append, hs, if_true, htake, hdrop]
  | none =>
      simp only [Option.toList_none, List.nil_append]
      split
      · next hnil =>
          obtain ⟨rfl, rfl⟩ := List.append_eq_nil_iff.mp hnil
          rfl
      · next d ds hcons =>
          have hd : ¬(d = '+' || d = '-') = true := by
            cases digits with
            | nil =>
                have := hsign rfl rfl d (by rw [← List.nil_append cs, hcons]; rfl)
                simp [this]
            | cons d' digits =>
                cases hcons
                have hdigit : isDigit d = true := he.digits d (by simp)
                intro h
                have h : d = '+' ∨ d = '-' := by simpa using h
                rcases h with rfl | rfl <;> cases hdigit
          rw [if_neg hd, htake, hdrop]

/-- A numeral is read again before every text that does not lengthen it. -/
theorem Numeral.read_append {n : Numeral} (hn : n.IsWritten) {cs : List Char}
    (hcs : n.EndsAt cs) : Numeral.read (n.text ++ cs) = (n, cs) := by
  obtain ⟨whole, fraction, exponent⟩ := n
  have hexponent : Exponent.read ((exponent.map Exponent.text).getD [] ++ cs) = (exponent, cs) := by
    cases exponent with
    | some e => exact Exponent.read_append (hn.exponent e rfl) hcs.digit (hcs.sign e rfl)
    | none => exact Exponent.read_none (hcs.mark rfl)
  -- what follows the digits starts with an exponent mark, or is not part of the numeral
  have hhead : ∀ c ∈ ((exponent.map Exponent.text).getD [] ++ cs).head?, isDigit c = false := by
    cases exponent with
    | some e =>
        rintro c ⟨⟩
        rcases (hn.exponent e rfl).mark with hmark | hmark <;> rw [hmark] <;> rfl
    | none => exact hcs.digit
  have hpoint : fraction = none →
      ∀ c ∈ ((exponent.map Exponent.text).getD [] ++ cs).head?, decide (c = '.') = false := by
    intro hf
    cases exponent with
    | some e =>
        rintro c ⟨⟩
        rcases (hn.exponent e rfl).mark with hmark | hmark <;> rw [hmark] <;> rfl
    | none => exact hcs.point hf rfl
  have hfraction : readFraction ((fraction.map ('.' :: ·)).getD [] ++
      ((exponent.map Exponent.text).getD [] ++ cs)) =
        (fraction, (exponent.map Exponent.text).getD [] ++ cs) := by
    cases fraction with
    | some ds =>
        obtain ⟨htake, hdrop⟩ := span_append (hn.fraction ds rfl) hhead
        show readFraction ('.' :: (ds ++ _)) = _
        rw [readFraction, htake, hdrop]
    | none => exact readFraction_none (hpoint rfl)
  have hwhole : ∀ c ∈ ((fraction.map ('.' :: ·)).getD [] ++
      ((exponent.map Exponent.text).getD [] ++ cs)).head?, isDigit c = false := by
    cases fraction with
    | some ds =>
        rintro c ⟨⟩
        rfl
    | none => exact hhead
  obtain ⟨htake, hdrop⟩ := span_append hn.whole hwhole
  simp only [Numeral.text, Numeral.read, List.append_assoc]
  rw [htake, hdrop, hfraction, hexponent]

theorem Exponent.read_ends (cs : List Char) :
    (∀ e ∈ (Exponent.read cs).1, (∀ c ∈ (Exponent.read cs).2.head?, isDigit c = false) ∧
      (e.sign = none → e.digits = [] →
        ∀ c ∈ (Exponent.read cs).2.head?, (c = '+' || c = '-') = false)) ∧
    ((Exponent.read cs).1 = none → (Exponent.read cs).2 = cs ∧
      ∀ c ∈ cs.head?, (c = 'e' || c = 'E') = false) := by
  unfold Exponent.read
  split
  · simp
  · next c cs =>
      by_cases hmark : (c = 'e' || c = 'E') = true
      · rw [if_pos hmark]
        split
        · simp
        · next s ds =>
            by_cases hsign : (s = '+' || s = '-') = true
            · rw [if_pos hsign]
              refine ⟨?_, by simp⟩
              rintro e ⟨⟩
              exact ⟨head_dropWhile ds, by simp⟩
            · rw [if_neg hsign]
              refine ⟨?_, by simp⟩
              rintro e ⟨⟩
              refine ⟨head_dropWhile (s :: ds), fun _ hdigits => ?_⟩
              have hs : isDigit s = false := by
                by_cases hs : isDigit s = true
                · simp [hs] at hdigits
                · simpa using hs
              rw [List.dropWhile_cons_of_neg (by simp [hs])]
              rintro c ⟨⟩
              simpa using hsign
      · rw [if_neg hmark]
        refine ⟨by simp, fun _ => ⟨rfl, ?_⟩⟩
        rintro d ⟨⟩
        simpa using hmark

theorem Numeral.readFraction_ends (cs : List Char) :
    (∀ ds ∈ (readFraction cs).1, ∀ c ∈ (readFraction cs).2.head?, isDigit c = false) ∧
    ((readFraction cs).1 = none → (readFraction cs).2 = cs ∧
      ∀ c ∈ cs.head?, decide (c = '.') = false) := by
  unfold readFraction
  split
  · next ds => exact ⟨fun _ _ => head_dropWhile ds, by simp⟩
  · next hne =>
      refine ⟨by simp, fun _ => ⟨rfl, ?_⟩⟩
      intro c hc
      cases cs with
      | nil => cases hc
      | cons d ds =>
          cases hc
          have : c ≠ '.' := by
            rintro rfl
            exact hne ds rfl
          simpa using this

/-- A numeral is read as far as it goes. -/
theorem Numeral.read_endsAt (cs : List Char) :
    (Numeral.read cs).1.EndsAt (Numeral.read cs).2 := by
  have hwhole : ∀ c ∈ (cs.dropWhile isDigit).head?, isDigit c = false := head_dropWhile cs
  obtain ⟨hfraction, hnoFraction⟩ := readFraction_ends (cs.dropWhile isDigit)
  obtain ⟨hexponent, hnoExponent⟩ :=
    Exponent.read_ends (readFraction (cs.dropWhile isDigit)).2
  -- without an exponent the numeral ends where its fraction does, without a fraction where its
  -- digits do
  have hdigit : ∀ c ∈ (readFraction (cs.dropWhile isDigit)).2.head?, isDigit c = false := by
    cases hf : (readFraction (cs.dropWhile isDigit)).1 with
    | some ds => exact hfraction ds hf
    | none => rw [(hnoFraction hf).1]; exact hwhole
  simp only [Numeral.read]
  constructor
  · cases he : (Exponent.read (readFraction (cs.dropWhile isDigit)).2).1 with
    | some e => exact (hexponent e he).1
    | none => rw [(hnoExponent he).1]; exact hdigit
  · intro hf he
    rw [(hnoExponent he).1, (hnoFraction hf).1]
    exact (hnoFraction hf).2
  · intro he
    rw [(hnoExponent he).1]
    exact (hnoExponent he).2
  · intro e he
    exact (hexponent e he).2

end Number

end XPath
