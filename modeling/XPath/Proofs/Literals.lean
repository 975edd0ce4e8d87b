import XPath.Proofs.Numerals
import XPath.Proofs.Operands

/-!
# Literals as text

A literal is written so that it can be read again: a number as a numeral that stands for it
(`Literal.exists_numeral`), and a name as a value by the text of its two parts, which means the
same name wherever the qualifiers are the same. This needs that an integer is below its bound,
a larger one has no leading zeros, and so on; what has been read is of this form
(`isFormed_ofNumber?`, `isFormed_qnameLiteral`).
-/

namespace XPath

open Parse

/-- The text of a name as a value. -/
def qnameText (qualifier : Option String) (name : ExpandedName) : String :=
  match qualifier with
  | some q => q ++ ":" ++ name.localName
  | none => name.localName

/-- A literal as it is read. -/
def Literal.IsFormed (host : Resolver) : Literal → Prop
  | integer n => n < integerBound
  | bigInteger digits => (∀ d ∈ digits.toList, Number.isDigit d = true) ∧
      digits.toList.head? ≠ some '0' ∧ integerBound ≤ Number.ofDigits digits.toList
  | decimal x => x.mantissa < Number.Decimal.mantissaBound ∧ x.scale ≤ Number.Decimal.maxScale
  | qname qualifier name =>
      qnameLiteral host (qnameText qualifier name) = .ok (qname qualifier name)
  | double _ | string _ | boolean _ | emptySequence => True

/-! ### Digits -/

namespace Number

theorem isDigit_of_mem_digitsOf {n : Nat} {c : Char} (h : c ∈ digitsOf n) : isDigit c = true :=
  Nat.isDigit_of_mem_toDigits (by decide) (by decide) h

/-- Digits that are written for a number are read as that number. -/
theorem ofDigits_digitsOf (n : Nat) : ofDigits (digitsOf n) = n :=
  Nat.ofDigitChars_ten_toDigits

/-- The number that further digits make of one. -/
def moreDigits (n : Nat) (digits : List Char) : Nat :=
  digits.foldl (fun n c => 10 * n + digitValue c) n

theorem moreDigits_append (n : Nat) (ds es : List Char) :
    moreDigits n (ds ++ es) = moreDigits (moreDigits n ds) es :=
  List.foldl_append

theorem le_moreDigits (n : Nat) (ds : List Char) : n ≤ moreDigits n ds := by
  induction ds generalizing n with
  | nil => exact Nat.le_refl n
  | cons d ds ih =>
      have := ih (10 * n + digitValue d)
      show n ≤ moreDigits (10 * n + digitValue d) ds
      omega

/-- Leading zeros count for nothing. -/
theorem ofDigits_zeros (n : Nat) (ds : List Char) :
    ofDigits (List.replicate n '0' ++ ds) = ofDigits ds := by
  induction n with
  | zero => rfl
  | succ n ih => exact ih

theorem ofDigits_dropWhile_zero (ds : List Char) :
    ofDigits (ds.dropWhile (· = '0')) = ofDigits ds := by
  induction ds with
  | nil => rfl
  | cons d ds ih =>
      by_cases hd : d = '0'
      · subst hd
        exact ih
      · rw [List.dropWhile_cons_of_neg (by simpa using hd)]

namespace Decimal

theorem readWhole?_lt {m n : Nat} {ds : List Char} (hm : m < mantissaBound)
    (h : readWhole? m ds = some n) : n < mantissaBound := by
  induction ds generalizing m with
  | nil =>
      cases h
      exact hm
  | cons d ds ih =>
      rw [readWhole?] at h
      split at h
      · next hlt => exact ih hlt h
      · cases h

/-- Rounding leaves a number within the bounds, or gives none. -/
theorem round?_bounds {m scale : Nat} {d : Char} {x : Decimal} (hm : m < mantissaBound)
    (hscale : scale ≤ maxScale) (h : round? m scale d = some x) :
    x.mantissa < mantissaBound ∧ x.scale ≤ maxScale := by
  unfold round? at h
  split at h
  · cases h
    exact ⟨hm, hscale⟩
  · split at h
    · next hlt =>
        cases h
        exact ⟨hlt, hscale⟩
    · split at h
      · cases h
      · cases h
        constructor
        · show (m + 5) / 10 < mantissaBound
          omega
        · show scale - 1 ≤ maxScale
          omega

theorem readFraction?_bounds {m scale : Nat} {ds : List Char} {x : Decimal}
    (hm : m < mantissaBound) (hscale : scale ≤ maxScale)
    (h : readFraction? m scale ds = some x) :
    x.mantissa < mantissaBound ∧ x.scale ≤ maxScale := by
  induction ds generalizing m scale with
  | nil =>
      cases h
      exact ⟨hm, hscale⟩
  | cons d ds ih =>
      rw [readFraction?] at h
      split at h
      · next hlt => exact ih hlt.2 hlt.1 h
      · exact round?_bounds hm hscale h

theorem ofDigits?_bounds {whole fraction : List Char} {x : Decimal}
    (h : ofDigits? whole fraction = some x) :
    x.mantissa < mantissaBound ∧ x.scale ≤ maxScale := by
  unfold ofDigits? at h
  split at h
  · next m hm =>
    exact readFraction?_bounds (readWhole?_lt (Nat.two_pow_pos 96) hm) (Nat.zero_le _) h
  · cases h

/-- Digits are read as long as the number that they make is below the bound. -/
theorem readWhole?_eq {m : Nat} {ds : List Char} (h : moreDigits m ds < mantissaBound) :
    readWhole? m ds = some (moreDigits m ds) := by
  induction ds generalizing m with
  | nil => rfl
  | cons d ds ih =>
      have hlt := Nat.lt_of_le_of_lt (le_moreDigits (10 * m + digitValue d) ds) h
      rw [readWhole?, if_pos hlt]
      exact ih h

theorem readFraction?_eq {m scale : Nat} {ds : List Char} (h : moreDigits m ds < mantissaBound)
    (hscale : scale + ds.length ≤ maxScale) :
    readFraction? m scale ds = some ⟨moreDigits m ds, scale + ds.length⟩ := by
  induction ds generalizing m scale with
  | nil => rfl
  | cons d ds ih =>
      have hlt := Nat.lt_of_le_of_lt (le_moreDigits (10 * m + digitValue d) ds) h
      rw [List.length_cons] at hscale
      rw [readFraction?, if_pos ⟨by omega, hlt⟩, ih h (by omega), List.length_cons]
      have hlength : scale + 1 + ds.length = scale + (ds.length + 1) := by omega
      rw [hlength]
      rfl

/-- A decimal with digits after the point is written with so many of them, and read again. -/
theorem exists_digits {x : Decimal} (hbound : x.mantissa < mantissaBound)
    (hscale : x.scale ≤ maxScale) (hpoint : x.scale ≠ 0) :
    ∃ whole fraction, x.render = String.ofList (whole ++ '.' :: fraction) ∧
      whole ≠ [] ∧ fraction ≠ [] ∧ (∀ d ∈ whole ++ fraction, isDigit d = true) ∧
      ofDigits? whole fraction = some x := by
  let padded := List.replicate (x.scale + 1 - (digitsOf x.mantissa).length) '0' ++
    digitsOf x.mantissa
  have hlength : x.scale + 1 ≤ padded.length := by
    rw [List.length_append, List.length_replicate]
    omega
  have hdigits : ∀ d ∈ padded, isDigit d = true := by
    intro d hd
    rcases List.mem_append.mp hd with hd | hd
    · rw [List.eq_of_mem_replicate hd]
      rfl
    · exact isDigit_of_mem_digitsOf hd
  have hvalue : moreDigits 0 padded = x.mantissa :=
    (ofDigits_zeros _ _).trans (ofDigits_digitsOf _)
  let whole := padded.take (padded.length - x.scale)
  let fraction := padded.drop (padded.length - x.scale)
  have hsplit : whole ++ fraction = padded := List.take_append_drop _ _
  have hfraction : fraction.length = x.scale := by
    rw [List.length_drop]
    omega
  have hwhole : whole.length = padded.length - x.scale := by
    rw [List.length_take]
    omega
  have hmantissa : moreDigits (moreDigits 0 whole) fraction = x.mantissa := by
    rw [← moreDigits_append, hsplit, hvalue]
  refine ⟨whole, fraction, ?_, ?_, ?_, ?_, ?_⟩
  · unfold render
    dsimp only
    rw [if_neg hpoint]
  · rw [← List.length_pos_iff]
    omega
  · rw [← List.length_pos_iff]
    omega
  · rw [hsplit]
    exact hdigits
  · have hlt : moreDigits 0 whole < mantissaBound := by
      have := le_moreDigits (moreDigits 0 whole) fraction
      omega
    unfold ofDigits?
    rw [readWhole?_eq hlt]
    dsimp only
    rw [readFraction?_eq (by rw [hmantissa]; exact hbound) (by omega), hmantissa, hfraction,
      Nat.zero_add]

end Decimal

end Number

/-! ### Numbers -/

/-- A number that is read is formed. -/
theorem isFormed_ofNumber? {host : Resolver} {text : String} {value : Literal}
    (h : Literal.ofNumber? text = some value) : value.IsFormed host := by
  have hwhole : ∀ d ∈ (Number.Numeral.read text.toList).1.whole, Number.isDigit d = true :=
    mem_takeWhile
  unfold Literal.ofNumber? Literal.ofNumeral? at h
  split at h
  · obtain ⟨x, -, rfl⟩ := Option.map_eq_some_iff.mp h
    trivial
  · obtain ⟨x, hx, rfl⟩ := Option.map_eq_some_iff.mp h
    exact Number.Decimal.ofDigits?_bounds hx
  · cases h
    generalize (Number.Numeral.read text.toList).1.whole = ds at hwhole
    unfold Literal.ofInteger
    dsimp only
    split
    · next hlt => exact hlt
    · next hge =>
        refine ⟨?_, ?_, ?_⟩
        · rw [String.toList_ofList]
          exact fun d hd => hwhole d ((List.dropWhile_sublist _).subset hd)
        · rw [String.toList_ofList]
          intro hzero
          have := head_dropWhile (p := fun c => decide (c = '0')) ds '0' hzero
          simp at this
        · rw [String.toList_ofList, Number.ofDigits_dropWhile_zero]
          exact Nat.le_of_not_lt hge

namespace Literal

/-- A number with digits after the point, if it has a point. -/
inductive IsNumber : Literal → Prop
  | integer (n : Nat) : IsNumber (integer n)
  | bigInteger (digits : String) : IsNumber (bigInteger digits)
  | decimal {x : Number.Decimal} : x.scale ≠ 0 → IsNumber (decimal x)

/-- A number is written as a numeral that stands for it. -/
theorem exists_numeral {host : Resolver} {value : Literal} (h : value.IsFormed host)
    (hnumber : value.IsNumber) :
    ∃ n : Number.Numeral, n.IsWritten ∧ n.whole ≠ [] ∧ n.exponent = none ∧
      value.render = String.ofList n.text ∧ ofNumeral? n = some value := by
  have hinteger : ∀ digits : List Char, (∀ d ∈ digits, Number.isDigit d = true) → digits ≠ [] →
      (⟨digits, none, none⟩ : Number.Numeral).IsWritten := by
    intro digits hdigits hne
    exact ⟨hdigits, by simp, by simp, .inl hne⟩
  cases hnumber with
  | integer n =>
      have hne : Number.digitsOf n ≠ [] := Nat.toDigits_ne_nil
      refine ⟨⟨Number.digitsOf n, none, none⟩,
        hinteger _ (fun d hd => Number.isDigit_of_mem_digitsOf hd) hne, hne, rfl, ?_, ?_⟩
      · simp [render, Number.Numeral.text]
      · have hlt : n < integerBound := h
        simp [ofNumeral?, ofInteger, Number.ofDigits_digitsOf, hlt]
  | bigInteger digits =>
      obtain ⟨hdigits, hzero, hbound⟩ := h
      have hne : digits.toList ≠ [] := by
        intro hnil
        rw [hnil] at hbound
        exact absurd hbound (by decide)
      have hdrop : digits.toList.dropWhile (· = '0') = digits.toList := by
        cases hchars : digits.toList with
        | nil => rfl
        | cons d ds =>
            rw [hchars] at hzero
            refine List.dropWhile_cons_of_neg ?_
            simpa using hzero
      refine ⟨⟨digits.toList, none, none⟩, hinteger _ hdigits hne, hne, rfl, ?_, ?_⟩
      · simp [render, Number.Numeral.text]
      · show some (ofInteger digits.toList) = _
        unfold ofInteger
        dsimp only
        rw [if_neg (Nat.not_lt.mpr hbound), hdrop, String.ofList_toList]
  | @decimal x hpoint =>
      obtain ⟨whole, fraction, hrender, hwhole, hfraction, hdigits, hread⟩ :=
        Number.Decimal.exists_digits h.1 h.2 hpoint
      refine ⟨⟨whole, some fraction, none⟩, ⟨fun d hd => hdigits d (List.mem_append_left _ hd),
        ?_, by simp, .inl hwhole⟩, hwhole, rfl, ?_, ?_⟩
      · rintro ds ⟨⟩ d hd
        exact hdigits d (List.mem_append_right _ hd)
      · simp [render, hrender, Number.Numeral.text]
      · simp [ofNumeral?, hfraction, hread]

end Literal

/-! ### Names -/

namespace Parse

/-- A lexical name has one or two parts, which are names without colons. -/
theorem parse?_spec {s : String} {n : LexicalQName} (h : LexicalQName.parse? s = some n) :
    isNCName n.localName.toList = true ∧
      (n.qualifier = "" ∧ s = n.localName ∨
        isNCName n.qualifier.toList = true ∧ s = n.qualifier ++ ":" ++ n.localName) := by
  unfold LexicalQName.parse? at h
  dsimp only at h
  split at h
  · split at h
    · next hname =>
        cases h
        exact ⟨hname, .inl ⟨rfl, rfl⟩⟩
    · cases h
  · next c tail hdrop =>
      split at h
      · next hnames =>
          cases h
          rw [Bool.and_eq_true] at hnames
          refine ⟨by rw [String.toList_ofList]; exact hnames.2, .inr ⟨?_, ?_⟩⟩
          · rw [String.toList_ofList]
            exact hnames.1
          · have hcolon : c = ':' := by
              have := List.head?_dropWhile_not (fun d => decide (d ≠ ':')) s.toList
              rw [hdrop] at this
              simpa using this
            subst hcolon
            apply String.toList_injective
            have hsplit := List.takeWhile_append_dropWhile (p := fun d => decide (d ≠ ':'))
              (l := s.toList)
            rw [hdrop] at hsplit
            simpa using hsplit.symm
      · cases h

theorem parse?_unqualified {s : String} (h : isNCName s.toList = true) :
    LexicalQName.parse? s = some ⟨"", s⟩ := by
  have hword := parse?_word ⟨s.toList, h⟩
  rw [String.ofList_toList] at hword
  exact hword

theorem parse?_qualified {q l : String} (hq : isNCName q.toList = true)
    (hl : isNCName l.toList = true) : LexicalQName.parse? (q ++ ":" ++ l) = some ⟨q, l⟩ := by
  have hcolon : ∀ c ∈ q.toList, decide (c ≠ ':') = true := fun c hc =>
    decide_eq_true (isNameChar_ne ((isNCName_spec hq).2 c hc) rfl)
  have htext : (q ++ ":" ++ l).toList = q.toList ++ ':' :: l.toList := by simp
  have hdrop : (q.toList ++ ':' :: l.toList).dropWhile (fun c => decide (c ≠ ':')) =
      ':' :: l.toList := by
    rw [List.dropWhile_append_of_pos hcolon]
    rfl
  have htake : (q.toList ++ ':' :: l.toList).takeWhile (fun c => decide (c ≠ ':')) =
      q.toList := by
    rw [List.takeWhile_append_of_pos hcolon]
    simp
  unfold LexicalQName.parse?
  rw [htext, hdrop, htake]
  simp [hq, hl]

theorem trimBlanks_of_none {s : String} (h : ∀ c ∈ s.toList, Text.isBlank c = false) :
    Text.trimBlanks s = s := by
  have hdrop : ∀ cs : List Char, (∀ c ∈ cs, Text.isBlank c = false) →
      cs.dropWhile Text.isBlank = cs := by
    intro cs hcs
    cases cs with
    | nil => rfl
    | cons c cs => rw [List.dropWhile_cons_of_neg (by simp [hcs c List.mem_cons_self])]
  unfold Text.trimBlanks
  rw [hdrop _ h, hdrop _ fun c hc => h c (List.mem_reverse.mp hc), List.reverse_reverse,
    String.ofList_toList]

theorem isBlank_of_isNameChar {c : Char} (h : isNameChar c = true) : Text.isBlank c = false := by
  simp [Text.isBlank, isNameChar_ne h (d := ' ') rfl, isNameChar_ne h (d := '\t') rfl,
    isNameChar_ne h (d := '\n') rfl, isNameChar_ne h (d := '\r') rfl]


/-! ### Names as values -/

/-- A name as a value means the same when it is written again. -/
theorem isFormed_qnameLiteral {host : Resolver} {text : String} {value : Literal}
    (h : qnameLiteral host text = .ok value) : value.IsFormed host := by
  unfold qnameLiteral at h
  dsimp only at h
  split at h
  · cases h
  · next n hparse =>
      obtain ⟨hlocal, hparts⟩ := parse?_spec hparse
      have hlocalBlank : ∀ c ∈ n.localName.toList, Text.isBlank c = false := fun c hc =>
        isBlank_of_isNameChar ((isNCName_spec hlocal).2 c hc)
      split at h
      · cases h
        show qnameLiteral host n.localName = _
        unfold qnameLiteral
        dsimp only
        rw [trimBlanks_of_none hlocalBlank, parse?_unqualified hlocal]
        rfl
      · next hqualifier =>
          obtain ⟨hq, -⟩ := hparts.resolve_left fun hnone => hqualifier hnone.1
          split at h
          · next uri huri =>
              cases h
              show qnameLiteral host (n.qualifier ++ ":" ++ n.localName) = _
              have hblank : ∀ c ∈ (n.qualifier ++ ":" ++ n.localName).toList,
                  Text.isBlank c = false := by
                intro c hc
                simp only [String.toList_append, List.mem_append] at hc
                rcases hc with (hc | hc) | hc
                · exact isBlank_of_isNameChar ((isNCName_spec hq).2 c hc)
                · obtain rfl : c = ':' := by simpa using hc
                  rfl
                · exact hlocalBlank c hc
              unfold qnameLiteral
              dsimp only
              rw [trimBlanks_of_none hblank, parse?_qualified hq hlocal]
              dsimp only
              rw [if_neg hqualifier, huri]
          · cases h

end Parse

end XPath
