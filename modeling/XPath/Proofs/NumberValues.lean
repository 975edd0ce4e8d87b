import Mathlib.Algebra.Order.Round
import Mathlib.Data.Rat.Floor
import Mathlib.Tactic.FieldSimp
import Mathlib.Tactic.Linarith
import Mathlib.Tactic.Positivity
import Mathlib.Tactic.Ring
import XPath.Proofs.Alone

/-!
# What number literals mean

A numeral stands for a rational number (`Numeral.value`), and the literal that is read from it is
that number as far as its type can hold it. Integers are exact, with canonical digits from 2^63
on. Decimals are exact as long as all digits fit, and else within half a unit of the last place
that is kept; what is too large for a decimal without any place is rejected, and so is an exponent
without digits.
-/

namespace XPath

open Parse

namespace Number

/-- The number that a numeral stands for: its digits as a whole number, moved to their places. -/
def Numeral.value (n : Numeral) : ℚ :=
  ofDigits (n.whole ++ n.fraction.getD []) *
    (10 : ℚ) ^ ((n.exponent.map Exponent.value).getD 0 - ((n.fraction.getD []).length : ℤ))

/-! ### Digits -/

theorem digitValue_le {d : Char} (h : isDigit d = true) : digitValue d ≤ 9 := by
  have hrange : 48 ≤ d.toNat ∧ d.toNat ≤ 57 := by
    simpa [isDigit, Char.isDigit, UInt32.le_iff_toNat_le] using h
  show d.toNat - 48 ≤ 9
  omega

/-- A digit is the only one with its value. -/
theorem digitsOf_digitValue {d : Char} (h : isDigit d = true) : digitsOf (digitValue d) = [d] := by
  have hrange : 48 ≤ d.toNat ∧ d.toNat ≤ 57 := by
    simpa [isDigit, Char.isDigit, UInt32.le_iff_toNat_le] using h
  have hchars : ∀ k < 10, Nat.digitChar k = Char.ofNat (48 + k) := by decide
  have hsum : 48 + digitValue d = d.toNat := by
    show 48 + (d.toNat - 48) = _
    omega
  have hle := digitValue_le h
  rw [digitsOf, Nat.toDigits_of_lt_base (by omega), hchars _ (by omega), hsum, Char.ofNat_toNat]

theorem moreDigits_eq (n : ℕ) (ds : List Char) :
    moreDigits n ds = 10 ^ ds.length * n + ofDigits ds :=
  Nat.ofDigitChars_eq_ofDigitChars_zero

theorem ofDigits_cons (d : Char) (ds : List Char) :
    ofDigits (d :: ds) = 10 ^ ds.length * digitValue d + ofDigits ds := by
  rw [← moreDigits_eq]
  show moreDigits (10 * 0 + digitValue d) ds = _
  rw [Nat.mul_zero, Nat.zero_add]

theorem ofDigits_append (ds es : List Char) :
    ofDigits (ds ++ es) = moreDigits (ofDigits ds) es :=
  moreDigits_append 0 ds es

theorem ofDigits_lt {ds : List Char} (h : ∀ d ∈ ds, isDigit d = true) :
    ofDigits ds < 10 ^ ds.length := by
  induction ds with
  | nil => exact Nat.one_pos
  | cons d ds ih =>
      have hd := Nat.mul_le_mul_left (10 ^ ds.length) (digitValue_le (h d List.mem_cons_self))
      have hds := ih fun e he => h e (List.mem_cons_of_mem _ he)
      rw [ofDigits_cons, List.length_cons, Nat.pow_succ]
      omega

/-- Further digits of a number that is not zero are its further digits as text. -/
theorem digitsOf_moreDigits {n : ℕ} (hn : 0 < n) {ds : List Char}
    (h : ∀ d ∈ ds, isDigit d = true) : digitsOf (moreDigits n ds) = digitsOf n ++ ds := by
  induction ds generalizing n with
  | nil => exact (List.append_nil _).symm
  | cons d ds ih =>
      have hd := h d List.mem_cons_self
      have hlt : digitValue d < 10 := Nat.lt_succ_of_le (digitValue_le hd)
      have hstep : digitsOf (10 * n + digitValue d) = digitsOf n ++ [d] := by
        rw [← digitsOf_digitValue hd]
        exact (Nat.toDigits_append_toDigits (by decide) hn hlt).symm
      show digitsOf (moreDigits (10 * n + digitValue d) ds) = _
      rw [ih (by omega) fun e he => h e (List.mem_cons_of_mem _ he), hstep]
      simp

/-- Without its leading zeros a row of digits is written as its number is. -/
theorem dropWhile_zero_eq {ds : List Char} (h : ∀ d ∈ ds, isDigit d = true)
    (hpos : 0 < ofDigits ds) : ds.dropWhile (· = '0') = digitsOf (ofDigits ds) := by
  induction ds with
  | nil => exact absurd hpos (Nat.lt_irrefl 0)
  | cons d ds ih =>
      have hds : ∀ e ∈ ds, isDigit e = true := fun e he => h e (List.mem_cons_of_mem _ he)
      by_cases hzero : d = '0'
      · subst hzero
        exact ih hds hpos
      · -- From the first other digit on nothing is dropped, so the rest needs no induction.
        have hd := h d List.mem_cons_self
        have hvalue : 0 < digitValue d := by
          rw [Nat.pos_iff_ne_zero]
          intro hnull
          have := digitsOf_digitValue hd
          rw [hnull] at this
          exact hzero (List.head_eq_of_cons_eq this).symm
        have hmore : ofDigits (d :: ds) = moreDigits (digitValue d) ds := by
          rw [ofDigits_cons, moreDigits_eq]
        rw [List.dropWhile_cons_of_neg (by simpa using hzero), hmore,
          digitsOf_moreDigits hvalue hds, digitsOf_digitValue hd]
        rfl

/-! ### Decimals -/

namespace Decimal

theorem readWhole?_some {m n : ℕ} {ds : List Char} (h : readWhole? m ds = some n) :
    n = moreDigits m ds := by
  induction ds generalizing m with
  | nil => exact (Option.some.inj h).symm
  | cons d ds ih =>
      rw [readWhole?] at h
      split at h
      · exact ih h
      · cases h

theorem readWhole?_eq_none_iff {m : ℕ} {ds : List Char} (hm : m < mantissaBound) :
    readWhole? m ds = none ↔ mantissaBound ≤ moreDigits m ds := by
  constructor
  · intro h
    by_contra hlt
    rw [readWhole?_eq (Nat.lt_of_not_le hlt)] at h
    cases h
  · intro h
    cases hread : readWhole? m ds with
    | none => rfl
    | some n =>
        have hlt := readWhole?_lt hm hread
        rw [readWhole?_some hread] at hlt
        exact absurd h (Nat.not_le.mpr hlt)

/-- With a place behind the point there is always one that can be given up. -/
theorem readFraction?_ne_none {m scale : ℕ} {ds : List Char} (h : scale ≠ 0) :
    readFraction? m scale ds ≠ none := by
  induction ds generalizing m scale with
  | nil => simp [readFraction?]
  | cons d ds ih =>
      rw [readFraction?]
      split
      · exact ih (Nat.succ_ne_zero scale)
      · unfold round?
        split
        · simp
        · split <;> simp

theorem readFraction?_eq_none_iff {m : ℕ} {d : Char} {ds : List Char} (hm : m < mantissaBound) :
    readFraction? m 0 (d :: ds) = none ↔ m + 1 = mantissaBound ∧ 5 ≤ digitValue d := by
  rw [readFraction?]
  split
  · next hfits =>
      have hlt := hfits.2
      refine iff_of_false (readFraction?_ne_none (Nat.succ_ne_zero 0)) ?_
      rintro ⟨heq, -⟩
      have : 1 < mantissaBound := by decide
      omega
  · unfold round?
    split
    · next hdown => exact iff_of_false (by simp) fun h => absurd h.2 (Nat.not_le.mpr hdown)
    · next hup =>
        split
        · next hlt => exact iff_of_false (by simp) fun h => absurd h.1 (Nat.ne_of_lt hlt)
        · next hge => exact iff_of_true (if_pos rfl) ⟨by omega, Nat.le_of_not_lt hup⟩

/-- The decimal is `n / 10 ^ places` but for half a unit of its last place, in whole numbers. -/
def Rounds (x : Decimal) (n places : ℕ) : Prop :=
  ∃ k, places = x.scale + k ∧ 2 * (10 ^ k * x.mantissa) ≤ 2 * n + 10 ^ k ∧
    2 * n ≤ 2 * (10 ^ k * x.mantissa) + 10 ^ k

theorem Rounds.of_kept {x : Decimal} {n places k kept : ℕ} (hplaces : places = x.scale + k)
    (hkept : 10 ^ k * x.mantissa = kept) (hlow : 2 * kept ≤ 2 * n + 10 ^ k)
    (hhigh : 2 * n ≤ 2 * kept + 10 ^ k) : x.Rounds n places :=
  ⟨k, hplaces, hkept.symm ▸ hlow, hkept.symm ▸ hhigh⟩

/-- The greatest mantissa ends in a five, so that nothing is lost with its last digit once that has
been rounded. -/
theorem ten_mul_greatest {m : ℕ} (hm : m + 1 = mantissaBound) : 10 * ((m + 5) / 10) = m + 5 := by
  have hbound : mantissaBound = 79228162514264337593543950336 := by decide
  omega

/-- The first digit that is not kept tells on which side of the middle the others are. -/
theorem round?_rounds {m scale : ℕ} {d : Char} {ds : List Char} {x : Decimal}
    (hm : m < mantissaBound) (hd : isDigit d = true) (hds : ∀ e ∈ ds, isDigit e = true)
    (h : round? m scale d = some x) :
    x.Rounds (moreDigits m (d :: ds)) (scale + (d :: ds).length) := by
  have hnine := Nat.mul_le_mul_left (10 ^ ds.length) (digitValue_le hd)
  have hrest := ofDigits_lt hds
  have hvalue : moreDigits m (d :: ds) =
      10 * (10 ^ ds.length * m) + 10 ^ ds.length * digitValue d + ofDigits ds := by
    rw [moreDigits_eq, ofDigits_cons, List.length_cons]
    ring
  rw [hvalue, List.length_cons]
  unfold round? at h
  split at h
  · next hdown =>
      cases h
      have hfour := Nat.mul_le_mul_left (10 ^ ds.length) (Nat.le_of_lt_succ hdown)
      have hkept : 10 ^ (ds.length + 1) * m = 10 * (10 ^ ds.length * m) := by ring
      exact .of_kept rfl hkept (by omega) (by omega)
  · next hup =>
      have hfive := Nat.mul_le_mul_left (10 ^ ds.length) (Nat.le_of_not_lt hup)
      split at h
      · cases h
        have hkept : 10 ^ (ds.length + 1) * (m + 1) =
            10 * (10 ^ ds.length * m) + 10 * 10 ^ ds.length := by ring
        exact .of_kept rfl hkept (by omega) (by omega)
      · next hfull =>
          split at h
          · cases h
          · next hscale =>
              -- One up would reach the bound, so the last digit kept so far is given up as well,
              -- and what is kept is compared with `k` one larger.
              cases h
              have hten := ten_mul_greatest (m := m) (by omega)
              have hkept : 10 ^ (ds.length + 2) * ((m + 5) / 10) =
                  10 * (10 ^ ds.length * m) + 50 * 10 ^ ds.length := by
                calc 10 ^ (ds.length + 2) * ((m + 5) / 10)
                    = 10 ^ ds.length * 10 * (10 * ((m + 5) / 10)) := by ring
                  _ = 10 ^ ds.length * 10 * (m + 5) := by rw [hten]
                  _ = 10 * (10 ^ ds.length * m) + 50 * 10 ^ ds.length := by ring
              have hplaces : scale + (ds.length + 1) = scale - 1 + (ds.length + 2) := by omega
              have hunits : 10 ^ (ds.length + 2) = 10 * (10 * 10 ^ ds.length) := by ring
              exact .of_kept hplaces hkept (by omega) (by omega)

theorem readFraction?_rounds {m scale : ℕ} {ds : List Char} {x : Decimal}
    (hm : m < mantissaBound) (hds : ∀ d ∈ ds, isDigit d = true)
    (h : readFraction? m scale ds = some x) :
    x.Rounds (moreDigits m ds) (scale + ds.length) := by
  induction ds generalizing m scale with
  | nil =>
      cases h
      refine ⟨0, rfl, ?_, ?_⟩ <;> show 2 * _ ≤ 2 * _ + 1 <;> simp [moreDigits]
  | cons d ds ih =>
      rw [readFraction?] at h
      split at h
      · next hfits =>
          have := ih hfits.2 (fun e he => hds e (List.mem_cons_of_mem _ he)) h
          rwa [List.length_cons, Nat.add_comm ds.length, ← Nat.add_assoc]
      · exact round?_rounds hm (hds d List.mem_cons_self)
          (fun e he => hds e (List.mem_cons_of_mem _ he)) h

/-- Half a unit of the last place, as a fraction. -/
theorem Rounds.abs_sub_le {x : Decimal} {n places : ℕ} (h : x.Rounds n places) :
    |(x.mantissa : ℚ) / 10 ^ x.scale - n / 10 ^ places| ≤ 1 / 10 ^ x.scale / 2 := by
  obtain ⟨k, rfl, hlow, hhigh⟩ := h
  have hlow' : 2 * ((10 : ℚ) ^ k * x.mantissa) ≤ 2 * n + 10 ^ k := by exact_mod_cast hlow
  have hhigh' : 2 * (n : ℚ) ≤ 2 * (10 ^ k * x.mantissa) + 10 ^ k := by exact_mod_cast hhigh
  have hk : (0 : ℚ) < 10 ^ k := by positivity
  have hs : (0 : ℚ) < 10 ^ x.scale := by positivity
  have hdiff : (x.mantissa : ℚ) / 10 ^ x.scale - n / 10 ^ (x.scale + k) =
      (10 ^ k * x.mantissa - n) / 10 ^ k / 10 ^ x.scale := by
    rw [pow_add]
    field_simp
  have hnear : |10 ^ k * (x.mantissa : ℚ) - n| ≤ 10 ^ k / 2 :=
    abs_le.mpr ⟨by linarith, by linarith⟩
  rw [hdiff, abs_div, abs_of_pos hs, div_right_comm]
  refine div_le_div_of_nonneg_right ?_ hs.le
  rw [abs_div, abs_of_pos hk, div_le_div_iff₀ hk two_pos]
  linarith

/-- A decimal is rejected when its whole part is too large, or when that is the greatest mantissa
and is rounded up by the first digit behind the point. -/
theorem ofDigits?_eq_none_iff {whole ds : List Char} {d : Char} :
    ofDigits? whole (d :: ds) = none ↔
      mantissaBound ≤ ofDigits whole ∨ ofDigits whole + 1 = mantissaBound ∧ 5 ≤ digitValue d := by
  have hzero : 0 < mantissaBound := by decide
  unfold ofDigits?
  cases hread : readWhole? 0 whole with
  | none => exact iff_of_true rfl (.inl ((readWhole?_eq_none_iff hzero).mp hread))
  | some m =>
      obtain rfl : m = ofDigits whole := readWhole?_some hread
      have hlt := readWhole?_lt hzero hread
      rw [or_iff_right (Nat.not_le.mpr hlt)]
      exact readFraction?_eq_none_iff hlt

theorem ofDigits?_rounds {whole fraction : List Char} {x : Decimal}
    (hfraction : ∀ d ∈ fraction, isDigit d = true) (h : ofDigits? whole fraction = some x) :
    x.Rounds (ofDigits (whole ++ fraction)) fraction.length := by
  unfold ofDigits? at h
  split at h
  · next m hread =>
      have hrounds := readFraction?_rounds (readWhole?_lt (by decide) hread) hfraction h
      rwa [readWhole?_some hread, Nat.zero_add, ← moreDigits_append] at hrounds
  · cases h

theorem ofDigits?_eq {whole fraction : List Char} (hlength : fraction.length ≤ maxScale)
    (hlt : ofDigits (whole ++ fraction) < mantissaBound) :
    ofDigits? whole fraction = some ⟨ofDigits (whole ++ fraction), fraction.length⟩ := by
  have hmore : moreDigits (ofDigits whole) fraction = ofDigits (whole ++ fraction) :=
    (ofDigits_append whole fraction).symm
  have hwhole : moreDigits 0 whole < mantissaBound := by
    have := le_moreDigits (ofDigits whole) fraction
    show ofDigits whole < _
    omega
  unfold ofDigits?
  rw [readWhole?_eq hwhole]
  show readFraction? (ofDigits whole) 0 fraction = _
  rw [readFraction?_eq (by rw [hmore]; exact hlt) (by omega), hmore, Nat.zero_add]

end Decimal

/-! ### Numerals without an exponent -/

theorem Numeral.value_of_fraction {n : Numeral} {fraction : List Char} (he : n.exponent = none)
    (hf : n.fraction = some fraction) :
    n.value = ofDigits (n.whole ++ fraction) / 10 ^ fraction.length := by
  rw [value, he, hf]
  simp [zpow_neg, div_eq_mul_inv]

/-- The digits behind a point, a zero when there are none. -/
def padded (fraction : List Char) : List Char :=
  if fraction = [] then ['0'] else fraction

theorem length_padded (fraction : List Char) :
    (padded fraction).length = max 1 fraction.length := by
  unfold padded
  split
  · next h => rw [h]; rfl
  · next h =>
      have := List.length_pos_iff.mpr h
      omega

theorem exists_padded {fraction : List Char} (h : ∀ d ∈ fraction, isDigit d = true) :
    ∃ d ds, padded fraction = d :: ds ∧ ∀ e ∈ d :: ds, isDigit e = true := by
  cases fraction with
  | nil => exact ⟨'0', [], rfl, by simp; decide⟩
  | cons d ds => exact ⟨d, ds, rfl, h⟩

theorem Numeral.value_padded {n : Numeral} {fraction : List Char} (he : n.exponent = none)
    (hf : n.fraction = some fraction) :
    n.value = ofDigits (n.whole ++ padded fraction) / 10 ^ (padded fraction).length := by
  rw [value_of_fraction he hf]
  cases fraction with
  | nil =>
      show (ofDigits (n.whole ++ []) : ℚ) / 10 ^ 0 = ofDigits (n.whole ++ ['0']) / 10 ^ 1
      rw [List.append_nil, ofDigits_append_singleton, show digitValue '0' = 0 from rfl]
      push_cast
      ring
  | cons d ds => rfl

/-- The places behind the point make less than one, and half of that as their first digit says. -/
theorem fraction_bounds {d : Char} {ds : List Char} (h : ∀ e ∈ d :: ds, isDigit e = true) :
    let f : ℚ := ofDigits (d :: ds) / 10 ^ (d :: ds).length
    0 ≤ f ∧ f < 1 ∧ (1 / 2 ≤ f ↔ 5 ≤ digitValue d) := by
  have hlt := ofDigits_lt h
  have hrest := ofDigits_lt fun e he => h e (List.mem_cons_of_mem _ he)
  have hpos : (0 : ℚ) < 10 ^ (d :: ds).length := by positivity
  refine ⟨by positivity, ?_, ?_⟩
  · rw [div_lt_one hpos]
    exact_mod_cast hlt
  · rw [div_le_div_iff₀ two_pos hpos]
    have hnat : 1 * 10 ^ (d :: ds).length ≤ ofDigits (d :: ds) * 2 ↔ 5 ≤ digitValue d := by
      rw [ofDigits_cons, List.length_cons]
      constructor
      · intro hle
        by_contra hdown
        have := Nat.mul_le_mul_left (10 ^ ds.length) (Nat.le_of_lt_succ (Nat.lt_of_not_le hdown))
        omega
      · intro hup
        have := Nat.mul_le_mul_left (10 ^ ds.length) hup
        omega
    exact_mod_cast hnat

theorem Numeral.value_split {n : Numeral} {fraction : List Char} (he : n.exponent = none)
    (hf : n.fraction = some fraction) :
    n.value = ofDigits n.whole + ofDigits (padded fraction) / 10 ^ (padded fraction).length := by
  rw [value_padded he hf, ofDigits_append, moreDigits_eq]
  push_cast
  field_simp

theorem Numeral.value_of_whole {n : Numeral} (he : n.exponent = none) (hf : n.fraction = none) :
    n.value = ofDigits n.whole := by
  rw [value, he, hf]
  simp

/-! ### What is rejected -/

/-- The numeral stands for no number of its type: its exponent has no digits, or it has a point and
is too large for a decimal, or becomes too large when it is rounded to a whole number. -/
def Numeral.IsRejected (n : Numeral) : Prop :=
  match n.exponent, n.fraction with
  | some e, _ => e.digits = []
  | none, some _ => 2 ^ 96 ≤ ⌊n.value⌋ ∨ round n.value = 2 ^ 96
  | none, none => False

/-- The first digit behind the point tells whether a whole number below the bound is rounded up to
it. -/
theorem Numeral.too_large_iff {n : Numeral} {fraction : List Char} (he : n.exponent = none)
    (hf : n.fraction = some fraction) {d : Char} {ds : List Char}
    (hpadded : padded fraction = d :: ds) (hdigits : ∀ e ∈ d :: ds, isDigit e = true) :
    (2 ^ 96 ≤ ⌊n.value⌋ ∨ round n.value = 2 ^ 96) ↔
      Decimal.mantissaBound ≤ ofDigits n.whole ∨
        ofDigits n.whole + 1 = Decimal.mantissaBound ∧ 5 ≤ digitValue d := by
  have hbound : ((Decimal.mantissaBound : ℕ) : ℤ) = 2 ^ 96 := rfl
  obtain ⟨hnonneg, hlt, hhalf⟩ := fraction_bounds hdigits
  have hvalue := value_split he hf
  rw [hpadded] at hvalue
  have hfloor : ⌊n.value⌋ = (ofDigits n.whole : ℤ) := by
    rw [Int.floor_eq_iff, hvalue]
    push_cast
    constructor <;> linarith
  rw [hfloor, ← hbound, Int.ofNat_le]
  -- A whole number that is too large itself may be rounded to anything, so rounding only matters
  -- below the bound.
  refine or_congr_right' fun hsmall => ?_
  rw [round_eq, ← hhalf]
  constructor
  · intro hround
    rw [Int.floor_eq_iff, hvalue] at hround
    have hlast : ofDigits n.whole + 1 = Decimal.mantissaBound := by
      have hle : ((Decimal.mantissaBound : ℕ) : ℚ) < ofDigits n.whole + 2 := by
        have := hround.1
        push_cast at this
        linarith
      have : Decimal.mantissaBound < ofDigits n.whole + 2 := by exact_mod_cast hle
      omega
    have hcast : (ofDigits n.whole : ℚ) + 1 = (Decimal.mantissaBound : ℕ) := by exact_mod_cast hlast
    refine ⟨hlast, ?_⟩
    have := hround.1
    push_cast at this
    linarith
  · rintro ⟨hlast, hup⟩
    have hcast : (ofDigits n.whole : ℚ) + 1 = (Decimal.mantissaBound : ℕ) := by exact_mod_cast hlast
    rw [Int.floor_eq_iff, hvalue]
    push_cast
    constructor <;> linarith

theorem Numeral.ofNumeral?_eq_none_iff {n : Numeral} (hn : n.IsWritten) :
    Literal.ofNumeral? n = none ↔ n.IsRejected := by
  unfold Literal.ofNumeral? Numeral.IsRejected
  cases he : n.exponent with
  | some e =>
      dsimp only
      unfold double?
      split <;> simp_all
  | none =>
      cases hf : n.fraction with
      | none => simp
      | some fraction =>
          obtain ⟨d, ds, hpadded, hdigits⟩ := exists_padded (hn.fraction _ hf)
          dsimp only
          rw [Option.map_eq_none_iff, too_large_iff he hf hpadded hdigits]
          show Decimal.ofDigits? n.whole (padded fraction) = none ↔ _
          rw [hpadded, Decimal.ofDigits?_eq_none_iff]

/-! ### What is read -/

/-- The literal is the number that the numeral stands for. Of a double nothing is said but that
there is one. -/
inductive Numeral.StandsFor (n : Numeral) : Literal → Prop
  | integer {k : ℕ} : n.exponent = none → n.fraction = none → n.value = k → k < 2 ^ 63 →
      StandsFor n (.integer k)
  | bigInteger {k : ℕ} : n.exponent = none → n.fraction = none → n.value = k → 2 ^ 63 ≤ k →
      StandsFor n (.bigInteger (String.ofList (digitsOf k)))
  | decimal {fraction : List Char} {x : Decimal} : n.exponent = none →
      n.fraction = some fraction → x.mantissa < 2 ^ 96 → x.scale ≤ 28 →
      |(x.mantissa : ℚ) / 10 ^ x.scale - n.value| ≤ 1 / 10 ^ x.scale / 2 →
      (max 1 fraction.length ≤ 28 → n.value * 10 ^ max 1 fraction.length < 2 ^ 96 →
        x.scale = max 1 fraction.length ∧ (x.mantissa : ℚ) / 10 ^ x.scale = n.value) →
      StandsFor n (.decimal x)
  | double {e : Exponent} {x : Double} : n.exponent = some e → StandsFor n (.double x)

theorem Numeral.standsFor_ofInteger {n : Numeral} (hn : n.IsWritten) (he : n.exponent = none)
    (hf : n.fraction = none) : n.StandsFor (Literal.ofInteger n.whole) := by
  have hvalue := value_of_whole he hf
  unfold Literal.ofInteger
  dsimp only
  split
  · next hlt => exact .integer he hf hvalue hlt
  · next hge =>
      have hge : 2 ^ 63 ≤ ofDigits n.whole := Nat.le_of_not_lt hge
      rw [dropWhile_zero_eq hn.whole (by omega)]
      exact .bigInteger he hf hvalue hge

theorem Numeral.standsFor_decimal {n : Numeral} {fraction : List Char} {x : Decimal}
    (hn : n.IsWritten) (he : n.exponent = none) (hf : n.fraction = some fraction)
    (h : Decimal.ofDigits? n.whole (padded fraction) = some x) : n.StandsFor (.decimal x) := by
  obtain ⟨d, ds, hpadded, hdigits⟩ := exists_padded (hn.fraction _ hf)
  have hvalue := value_padded he hf
  obtain ⟨hmantissa, hscale⟩ := Decimal.ofDigits?_bounds h
  refine .decimal he hf hmantissa hscale ?_ fun hplaces hfits => ?_
  · rw [hvalue]
    exact (Decimal.ofDigits?_rounds (by rw [hpadded]; exact hdigits) h).abs_sub_le
  · have hpos : (10 : ℚ) ^ (padded fraction).length ≠ 0 := by positivity
    rw [← length_padded] at hplaces hfits ⊢
    rw [hvalue, div_mul_cancel₀ _ hpos] at hfits
    have hlt : ofDigits (n.whole ++ padded fraction) < 2 ^ 96 := by exact_mod_cast hfits
    rw [Decimal.ofDigits?_eq hplaces hlt] at h
    cases h
    exact ⟨rfl, hvalue.symm⟩

theorem Numeral.standsFor_ofNumeral? {n : Numeral} (hn : n.IsWritten) {value : Literal}
    (h : Literal.ofNumeral? n = some value) : n.StandsFor value := by
  unfold Literal.ofNumeral? at h
  split at h
  · next he =>
      obtain ⟨x, -, rfl⟩ := Option.map_eq_some_iff.mp h
      exact .double he
  · next fraction he hf =>
      obtain ⟨x, hx, rfl⟩ := Option.map_eq_some_iff.mp h
      exact standsFor_decimal hn he hf hx
  · next he hf =>
      cases h
      exact standsFor_ofInteger hn he hf

end Number

/-! ### Number tokens as sources -/

open Number

theorem Token.Spells.numeral {t : Token} {value : String} {text : List Char}
    (h : t.Spells value text) (ht : t = .number) :
    ∃ n : Numeral, n.IsWritten ∧ value = String.ofList n.text := by
  cases h with
  | number hn => exact ⟨_, hn, rfl⟩
  | symbol hmem =>
      have hsymbols : ∀ symbol ∈ symbols, symbol.2 ≠ .number := by decide
      exact absurd ht (hsymbols _ hmem)
  | linkWord hlink =>
      rw [ht] at hlink
      cases linkWord?_isLink hlink
  | bindingWord hbinding =>
      rw [ht] at hbinding
      cases bindingWord?_isLink hbinding
  | @call word =>
      rcases ofCallWord_cases (String.ofList word) with h | ⟨h, -⟩ | h <;> simp [h] at ht
  | _ => cases ht

theorem Cursor.numeral_of_advance {c d : Cursor} (h : c.advance = (.ok (), d))
    (ht : d.token = .number) : ∃ n : Numeral, n.IsWritten ∧ d.value = String.ofList n.text := by
  obtain ⟨gap, rest, l, -, hread, rfl⟩ := advance_ok h
  have hrest : rest ≠ [] := by
    rintro rfl
    cases hread
    cases ht
  exact (Lexeme.read_covers hrest hread).2.numeral ht

/-- A number starts with no blank and with no parenthesis. -/
theorem Number.Numeral.IsWritten.isSolid {n : Numeral} (hn : n.IsWritten) :
    Token.IsSolid n.text := by
  have hstarts := hn.startsNumber []
  rw [List.append_nil] at hstarts
  cases htext : n.text with
  | nil => rw [htext] at hstarts; cases hstarts
  | cons c cs =>
      by_cases hpoint : c = '.'
      · subst hpoint
        exact ⟨'.', cs, rfl, rfl, by decide⟩
      · have hdigit : isDigit c = true := by
          rw [htext, Lexeme.startsNumber.eq_def] at hstarts
          split at hstarts
          · next heq =>
              cases heq
              exact absurd rfl hpoint
          · next heq =>
              cases heq
              exact hstarts
          · next heq => cases heq
        exact Cursor.isSolid_of_isNameChar (Cursor.isNameChar_of_isDigit hdigit)

theorem Number.Numeral.IsWritten.read_eq {n : Numeral} (hn : n.IsWritten) :
    Numeral.read n.text = (n, []) := by
  have hends : n.EndsAt [] := by constructor <;> simp
  have hread := Numeral.read_append hn hends
  rwa [List.append_nil] at hread

/-- A numeral as a source is one number with the text of the numeral. -/
theorem Number.Numeral.IsWritten.advance {n : Numeral} (hn : n.IsWritten) :
    ∃ d, (Cursor.ofSource (String.ofList n.text) 0).advance = (.ok (), d) ∧ d.token = .number ∧
      d.value = String.ofList n.text ∧ d.rest = [] ∧ d.offset = 0 := by
  have hread : Lexeme.read .eof n.text =
      .ok ⟨.number, String.ofList n.text, n.text, []⟩ := by
    have hstarts := hn.startsNumber []
    rw [List.append_nil] at hstarts
    rw [Lexeme.read_number hstarts, Lexeme.readNumber, hn.read_eq]
  rw [ofSource_start]
  exact ⟨_, Cursor.advance_eq (Token.trivia_solid hn.isSolid) hread, rfl, rfl, rfl, rfl⟩

/-- A numeral as a source is read as the literal that it stands for, or rejected if there is
none. -/
theorem readExpression_numeral {n : Numeral} (hn : n.IsWritten) (host : Resolver)
    (warnings : List String) :
    (Literal.ofNumeral? n = none ∧ ∃ location,
      (readExpression (String.ofList n.text) host warnings).outcome =
        .error { (Fault.malformedNumber (String.ofList n.text)).error .expression with
          location := some location }) ∨
      ∃ value, Literal.ofNumeral? n = some value ∧
        (readExpression (String.ofList n.text) host warnings).outcome = .ok (.literal 0 value) := by
  obtain ⟨d, hd, htoken, hvalue, hrest, hoffset⟩ := hn.advance
  have hnumber : Literal.ofNumber? (String.ofList n.text) = Literal.ofNumeral? n := by
    rw [Literal.ofNumber?, String.toList_ofList, hn.read_eq]
  have hprimary : ∀ nested (s : ParseState), s.cursor = d →
      Leaves host (fun f => f = .malformedNumber (String.ofList n.text) ∧
        Literal.ofNumeral? n = none) (primary host.reader nested false) s fun e d =>
        (∃ value, Literal.ofNumeral? n = some value ∧ e = .literal 0 value) ∧ d.token = .eof := by
    rintro nested s rfl
    refine .token htoken (.value hvalue ?_)
    rw [hnumber]
    cases hliteral : Literal.ofNumeral? n with
    | none => exact .reject ⟨rfl, rfl⟩
    | some value =>
        obtain ⟨f, hf, hend, -⟩ := Follows.nil.next s.cursor (by rw [htoken]; rfl) hrest
        refine .offset ?_
        refine .advance hf ?_
        refine .pure ⟨f, rfl, ⟨value, rfl, ?_⟩, hend⟩
        rw [hoffset]
  rcases Leaves.readExpression_step warnings hd (by rw [htoken]; rfl) hprimary
    (fun _ _ h => h.2) with
    ⟨_, _, hread, ⟨value, hliteral, rfl⟩, -⟩ | ⟨_, location, ⟨rfl, hnone⟩, herror⟩
  · exact .inr ⟨value, hliteral, by rw [hread]; rfl⟩
  · exact .inl ⟨hnone, location, herror⟩

/-- Number literals mean what they say. Whatever text a number token has, it is a numeral; as a
source it is rejected when its exponent has no digits or when it is a decimal that is too large,
also by rounding, and else it is read as the literal that the numeral stands for. -/
theorem number_literals_mean {c d : Cursor} (hread : c.advance = (.ok (), d))
    (hnumber : d.token = .number) (host : Resolver) (warnings : List String) :
    ∃ n : Numeral, n.IsWritten ∧ d.value = String.ofList n.text ∧
      (n.IsRejected ∧ (∃ location, (readExpression d.value host warnings).outcome =
          .error { (Fault.malformedNumber d.value).error .expression with
            location := some location }) ∨
        ¬n.IsRejected ∧ ∃ value,
          (readExpression d.value host warnings).outcome = .ok (.literal 0 value) ∧
            n.StandsFor value) := by
  obtain ⟨n, hn, hvalue⟩ := Cursor.numeral_of_advance hread hnumber
  refine ⟨n, hn, hvalue, ?_⟩
  rw [hvalue, ← Numeral.ofNumeral?_eq_none_iff hn]
  rcases readExpression_numeral hn host warnings with ⟨hnone, herror⟩ | ⟨value, hsome, hok⟩
  · exact .inl ⟨hnone, herror⟩
  · exact .inr ⟨by simp [hsome], value, hok, Numeral.standsFor_ofNumeral? hn hsome⟩

/-- A decimal with padding on the left and zeros on the right, before an operator. -/
theorem number_literals_mean_of_decimal : ∃ d,
    (Cursor.ofSource "007.50 * 2" 0).advance = (.ok (), d) ∧ d.value = "007.50" ∧
      ∃ n : Numeral, n.IsWritten ∧ d.value = String.ofList n.text ∧
        (n.IsRejected ∧ (∃ location,
            (readExpression d.value (StaticContext.resolver {}) []).outcome =
            .error { (Fault.malformedNumber d.value).error .expression with
              location := some location }) ∨
          ¬n.IsRejected ∧ ∃ value,
            (readExpression d.value (StaticContext.resolver {}) []).outcome =
              .ok (.literal 0 value) ∧ n.StandsFor value) :=
  ⟨(Cursor.ofSource "007.50 * 2" 0).advance.2, by decide, by decide,
    number_literals_mean (c := Cursor.ofSource "007.50 * 2" 0) (by decide) (by decide) _ []⟩

end XPath
