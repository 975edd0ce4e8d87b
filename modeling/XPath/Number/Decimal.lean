import XPath.Number.Digits

/-!
# Decimal numbers

A decimal is an integer mantissa below 2^96 divided by a power of ten up to 10^28. The digits
after the point are kept as written, zeros at the end too, as long as they fit; the first
digit that does not fit rounds the number, and the digits after it count for nothing.
-/

namespace XPath.Number

/-- The number `mantissa / 10 ^ scale`. -/
structure Decimal where
  mantissa : Nat
  scale : Nat
deriving DecidableEq, Repr

namespace Decimal

/-- Mantissas stay below this bound. -/
def mantissaBound : Nat := twoTo 96

/-- The most digits kept after the point. -/
def maxScale : Nat := 28

/-- Reads the digits before the point into a mantissa, unless it grows too large. -/
def readWhole? : Nat → List Char → Option Nat
  | m, [] => some m
  | m, d :: ds =>
    let m' := 10 * m + digitValue d
    if m' < mantissaBound then readWhole? m' ds else none

/-- Rounds a mantissa by the first digit that is not kept, upward from five on. A mantissa that
grows too large gives up its last digit, if that stands after the point. -/
def round? (m scale : Nat) (d : Char) : Option Decimal :=
  if digitValue d < 5 then some ⟨m, scale⟩
  else if m + 1 < mantissaBound then some ⟨m + 1, scale⟩
  else if scale = 0 then none
  else some ⟨(m + 5) / 10, scale - 1⟩

/-- Reads the digits after the point for as long as they fit. -/
def readFraction? : Nat → Nat → List Char → Option Decimal
  | m, scale, [] => some ⟨m, scale⟩
  | m, scale, d :: ds =>
    let m' := 10 * m + digitValue d
    if scale < maxScale ∧ m' < mantissaBound then readFraction? m' (scale + 1) ds
    else round? m scale d

/-- The decimal with these digits before and after the point. -/
def ofDigits? (whole fraction : List Char) : Option Decimal :=
  match readWhole? 0 whole with
  | some m => readFraction? m 0 fraction
  | none => none

/-- As many digits after the point as the scale says, and at least one before it. -/
def render (x : Decimal) : String :=
  let digits := digitsOf x.mantissa
  let padded := List.replicate (x.scale + 1 - digits.length) '0' ++ digits
  let whole := padded.take (padded.length - x.scale)
  if x.scale = 0 then String.ofList whole
  else String.ofList (whole ++ '.' :: padded.drop (padded.length - x.scale))

/-- Two decimals are the same number, however many zeros they are written with. -/
def sameNumber (x y : Decimal) : Bool :=
  x.mantissa * tenTo y.scale = y.mantissa * tenTo x.scale

end Decimal

end XPath.Number
