import XPath.Number.Digits

/-!
# Doubles

The doubles that a literal without a sign can stand for: `significand * 2 ^ exponent` with a
significand of at most 53 bits, or infinity. `ofScientific` rounds a decimal number to the
nearest double, to the even one of two that are equally near; `render` writes the fewest
digits from which that double can be read back.
-/

namespace XPath.Number

/-- A double that is not negative. The significand of a finite one has its 53rd bit set unless
the exponent is the least there is. -/
inductive Double
  | finite (significand : Nat) (exponent : Int)
  | infinity
deriving DecidableEq, Repr

namespace Double

/-- The least exponent of two. -/
def minExponent : Int := -1074

/-- The greatest exponent of two of a finite double. -/
def maxExponent : Int := 971

/-- The quotient rounded to the nearest integer, to the even one of two that are equally near. -/
def divRound (n d : Nat) : Nat :=
  let q := n / d
  let twice := 2 * (n % d)
  if twice < d ∨ twice = d ∧ q % 2 = 0 then q else q + 1

/-- The quotient of `n` and `d * 2 ^ e`, rounded. -/
def significandAt (n d : Nat) (e : Int) : Nat :=
  if 0 ≤ e then divRound n (d * twoTo e.toNat) else divRound (n * twoTo (-e).toNat) d

/-- The exponent that leaves 53 bits before the point in the quotient of `n` and `d`. -/
def exponentOf (n d : Nat) : Int :=
  let guess : Int := (n.log2 : Int) - (d.log2 : Int) - 52
  let fits := if 0 ≤ guess then d * twoTo guess.toNat * twoTo 52 ≤ n
    else d * twoTo 52 ≤ n * twoTo (-guess).toNat
  max minExponent (if fits then guess else guess - 1)

/-- The double nearest to the quotient of `n` and `d`. -/
def ofRatio (n d : Nat) : Double :=
  let e := exponentOf n d
  let s := significandAt n d e
  let (s, e) := if s = twoTo 53 then (twoTo 52, e + 1) else (s, e)
  if e ≤ maxExponent then finite s e else infinity

/-- The double nearest to `digits * 10 ^ power`. A number from 10^310 on is out of range and one
below 10^-330 rounds to zero, so that no power beyond these is ever computed. -/
def ofScientific (digits : List Char) (power : Int) : Double :=
  let significant := digits.dropWhile (· = '0')
  let n := ofDigits significant
  let magnitude : Int := significant.length + power
  if n = 0 ∨ magnitude < -330 then finite 0 minExponent
  else if 310 < magnitude then infinity
  else if 0 ≤ power then ofRatio (n * tenTo power.toNat) 1
  else ofRatio n (tenTo (-power).toNat)

/-- The 64 bits of the double: the sign, the exponent with its offset, and the significand
without the bit that is always set. -/
def bits : Double → Nat
  | infinity => 0x7ff * twoTo 52
  | finite s e =>
    if s < twoTo 52 then s else (e - minExponent + 1).toNat * twoTo 52 + (s - twoTo 52)

/-! ### The fewest digits -/

/-- The numbers that round to a double, as a range around it over one denominator. -/
structure Interval where
  low : Nat
  value : Nat
  high : Nat
  denominator : Nat
  /-- The two ends round to the double as well. -/
  closed : Bool

/-- Half way to the neighbours on both sides. The lower neighbour of a power of two is nearer.
An end rounds to the double when the significand is even. -/
def interval (s : Nat) (e : Int) : Interval :=
  let below := if s = twoTo 52 ∧ minExponent < e then 1 else 2
  let (scale, denominator) := if 0 ≤ e then (twoTo e.toNat, 4) else (1, 4 * twoTo (-e).toNat)
  { low := (4 * s - below) * scale
    value := 4 * s * scale
    high := (4 * s + 2) * scale
    denominator
    closed := s % 2 = 0 }

/-- The fraction `n / d` lies in the interval. -/
def Interval.contains (i : Interval) (n d : Nat) : Bool :=
  let low := i.low * d
  let mid := n * i.denominator
  let high := i.high * d
  if i.closed then low ≤ mid && mid ≤ high else low < mid && mid < high

/-- The power of ten as a fraction. -/
def tenPower (power : Int) : Nat × Nat :=
  if 0 ≤ power then (tenTo power.toNat, 1) else (1, tenTo (-power).toNat)

/-- The multiple of `10 ^ power` that lies in the interval, of two the nearer one and of two
that are equally near the larger. -/
def Interval.onGrid? (i : Interval) (power : Int) : Option Nat :=
  let (p, q) := tenPower power
  let unit := p * i.denominator
  let j := i.value * q / unit
  let rest := i.value * q % unit
  let lower := i.contains (j * p) q
  let upper := i.contains ((j + 1) * p) q
  if lower && upper then some (if 2 * rest < unit then j else j + 1)
  else if lower then some j
  else if upper then some (j + 1)
  else none

/-- Seventeen digits are always enough. -/
def maxDigits : Nat := 17

/-- Looks for the coarsest grid of a power of ten that has a point in the interval, from
`power` downward. -/
def Interval.coarsest (i : Interval) : Nat → Int → Nat × Int
  | 0, power => ((i.onGrid? power).getD 0, power)
  | n + 1, power =>
    match i.onGrid? power with
    | some j => (j, power)
    | none => i.coarsest n (power - 1)

/-- The power of ten of the first digit of `n / d`. -/
def leadingPower (n d : Nat) : Int :=
  if d ≤ n then ((digitsOf (n / d)).length : Int) - 1
  else
    let places := (digitsOf (d / n)).length
    if d ≤ n * tenTo (places - 1) then 1 - (places : Int) else -(places : Int)

/-- Shortest digits and the power of ten of the last of them. -/
def shortest (s : Nat) (e : Int) : Nat × Int :=
  let i := interval s e
  i.coarsest maxDigits (leadingPower i.value i.denominator)

/-- One digit, then the others after a point, then the power of ten of the first. -/
def renderScientific (digits : List Char) (power : Int) : String :=
  let kept := (digits.reverse.dropWhile (· = '0')).reverse
  let exponent := power + digits.length - 1
  let exponentText :=
    (if exponent < 0 then ['-'] else []) ++ digitsOf exponent.natAbs
  let mantissa := match kept with
    | [] => ['0']
    | [d] => [d]
    | d :: ds => d :: '.' :: ds
  String.ofList (mantissa ++ 'e' :: exponentText)

/-- The fewest digits that read back, in scientific form without a plus sign. -/
def render : Double → String
  | infinity => "inf"
  | finite s e =>
    if s = 0 then "0e0"
    else
      let (n, power) := shortest s e
      renderScientific (digitsOf n) power

end Double

end XPath.Number
