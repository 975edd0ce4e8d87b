import XPath.Number.Decimal
import XPath.Number.Double

/-!
# Numerals

How a number is written: digits, then perhaps a point with further digits, then perhaps an
exponent. `Numeral.read` takes the longest numeral at the head of a text. An exponent mark
without digits belongs to the numeral, which then stands for no number.
-/

namespace XPath.Number

/-- An exponent as written. -/
structure Exponent where
  mark : Char
  sign : Option Char
  digits : List Char
deriving DecidableEq, Repr

namespace Exponent

/-- The exponent at the head of a text, and the text after it. -/
def read : List Char → Option Exponent × List Char
  | [] => (none, [])
  | c :: cs =>
    if c = 'e' || c = 'E' then
      match cs with
      | [] => (some ⟨c, none, []⟩, [])
      | s :: ds =>
        if s = '+' || s = '-' then
          (some ⟨c, some s, ds.takeWhile isDigit⟩, ds.dropWhile isDigit)
        else (some ⟨c, none, cs.takeWhile isDigit⟩, cs.dropWhile isDigit)
    else (none, c :: cs)

/-- The exponent as it was written. -/
def text (e : Exponent) : List Char :=
  e.mark :: (e.sign.toList ++ e.digits)

/-- The power of ten that the exponent stands for. -/
def value (e : Exponent) : Int :=
  if e.sign = some '-' then -(ofDigits e.digits : Int) else ofDigits e.digits

end Exponent

/-- A number as written. -/
structure Numeral where
  whole : List Char
  /-- The digits after the point, if there is a point. -/
  fraction : Option (List Char)
  exponent : Option Exponent
deriving DecidableEq, Repr

namespace Numeral

/-- The point and the digits after it at the head of a text, and the text after them. -/
def readFraction : List Char → Option (List Char) × List Char
  | '.' :: cs => (some (cs.takeWhile isDigit), cs.dropWhile isDigit)
  | cs => (none, cs)

/-- The longest numeral at the head of a text, and the text after it. -/
def read (cs : List Char) : Numeral × List Char :=
  let (fraction, rest) := readFraction (cs.dropWhile isDigit)
  let (exponent, rest) := Exponent.read rest
  (⟨cs.takeWhile isDigit, fraction, exponent⟩, rest)

/-- The numeral as it was written. -/
def text (n : Numeral) : List Char :=
  n.whole ++ (n.fraction.map ('.' :: ·)).getD [] ++ (n.exponent.map Exponent.text).getD []

/-- The number that a numeral with an exponent stands for, if the exponent has digits. -/
def double? (n : Numeral) (e : Exponent) : Option Double :=
  let fraction := n.fraction.getD []
  if e.digits = [] then none
  else some (.ofScientific (n.whole ++ fraction) (e.value - fraction.length))

end Numeral

end XPath.Number
