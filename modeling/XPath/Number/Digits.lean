/-!
# Digit strings

A run of decimal digits and the number it stands for.
-/

namespace XPath.Number

/-- One of the ten ASCII digits. -/
def isDigit (c : Char) : Bool :=
  c.isDigit

/-- What a digit stands for. -/
def digitValue (c : Char) : Nat :=
  c.toNat - '0'.toNat

/-- The number a run of digits stands for. -/
def ofDigits (digits : List Char) : Nat :=
  digits.foldl (fun n c => 10 * n + digitValue c) 0

/-- The digits of a number, `0` alone for zero. -/
def digitsOf (n : Nat) : List Char :=
  Nat.toDigits 10 n

/-- A power of two. -/
def twoTo (n : Nat) : Nat :=
  Nat.pow 2 n

/-- A power of ten. -/
def tenTo (n : Nat) : Nat :=
  Nat.pow 10 n

@[simp] theorem ofDigits_nil : ofDigits [] = 0 := rfl

theorem ofDigits_append_singleton (ds : List Char) (d : Char) :
    ofDigits (ds ++ [d]) = 10 * ofDigits ds + digitValue d := by
  simp [ofDigits]

end XPath.Number
