import XPath.Number.Numeral
import XPath.Types.Item

/-!
# Literals

The values that an expression spells out.
-/

namespace XPath

/-- A value that is known when the expression is read. -/
inductive Literal
  /-- an integer of at most 63 bits -/
  | integer (value : Nat)
  /-- a larger integer, as its digits -/
  | bigInteger (digits : String)
  | decimal (value : Number.Decimal)
  | double (value : Number.Double)
  | string (value : String)
  | boolean (value : Bool)
  /-- a name as a value, with the qualifier it was written with -/
  | qname (qualifier : Option String) (name : ExpandedName)
  | emptySequence
deriving DecidableEq, Repr

namespace Literal

/-- Integers from here on are large. -/
def integerBound : Nat := Number.twoTo 63

/-- The integer with these digits. Leading zeros are dropped. -/
def ofInteger (digits : List Char) : Literal :=
  let n := Number.ofDigits digits
  if n < integerBound then integer n
  else bigInteger (String.ofList (digits.dropWhile (· = '0')))

/-- The number that a numeral stands for: a double if it has an exponent, else a decimal if it
has a point, else an integer. A point without digits on one side has a zero there. -/
def ofNumeral? (n : Number.Numeral) : Option Literal :=
  match n.exponent, n.fraction with
  | some e, _ => (n.double? e).map double
  | none, some fraction =>
    let fraction := if fraction = [] then ['0'] else fraction
    (Number.Decimal.ofDigits? n.whole fraction).map decimal
  | none, none => some (ofInteger n.whole)

/-- The number that is written as `text`. -/
def ofNumber? (text : String) : Option Literal :=
  ofNumeral? (Number.Numeral.read text.toList).1

/-- The type of the value. -/
def itemType : Literal → ItemType
  | integer _ | bigInteger _ => .atomic .integer
  | decimal _ => .atomic .decimal
  | double _ => .atomic .double
  | string _ => .atomic .string
  | boolean _ => .atomic .boolean
  | qname _ _ => .atomic .qname
  | emptySequence => .empty

/-- A string in double quotes, with its own double quotes written twice. -/
def renderString (s : String) : String :=
  "\"" ++ String.ofList (s.toList.flatMap fun c => if c = '"' then ['"', '"'] else [c]) ++ "\""

/-- The value as an expression that has it. -/
def render : Literal → String
  | integer n => String.ofList (Number.digitsOf n)
  | bigInteger digits => digits
  | decimal x => x.render
  | double x => x.render
  | string s => renderString s
  | boolean b => if b then "true()" else "false()"
  | qname qualifier name =>
    let lexical := match qualifier with
      | some q => q ++ ":" ++ name.localName
      | none => name.localName
    "xs:QName(" ++ renderString lexical ++ ")"
  | emptySequence => "()"

/-- Two literals are the same value. Decimals are compared as numbers, whatever zeros they end
in. -/
def same : Literal → Literal → Bool
  | decimal x, decimal y => x.sameNumber y
  | a, b => a = b

end Literal

end XPath
