import XPath.Name

/-!
# Atomic types

The built-in atomic types of XML Schema 1.0, with the type above all of them and the type of
values without a type. Numeric types are ordered by promotion, integers first, and `promote`
is the larger of two in that order.
-/

namespace XPath

/-- A built-in atomic type. -/
inductive AtomicType
  | anyAtomicType
  | untypedAtomic
  | string
  | normalizedString
  | token
  | language
  | nmtoken
  | name
  | ncname
  | id
  | idref
  | entity
  | boolean
  | decimal
  | integer
  | nonPositiveInteger
  | negativeInteger
  | long
  | int
  | short
  | byte
  | nonNegativeInteger
  | unsignedLong
  | unsignedInt
  | unsignedShort
  | unsignedByte
  | positiveInteger
  | float
  | double
  | duration
  | dayTimeDuration
  | yearMonthDuration
  | dateTime
  | date
  | time
  | gYearMonth
  | gYear
  | gMonthDay
  | gDay
  | gMonth
  | hexBinary
  | base64Binary
  | anyURI
  | qname
  | notationName
deriving DecidableEq, Repr

namespace AtomicType

/-- Every atomic type once. -/
def all : List AtomicType :=
  [anyAtomicType, untypedAtomic, string, normalizedString, token, language, nmtoken, name,
    ncname, id, idref, entity, boolean, decimal, integer, nonPositiveInteger, negativeInteger,
    long, int, short, byte, nonNegativeInteger, unsignedLong, unsignedInt, unsignedShort,
    unsignedByte, positiveInteger, float, double, duration, dayTimeDuration, yearMonthDuration,
    dateTime, date, time, gYearMonth, gYear, gMonthDay, gDay, gMonth, hexBinary, base64Binary,
    anyURI, qname, notationName]

/-- The name of the type in the schema namespace. -/
def localName : AtomicType → String
  | anyAtomicType => "anyAtomicType"
  | untypedAtomic => "untypedAtomic"
  | string => "string"
  | normalizedString => "normalizedString"
  | token => "token"
  | language => "language"
  | nmtoken => "NMTOKEN"
  | name => "Name"
  | ncname => "NCName"
  | id => "ID"
  | idref => "IDREF"
  | entity => "ENTITY"
  | boolean => "boolean"
  | decimal => "decimal"
  | integer => "integer"
  | nonPositiveInteger => "nonPositiveInteger"
  | negativeInteger => "negativeInteger"
  | long => "long"
  | int => "int"
  | short => "short"
  | byte => "byte"
  | nonNegativeInteger => "nonNegativeInteger"
  | unsignedLong => "unsignedLong"
  | unsignedInt => "unsignedInt"
  | unsignedShort => "unsignedShort"
  | unsignedByte => "unsignedByte"
  | positiveInteger => "positiveInteger"
  | float => "float"
  | double => "double"
  | duration => "duration"
  | dayTimeDuration => "dayTimeDuration"
  | yearMonthDuration => "yearMonthDuration"
  | dateTime => "dateTime"
  | date => "date"
  | time => "time"
  | gYearMonth => "gYearMonth"
  | gYear => "gYear"
  | gMonthDay => "gMonthDay"
  | gDay => "gDay"
  | gMonth => "gMonth"
  | hexBinary => "hexBinary"
  | base64Binary => "base64Binary"
  | anyURI => "anyURI"
  | qname => "QName"
  | notationName => "NOTATION"

/-- The type of this name in the schema namespace. -/
def ofLocalName? (s : String) : Option AtomicType :=
  all.find? (·.localName = s)

/-- The name of the type. -/
def expandedName (t : AtomicType) : ExpandedName :=
  ⟨Namespace.schema, t.localName⟩

/-- The name with its conventional qualifier. -/
def render (t : AtomicType) : String :=
  "xs:" ++ t.localName

/-- A type without values of its own, so that nothing can be cast to it. -/
def isAbstract (t : AtomicType) : Bool :=
  t = anyAtomicType || t = notationName

/-! ### Numeric promotion -/

/-- The place of a numeric type in the order integer, decimal, float, double. The types derived
from integer stand with it. -/
def numericRank : AtomicType → Option Nat
  | integer | nonPositiveInteger | negativeInteger | long | int | short | byte
  | nonNegativeInteger | unsignedLong | unsignedInt | unsignedShort | unsignedByte
  | positiveInteger => some 0
  | decimal => some 1
  | float => some 2
  | double => some 3
  | _ => none

/-- The type that stands for a place in that order. -/
def ofNumericRank : Nat → AtomicType
  | 0 => integer
  | 1 => decimal
  | 2 => float
  | _ => double

/-- A type of numbers. -/
def isNumeric (t : AtomicType) : Bool :=
  t.numericRank.isSome

/-- The type of a sum, difference or product of two numbers. -/
def promote (s t : AtomicType) : Option AtomicType :=
  match s.numericRank, t.numericRank with
  | some a, some b => some (ofNumericRank (max a b))
  | _, _ => none

end AtomicType

end XPath
