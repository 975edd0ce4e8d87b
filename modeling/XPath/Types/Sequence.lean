import XPath.Types.Item

/-!
# Sequence types

An item type and how many items of it there may be.
-/

namespace XPath

/-- How many items a value has. -/
inductive Occurrence
  | exactlyOne
  | zeroOrOne
  | zeroOrMore
  | oneOrMore
  /-- none, as in the type of the empty sequence -/
  | empty
deriving DecidableEq, Repr

/-- The mark after an item type. -/
def Occurrence.indicator : Occurrence → String
  | exactlyOne | empty => ""
  | zeroOrOne => "?"
  | zeroOrMore => "*"
  | oneOrMore => "+"

/-- A type of values. -/
structure SequenceType where
  item : ItemType
  occurrence : Occurrence
deriving DecidableEq, Repr

namespace SequenceType

/-- Exactly one item, of any type: all that is known of a range variable before its sequence
has been read. -/
def singleItem : SequenceType :=
  ⟨.anyItem, .exactlyOne⟩

/-- Every value. -/
def anySequence : SequenceType :=
  ⟨.anyItem, .zeroOrMore⟩

/-- The empty sequence. -/
def empty : SequenceType :=
  ⟨.empty, .empty⟩

/-- The type as it is written. -/
def render (t : SequenceType) : String :=
  t.item.render ++ t.occurrence.indicator

end SequenceType

end XPath
