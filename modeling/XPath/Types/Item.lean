import XPath.Types.Node

/-!
# Item types

The type of the single items of a value. `commonSupertype` joins the types of two parts of a
value, the branches of a conditional or the items of a sequence.
-/

namespace XPath

/-- A type of items. -/
inductive ItemType
  /-- every item -/
  | anyItem
  /-- no item at all: the type of the empty sequence -/
  | empty
  | atomic (type : AtomicType)
  | node (test : NodeTest)
deriving DecidableEq, Repr

namespace ItemType

/-- The least type offered for the items of either of two types. Numbers are promoted, other
atomic types meet in the type above all of them, and nodes meet in their kind if they share
one. -/
def commonSupertype (a b : ItemType) : ItemType :=
  if a = b then a
  else match a, b with
    | empty, x => x
    | x, empty => x
    | atomic s, atomic t => atomic ((s.promote t).getD .anyAtomicType)
    | node s, node t =>
      match s.nodeKind?, t.nodeKind? with
      | some j, some k => if j = k then node (.kind j) else node .anyNode
      | _, _ => node .anyNode
    | _, _ => anyItem

/-- The type as it is written. A name stands in the parentheses of its kind. -/
def render : ItemType → String
  | anyItem => "item()"
  | empty => "empty-sequence()"
  | atomic t => t.render
  | node (.name .element n) => "element(" ++ n.render ++ ")"
  | node (.name .attribute n) => "attribute(" ++ n.render ++ ")"
  | node test => test.render

end ItemType

end XPath
