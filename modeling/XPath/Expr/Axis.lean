import XPath.Types.Node

/-!
# Axes

The directions in which a step looks for nodes.
-/

namespace XPath

/-- A direction from a node to others. -/
inductive Axis
  | child
  | descendant
  | attribute
  | self
  | descendantOrSelf
  | followingSibling
  | following
  | namespaces
  | parent
  | ancestor
  | precedingSibling
  | preceding
  | ancestorOrSelf
deriving DecidableEq, Repr

namespace Axis

/-- Every axis once. -/
def all : List Axis :=
  [child, descendant, .attribute, self, descendantOrSelf, followingSibling, following,
    namespaces, parent, ancestor, precedingSibling, preceding, ancestorOrSelf]

/-- The axis as it is written before two colons. -/
def name : Axis → String
  | child => "child"
  | descendant => "descendant"
  | .attribute => "attribute"
  | self => "self"
  | descendantOrSelf => "descendant-or-self"
  | followingSibling => "following-sibling"
  | following => "following"
  | namespaces => "namespace"
  | parent => "parent"
  | ancestor => "ancestor"
  | precedingSibling => "preceding-sibling"
  | preceding => "preceding"
  | ancestorOrSelf => "ancestor-or-self"

/-- The axis of this name. -/
def ofName? (s : String) : Option Axis :=
  all.find? (·.name = s)

/-- The axis delivers its nodes against the order of the document. A parent is one node, so
that its order needs no correction. -/
def isReverse : Axis → Bool
  | ancestor | ancestorOrSelf | preceding | precedingSibling => true
  | _ => false

/-- The kind of nodes that a bare name selects on the axis. -/
def principalKind : Axis → NodeKind
  | .attribute => .attribute
  | namespaces => .namespaceNode
  | _ => .element

end Axis

end XPath
