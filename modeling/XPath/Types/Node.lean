import XPath.Types.Schema

/-!
# Node tests

What a step selects on its axis: nodes of a kind, of a name, of a namespace, of a content
type, or of several of these at once.
-/

namespace XPath

/-- The seven kinds of nodes. -/
inductive NodeKind
  | document
  | element
  | attribute
  | text
  | comment
  | processingInstruction
  | namespaceNode
deriving DecidableEq, Repr

/-- The word that starts the test for nodes of a kind. -/
def NodeKind.keyword : NodeKind → String
  | .document => "document-node"
  | .element => "element"
  | .attribute => "attribute"
  | .text => "text"
  | .comment => "comment"
  | .processingInstruction => "processing-instruction"
  | .namespaceNode => "namespace-node"

/-- A condition on nodes. -/
inductive NodeTest
  /-- every node -/
  | anyNode
  /-- the nodes of a kind -/
  | kind (kind : NodeKind)
  /-- the nodes of a kind and name -/
  | name (kind : NodeKind) (name : ExpandedName)
  /-- the nodes of a kind whose name is in a namespace, or in none -/
  | inNamespace (kind : NodeKind) (uri? : Option String)
  /-- the nodes of a kind with a local name, in any namespace -/
  | localName (kind : NodeKind) (localName : String)
  /-- the documents whose only element passes a test -/
  | document (inner : NodeTest)
  /-- the nodes of a kind whose content has a type; a nillable element may have none -/
  | content (kind : NodeKind) (type : SchemaType) (nillable : Bool)
  /-- the nodes that pass both of two tests -/
  | both (left right : NodeTest)
deriving DecidableEq, Repr

namespace NodeTest

/-- The kind of all nodes that pass, where the test fixes one. -/
def nodeKind? : NodeTest → Option NodeKind
  | anyNode => none
  | kind k | name k _ | inNamespace k _ | localName k _ | content k _ _ => some k
  | document _ => some .document
  | both left _ => left.nodeKind?

/-- A content type as it is written after a comma. -/
def renderContent (type : SchemaType) (nillable : Bool) : String :=
  type.name.render ++ if nillable then "?" else ""

/-- The test as it is written. Elements and attributes of a name are written as the bare name,
since the axis gives the kind. -/
def render : NodeTest → String
  | anyNode => "node()"
  | kind k => k.keyword ++ "()"
  | name .element n | name .attribute n => n.render
  | name k n => k.keyword ++ "(" ++ n.render ++ ")"
  | inNamespace _ uri? => "Q\x7b" ++ uri?.getD "" ++ "\x7d*"
  | localName _ l => "*:" ++ l
  | document (name .element n) => "document-node(element(" ++ n.render ++ "))"
  | document inner => "document-node(" ++ inner.render ++ ")"
  | content k type nillable => k.keyword ++ "(*, " ++ renderContent type nillable ++ ")"
  | both (name _ n) (content k type nillable) =>
    k.keyword ++ "(" ++ n.render ++ ", " ++ renderContent type nillable ++ ")"
  | both _ (content k type nillable) => k.keyword ++ "(*, " ++ renderContent type nillable ++ ")"
  | both left right => "(" ++ left.render ++ " intersect " ++ right.render ++ ")"

end NodeTest

end XPath
