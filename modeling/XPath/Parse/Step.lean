import XPath.Parse.Type

/-!
# Node tests and axis steps

A step names an axis and a test. Without an axis it looks at children, or at attributes when the
test is one for attributes, and a bare test for documents at the start of a pattern looks at
the context node itself.
-/

namespace XPath.Parse

variable (σ : Setting)

/-- A test may start with this token. -/
def startsTest : Token → Bool
  | .name | .namespaceWildcard | .localWildcard | .star | .nodeKind => true
  | _ => false

/-- A name, a wildcard or a kind test. Names and wildcards select nodes of the kind given. -/
def nodeTest (kind : NodeKind) : Parse NodeTest := do
  match ← token with
  | .name => do
    let name ← expandName σ (← value) (kind = .element)
    advance σ
    return .name kind name
  | .namespaceWildcard => do
    let uri ← declaredNamespace σ (← value)
    advance σ
    return .inNamespace kind (if uri = "" then none else some uri)
  | .localWildcard => do
    advance σ
    let localName ← value
    expect σ .name
    if !isNCName localName.toList then reject σ (.malformedLocalName localName)
    advance σ
    return .localName kind localName
  | .star => do
    advance σ
    return .kind kind
  | .nodeKind => kindTest σ
  | _ => reject σ .nodeTest

/-- The axis of a step that names none. -/
def impliedAxis (t : Token) (word : String) (startsPattern : Bool) : Axis :=
  if t = .nodeKind then
    if word = "attribute" ∨ word = "schema-attribute" then .attribute
    else if word = "document-node" ∧ startsPattern then .self
    else .child
  else .child

/-- A step without an axis. -/
def bareStep (startsPattern : Bool) : Parse Expr := do
  let start ← offset
  let axis := impliedAxis (← token) (← value) startsPattern
  return .axisStep start axis (← nodeTest σ .element)

/-- A step along the attribute axis, from its mark on. -/
def attributeStep : Parse Expr := do
  let start ← offset
  advance σ
  if !startsTest (← token) then reject σ .attributeTest
  return .axisStep start .attribute (← nodeTest σ .attribute)

/-- A step from the name of its axis on. -/
def axisStep : Parse Expr := do
  let start ← offset
  let name ← value
  match Axis.ofName? name with
  | none => reject σ (.unknownAxis name)
  | some axis => do
    advance σ
    if !startsTest (← token) then reject σ (.axisTest (← found))
    return .axisStep start axis (← nodeTest σ axis.principalKind)

end XPath.Parse
