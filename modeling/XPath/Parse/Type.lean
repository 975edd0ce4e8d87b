import XPath.Parse.Name

/-!
# Kind tests and sequence types

A kind test is a keyword with arguments in parentheses; the keyword and its opening parenthesis
are one token. A sequence type is an item type with an occurrence mark.
-/

namespace XPath.Parse

variable (σ : Setting)

/-! ### Kind tests -/

/-- The type after the comma in a test for elements or attributes. An element test may allow
elements without content by a question mark. -/
def contentTest (kind : NodeKind) : Parse NodeTest := do
  match ← token with
  | .star | .operator (.arithmetic .mul) => reject σ .contentStar
  | .name => do
    let lexical ← value
    let name ← expandName σ lexical true
    match σ.host.schemaType? name with
    | none => reject σ (.unknownType lexical)
    | some type => do
      if kind = .attribute && !type.isAtomic then
        warn "An attribute must have an atomic type"
      advance σ
      let nillable := kind = .element && (← token) = .questionMark
      if nillable then advance σ
      return .content kind type nillable
  | other => reject σ (.contentName other)

/-- The name or star that starts the arguments of a test for elements or attributes. -/
def testName (kind : NodeKind) (bySchema : Bool) : Parse (Option ExpandedName) := do
  match ← token with
  | .star | .operator (.arithmetic .mul) =>
    if bySchema then reject σ .schemaTestStar else return none
  | .name => return some (← expandName σ (← value) (kind = .element))
  | other => reject σ (.testName other)

/-- The arguments of a test for elements or attributes. The tests by schema declaration fail
once their name is known, since no schema is ever imported. -/
def namedTest (kind : NodeKind) (bySchema : Bool) : Parse NodeTest := do
  let lexical ← value
  let name? ← testName σ kind bySchema
  advance σ
  match ← token with
  | .rightParen => do
    advance σ
    match name? with
    | none => return .kind kind
    | some name =>
      if !bySchema then return .name kind name
      else if kind = .attribute then reject σ (.noAttributeDeclaration lexical)
      else reject σ (.noElementDeclaration lexical)
  | .comma => do
    if bySchema then reject σ .schemaTestContent
    advance σ
    let content ← contentTest σ kind
    skip σ .rightParen
    match name? with
    | none => return content
    | some name => return .both (.name kind name) content
  | _ => reject σ .testEnd

/-- A test for elements or attributes, from its keyword on. -/
def elementTest (kind : NodeKind) (bySchema : Bool) : Parse NodeTest := do
  advance σ
  if (← token) = .rightParen then do
    if bySchema then reject σ .schemaTestName
    advance σ
    return .kind kind
  else namedTest σ kind bySchema

/-- Reads past a keyword, and past the closing parenthesis if that follows at once. -/
def emptyArguments : Parse Bool := do
  advance σ
  if (← token) = .rightParen then do
    advance σ
    return true
  else return false

/-- A test that takes no arguments. -/
def plainTest (word : String) (test : NodeTest) : Parse NodeTest := do
  if ← emptyArguments σ then return test else reject σ (.noArguments word)

/-- A test for namespace nodes, where the host allows them. -/
def namespaceTest : Parse NodeTest := do
  if ← emptyArguments σ then
    if σ.host.namespaceTests then return .kind .namespaceNode else reject σ .namespaceTest
  else reject σ (.noArguments "namespace-node")

/-- A test for documents, with an element test inside or without one. -/
def documentTest : Parse NodeTest := do
  if ← emptyArguments σ then return .kind .document
  else
    let word ← value
    if (← token) = .nodeKind ∧ (word = "element" ∨ word = "schema-element") then do
      let inner ← elementTest σ .element (word = "schema-element")
      skip σ .rightParen
      return .document inner
    else reject σ .documentTest

/-- The target of a test for processing instructions, a name or a string that holds one. -/
def instructionTarget : Parse String := do
  let text ← value
  match ← token with
  | .stringLiteral =>
    let target := Text.trimBlanks text
    if isNCName target.toList then return target else reject σ .instructionString
  | .name =>
    match LexicalQName.parse? text with
    | none => reject σ (.instructionName text)
    | some n => if n.qualifier = "" then return n.localName else reject σ .instructionColon
  | _ => reject σ .instructionTarget

/-- A test for processing instructions, with a target or without one. -/
def instructionTest : Parse NodeTest := do
  if ← emptyArguments σ then return .kind .processingInstruction
  else
    let target ← instructionTarget σ
    advance σ
    skip σ .rightParen
    return .name .processingInstruction (.unqualified target)

/-- A kind test, from its keyword on. -/
def kindTest : Parse NodeTest := do
  match ← value with
  | "node" => plainTest σ "node" .anyNode
  | "text" => plainTest σ "text" (.kind .text)
  | "comment" => plainTest σ "comment" (.kind .comment)
  | "namespace-node" => namespaceTest σ
  | "document-node" => documentTest σ
  | "processing-instruction" => instructionTest σ
  | "element" => elementTest σ .element false
  | "schema-element" => elementTest σ .element true
  | "attribute" => elementTest σ .attribute false
  | "schema-attribute" => elementTest σ .attribute true
  | "item" => do
    discard (emptyArguments σ)
    reject σ (.kindTest "item")
  | word => reject σ (.kindTest word)

/-! ### Sequence types -/

/-- A type that is written like a test, without arguments. -/
def plainType (type : ItemType) : Parse ItemType := do
  advance σ
  skip σ .rightParen
  return type

/-- The type of the items of a value. -/
def itemType : Parse ItemType := do
  match ← token with
  | .name => do
    let type ← atomicType σ (← value)
    advance σ
    return .atomic type
  | .nodeKind => do
    match ← value with
    | "item" => plainType σ .anyItem
    | "empty-sequence" => plainType σ .empty
    | _ => return .node (← kindTest σ)
  | other => reject σ (.typeName other)

/-- The occurrence that a token marks after an item type. A star is a wildcard or a product,
depending on what stands before it. -/
def occurrenceMark? : Token → Option Occurrence
  | .star | .operator (.arithmetic .mul) => some .zeroOrMore
  | .operator (.arithmetic .add) => some .oneOrMore
  | .questionMark => some .zeroOrOne
  | _ => none

/-- A sequence type. The type of the empty sequence takes no mark. -/
def sequenceType : Parse SequenceType := do
  let item ← itemType σ
  if item = .empty then return .empty
  else match occurrenceMark? (← token) with
    | none => return ⟨item, .exactlyOne⟩
    | some occurrence => do
      skipMark σ
      return ⟨item, occurrence⟩

end XPath.Parse
