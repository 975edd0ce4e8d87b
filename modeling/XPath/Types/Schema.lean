import XPath.Types.Atomic

/-!
# Schema types

The types that may annotate the content of an element or attribute: the atomic ones, the
other built-in ones of XML Schema, and those that a host declares.
-/

namespace XPath

/-- A type of content. -/
inductive SchemaType
  | atomic (type : AtomicType)
  | anyType
  | anySimpleType
  | untyped
  | idrefs
  | nmtokens
  | entities
  | user (name : ExpandedName) (isAtomic : Bool)
deriving DecidableEq, Repr

namespace SchemaType

/-- The built-in type of this name in the schema namespace. -/
def builtin? (localName : String) : Option SchemaType :=
  match AtomicType.ofLocalName? localName with
  | some t => some (.atomic t)
  | none =>
    match localName with
    | "anyType" => some anyType
    | "anySimpleType" => some anySimpleType
    | "untyped" => some untyped
    | "IDREFS" => some idrefs
    | "NMTOKENS" => some nmtokens
    | "ENTITIES" => some entities
    | _ => none

/-- Its values are atomic. -/
def isAtomic : SchemaType → Bool
  | atomic _ => true
  | user _ isAtomic => isAtomic
  | _ => false

/-- The name of the type. -/
def name : SchemaType → ExpandedName
  | atomic t => t.expandedName
  | anyType => ⟨Namespace.schema, "anyType"⟩
  | anySimpleType => ⟨Namespace.schema, "anySimpleType"⟩
  | untyped => ⟨Namespace.schema, "untyped"⟩
  | idrefs => ⟨Namespace.schema, "IDREFS"⟩
  | nmtokens => ⟨Namespace.schema, "NMTOKENS"⟩
  | entities => ⟨Namespace.schema, "ENTITIES"⟩
  | user name _ => name

end SchemaType

end XPath
