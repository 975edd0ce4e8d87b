import XPath.Expr.Literal
import XPath.Parse.State

/-!
# Resolving names

The qualifiers of names are looked up with the host. What becomes of a name without one differs:
names of elements and types take the element namespace, names of functions the function
namespace, and names of attributes and variables none.
-/

namespace XPath.Parse

variable (σ : Setting)

/-- The name that `lexical` means. Names of elements and types take the element namespace. -/
def expandName (lexical : String) (takesElementNamespace : Bool) : Parse ExpandedName :=
  match LexicalQName.parse? lexical with
  | none => reject σ (.malformedName lexical)
  | some n =>
    if n.qualifier = "" then
      pure (.inNamespace (if takesElementNamespace then σ.host.elementNamespace else none)
        n.localName)
    else do
      let uri ← ask σ (σ.host.namespaceOf n.qualifier)
      return ⟨uri, n.localName⟩

/-- The namespace of a qualifier. An error of the host keeps its message but not its code. -/
def declaredNamespace (qualifier : String) : Parse String :=
  match σ.host.namespaceOf qualifier with
  | .ok uri => pure uri
  | .error e => reject σ (.undeclaredQualifier e.message)

/-- The function name that `lexical` means. -/
def functionName (lexical : String) : Parse ExpandedName :=
  match LexicalQName.parse? lexical with
  | none => reject σ (.malformedFunctionName lexical)
  | some n =>
    if n.qualifier = "" then pure (.inNamespace σ.host.functionNamespace n.localName)
    else do
      let uri ← declaredNamespace σ n.qualifier
      return ⟨uri, n.localName⟩

/-- The built-in atomic type that `lexical` means. -/
def atomicType (lexical : String) : Parse AtomicType :=
  match LexicalQName.parse? lexical with
  | none => reject σ (.malformedName lexical)
  | some n => do
    let uri ←
      if n.qualifier = "" then pure (σ.host.elementNamespace.getD "")
      else ask σ (σ.host.namespaceOf n.qualifier)
    if uri = "" then reject σ (.unknownAtomicType lexical)
    else if uri = Namespace.schema then
      match SchemaType.builtin? n.localName with
      | some (.atomic t) => pure t
      | some _ => reject σ (.notAtomic lexical)
      | none => reject σ (.unknownAtomicType lexical)
    else
      match σ.host.schemaType? ⟨uri, n.localName⟩ with
      | some _ => reject σ (.notBuiltin lexical)
      | none => reject σ (.noSchema uri)

/-- The name that a text means as a value. The namespaces around an expression are known only
while it is read, so that a cast of a literal to a name is decided then. -/
def qnameLiteral (host : Resolver) (text : String) : Except Fault Literal :=
  let lexical := Text.trimBlanks text
  match LexicalQName.parse? lexical with
  | none => .error (.malformedQName lexical)
  | some n =>
    if n.qualifier = "" then
      .ok (.qname none (.inNamespace host.elementNamespace n.localName))
    else match host.namespaceOf n.qualifier with
      | .ok uri => .ok (.qname (some n.qualifier) ⟨uri, n.localName⟩)
      | .error _ => .error (.undeclaredQNameQualifier n.qualifier)

end XPath.Parse
