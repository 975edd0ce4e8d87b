import XPath.Context.Resolver
import XPath.Function.Standard

/-!
# The static context

What is declared around an expression: namespaces, variables, types and functions, and two
switches. Later declarations of a name win over earlier ones, except that the qualifier `xml`
always stands for its own namespace.
-/

namespace XPath

/-- The version of the language. The later one allows tests for namespace nodes. -/
inductive LanguageLevel
  | xpath20
  | xpath30
deriving DecidableEq, Repr

/-- The declarations around an expression. The newest of each kind comes first. -/
structure StaticContext where
  namespaces : List (String × String) :=
    [("fn", Namespace.functions), ("xsi", Namespace.schemaInstance), ("xs", Namespace.schema),
      ("xml", Namespace.xml)]
  elementNamespace : Option String := none
  functionNamespace : Option String := some Namespace.functions
  «variables» : List (ExpandedName × SequenceType) := []
  schemaTypes : List (ExpandedName × SchemaType) := []
  functions : FunctionLibrary := .standard
  backwardsCompatible : Bool := false
  level : LanguageLevel := .xpath20

namespace StaticContext

/-! ### Declarations -/

/-- Binds a qualifier to a namespace; `xml` keeps its own. -/
def declareNamespace (c : StaticContext) (qualifier uri : String) : StaticContext :=
  if qualifier = "xml" then c else { c with namespaces := (qualifier, uri) :: c.namespaces }

/-- Declares a variable of a type. -/
def declareVariable (c : StaticContext) (name : ExpandedName) (type : SequenceType) :
    StaticContext :=
  { c with «variables» := (name, type) :: c.«variables» }

/-- Makes a schema type known under its own name. -/
def declareSchemaType (c : StaticContext) (type : SchemaType) : StaticContext :=
  { c with schemaTypes := (type.name, type) :: c.schemaTypes }

/-! ### Questions -/

/-- The namespace of a declared qualifier. -/
def namespaceOf (c : StaticContext) (qualifier : String) : Except Error String :=
  match c.namespaces.lookup qualifier with
  | some uri => .ok uri
  | none => .error (.static .XPST0081 ("Prefix " ++ qualifier ++ " has not been declared"))

/-- The type of a declared variable. -/
def variableType (c : StaticContext) (name : ExpandedName) : Except Error SequenceType :=
  match c.«variables».lookup name with
  | some type => .ok type
  | none => .error (.static .XPST0008 ("Variable $" ++ name.render ++ " has not been declared"))

/-- The type of a name. The built-in types come before declared ones. -/
def schemaType? (c : StaticContext) (name : ExpandedName) : Option SchemaType :=
  match if name.isIn Namespace.schema then SchemaType.builtin? name.localName else none with
  | some type => some type
  | none => c.schemaTypes.lookup name

/-- The context as the host of a reader. -/
def resolver (c : StaticContext) : Resolver where
  namespaceOf := c.namespaceOf
  elementNamespace := c.elementNamespace
  functionNamespace := c.functionNamespace
  variableType := c.variableType
  schemaType? := c.schemaType?
  bind? name arity := .ok (c.functions.bind? name arity)
  arities := c.functions.arities
  backwardsCompatible := c.backwardsCompatible
  namespaceTests := c.level = .xpath30

end StaticContext

end XPath
