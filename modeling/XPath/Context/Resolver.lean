import XPath.Error
import XPath.Function.Library

/-!
# What a reader asks its host

While an expression is read, its names are looked up with the host. A `Resolver` answers these
questions. Any host can be one; `Refusals` puts errors of its own before the answers of
another.
-/

namespace XPath

/-- The answers of a host to the questions that come up while an expression is read. -/
structure Resolver where
  /-- The namespace that a qualifier stands for. -/
  namespaceOf : String → Except Error String
  /-- The namespace of element and type names without a qualifier. -/
  elementNamespace : Option String
  /-- The namespace of function names without a qualifier. -/
  functionNamespace : Option String
  /-- The type of a variable that the expression does not bind itself. A host answers for the
  variable under the name that it is asked for, and gives it no other name. -/
  variableType : ExpandedName → Except Error SequenceType
  /-- The schema type of a name. -/
  schemaType? : ExpandedName → Option SchemaType
  /-- The function that a call of a name with a number of arguments refers to. -/
  bind? : ExpandedName → Nat → Except Error (Option FunctionBinding)
  /-- The numbers of arguments known for a function name. -/
  arities : ExpandedName → List Nat
  /-- A call of an unknown function is left to fail when it is evaluated. -/
  backwardsCompatible : Bool
  /-- Tests for namespace nodes are allowed. -/
  namespaceTests : Bool

/-- Questions that a host answers with an error of its own. -/
structure Refusals where
  qualifiers : List (String × Error) := []
  «variables» : List (ExpandedName × Error) := []
  functions : List (ExpandedName × Error) := []
  /-- The numbers of arguments of functions are not told. -/
  hideArities : Bool := false

/-- The resolver with these refusals in front. -/
def Resolver.refusing (r : Resolver) (no : Refusals) : Resolver :=
  { r with
    namespaceOf := fun q => match no.qualifiers.lookup q with
      | some e => .error e
      | none => r.namespaceOf q
    variableType := fun n => match no.«variables».lookup n with
      | some e => .error e
      | none => r.variableType n
    bind? := fun n arity => match no.functions.lookup n with
      | some e => .error e
      | none => r.bind? n arity
    arities := fun n => if no.hideArities then [] else r.arities n }

end XPath
