import XPath.Types.Sequence

/-!
# Function libraries

A library lists signatures under names. A call is bound to the first signature of its name
that accepts the number of arguments. Where a library has constructor functions, the name of
a built-in atomic type is the function that casts its one argument to that type, whatever
else is listed under the name.
-/

namespace XPath

/-- What is special about a function when a call of it is read. -/
inductive FunctionKind
  | system
  /-- casts its argument to an atomic type -/
  | constructor (type : AtomicType)
  | currentGroup
  | currentGroupingKey
  | regexGroup
  /-- supplied by a host -/
  | extended
deriving DecidableEq, Repr

/-- The function that a call refers to. -/
structure FunctionBinding where
  name : ExpandedName
  arity : Nat
  kind : FunctionKind
  result : SequenceType
deriving DecidableEq, Repr

/-- The numbers of arguments a function takes, from `least` to `most` or without an upper end,
and what it returns. -/
structure Signature where
  least : Nat
  most : Option Nat
  kind : FunctionKind
  result : SequenceType
deriving DecidableEq, Repr

namespace Signature

/-- A call may have this number of arguments. -/
def accepts (s : Signature) (arity : Nat) : Bool :=
  s.least ≤ arity && s.most.all (arity ≤ ·)

/-- The numbers of arguments that are listed for the signature: all of them when there is an
upper end, and the least otherwise. -/
def arities (s : Signature) : List Nat :=
  match s.most with
  | some most => List.range' s.least (most + 1 - s.least)
  | none => [s.least]

end Signature

/-- A list of functions. -/
structure FunctionLibrary where
  /-- The signatures in the order in which they were registered. -/
  entries : List (ExpandedName × Signature) := []
  /-- The names of atomic types are functions too. -/
  constructors : Bool := false
deriving Repr

namespace FunctionLibrary

/-- Lists one more signature under a name. -/
def register (l : FunctionLibrary) (name : ExpandedName) (s : Signature) : FunctionLibrary :=
  { l with entries := l.entries ++ [(name, s)] }

/-- The library with constructor functions. -/
def withConstructors (l : FunctionLibrary) : FunctionLibrary :=
  { l with constructors := true }

/-- The type whose constructor the name is. -/
def constructorTarget? (l : FunctionLibrary) (name : ExpandedName) : Option AtomicType :=
  if l.constructors && name.isIn Namespace.schema then
    (AtomicType.ofLocalName? name.localName).filter (!·.isAbstract)
  else none

/-- The signatures listed under a name, in the order in which they were registered. -/
def signatures (l : FunctionLibrary) (name : ExpandedName) : List Signature :=
  l.entries.filterMap fun (n, s) => if n = name then some s else none

/-- The function that a call with this number of arguments refers to. -/
def bind? (l : FunctionLibrary) (name : ExpandedName) (arity : Nat) : Option FunctionBinding :=
  match l.constructorTarget? name with
  | some t =>
    if arity = 1 then some ⟨name, arity, .constructor t, ⟨.atomic t, .zeroOrOne⟩⟩ else none
  | none =>
    ((l.signatures name).find? (·.accepts arity)).map fun s => ⟨name, arity, s.kind, s.result⟩

/-- Puts a number in its place in an ascending list, unless it is there. -/
def insertArity (n : Nat) : List Nat → List Nat
  | [] => [n]
  | m :: ms => if n < m then n :: m :: ms else if n = m then m :: ms else m :: insertArity n ms

/-- The numbers of arguments listed under a name, in ascending order. -/
def arities (l : FunctionLibrary) (name : ExpandedName) : List Nat :=
  match l.constructorTarget? name with
  | some _ => [1]
  | none => ((l.signatures name).flatMap Signature.arities).foldr insertArity []

end FunctionLibrary

end XPath
