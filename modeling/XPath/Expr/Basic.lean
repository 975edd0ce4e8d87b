import XPath.Error
import XPath.Expr.Axis
import XPath.Expr.Literal
import XPath.Expr.Operator
import XPath.Function.Library

/-!
# Expressions

The tree that is read from a source. Its names are resolved: variables to their bindings or to
declarations, functions to signatures, types to types. Every node carries the byte offset of
the token that started it.
-/

namespace XPath

/-- A variable that an expression binds. -/
structure RangeVariable where
  /-- Tells apart variables of one name. -/
  id : Nat
  name : ExpandedName
  type : SequenceType
deriving DecidableEq, Repr

/-- What a reference to a variable refers to. -/
inductive VariableRef
  /-- a variable that is bound around the reference -/
  | range (bound : RangeVariable)
  /-- a variable that the context declares -/
  | declared (name : ExpandedName) (type : SequenceType)
deriving DecidableEq, Repr

/-- The name of the variable. -/
def VariableRef.name : VariableRef → ExpandedName
  | range v => v.name
  | declared n _ => n

/-- The type of the variable as far as it is known. -/
def VariableRef.type : VariableRef → SequenceType
  | range v => v.type
  | declared _ t => t

/-- The sign before an operand. -/
inductive Sign
  | plus | minus
deriving DecidableEq, Repr

/-- How the items of a domain are bound: to go through all of them, to find one, or to test
every one. -/
inductive BindingKind
  | forEach | someOf | everyOf
deriving DecidableEq, Repr

/-- The target of a cast: an atomic type, and whether no value at all is allowed. -/
structure SingleType where
  atomic : AtomicType
  optional : Bool
deriving DecidableEq, Repr

/-- The target as it is written. -/
def SingleType.render (t : SingleType) : String :=
  t.atomic.render ++ if t.optional then "?" else ""

/-- A test of a value against a type, or a conversion to it. -/
inductive TypeOperation
  | instanceOf (type : SequenceType)
  /-- raises the error with this code for other values -/
  | treatAs (type : SequenceType) (code : ErrorCode)
  | castableAs (type : SingleType)
  | castAs (type : SingleType)
deriving DecidableEq, Repr

/-- An expression. The first field of each node is its offset. -/
inductive Expr
  | literal (offset : Nat) (value : Literal)
  | varRef (offset : Nat) (ref : VariableRef)
  /-- the item that is looked at -/
  | contextItem (offset : Nat)
  /-- the root of the tree around the context item -/
  | root (offset : Nat)
  | parent (offset : Nat)
  | axisStep (offset : Nat) (axis : Axis) (test : NodeTest)
  /-- the items of a base for which a predicate holds -/
  | filter (offset : Nat) (base predicate : Expr)
  /-- a step taken from every node of a start -/
  | path (offset : Nat) (start step : Expr)
  /-- the nodes of a step against the order of the document, put back into it -/
  | reverse (offset : Nat) (inner : Expr)
  | binary (offset : Nat) (op : BinaryOperator) (left right : Expr)
  | unary (offset : Nat) (sign : Sign) (operand : Expr)
  | conditional (offset : Nat) (condition yes no : Expr)
  /-- evaluates the action with the variable bound to items of the domain -/
  | binding (offset : Nat) (kind : BindingKind) (bound : RangeVariable)
      (domain action : Expr)
  | typed (offset : Nat) (op : TypeOperation) (operand : Expr)
  | call (offset : Nat) (function : FunctionBinding) (arguments : List Expr)
  | sequence (offset : Nat) (items : List Expr)
  /-- raises the error when it is evaluated -/
  | raise (offset : Nat) (error : Error)

namespace Expr

instance : Inhabited Expr := ⟨contextItem 0⟩

/-- The byte offset of the token that started the expression. -/
def offset : Expr → Nat
  | literal n _ | varRef n _ | contextItem n | root n | parent n | axisStep n _ _
  | filter n _ _ | path n _ _ | reverse n _ | binary n _ _ _ | unary n _ _
  | conditional n _ _ _ | binding n _ _ _ _ | typed n _ _ | call n _ _ | sequence n _
  | raise n _ => n

/-- The parts of an expression, in the order in which they were written. -/
def children : Expr → List Expr
  | literal _ _ | varRef _ _ | contextItem _ | root _ | parent _ | axisStep _ _ _ | raise _ _ => []
  | filter _ a b | path _ a b | binary _ _ a b | binding _ _ _ a b => [a, b]
  | reverse _ a | unary _ _ a | typed _ _ a => [a]
  | conditional _ a b c => [a, b, c]
  | call _ _ args => args
  | sequence _ items => items

/-- The value of a string literal. -/
def stringLiteral? : Expr → Option String
  | literal _ (.string s) => some s
  | _ => none

end Expr

end XPath
