import XPath.Expr.Basic

/-!
# Types of expressions

`Expr.itemType` is the type of the items of an expression's value, as well as it can be told
from the expression alone. It gives range variables their types, and `Expr.retype` brings the
type of a variable to the references to it.
-/

namespace XPath

/-- The type of the result of an arithmetic operator. Quotients of integers are decimals, and
operands that are no numbers leave the type open. -/
def Arithmetic.resultType (op : Arithmetic) : ItemType → ItemType → ItemType
  | .atomic s, .atomic t =>
    match op, s.promote t with
    | .idiv, some _ => .atomic .integer
    | .div, some .integer => .atomic .decimal
    | _, some r => .atomic r
    | _, none => .atomic .anyAtomicType
  | _, _ => .atomic .anyAtomicType

/-- The type of the result of a binary operator. -/
def BinaryOperator.resultType : BinaryOperator → ItemType → ItemType → ItemType
  | or, _, _ | and, _, _ | general _, _, _ | value _, _, _ | node _, _, _ => .atomic .boolean
  | range, _, _ => .atomic .integer
  | arithmetic op, s, t => op.resultType s t
  | set _, s, t =>
    match s.commonSupertype t with
    | .node test => .node test
    | _ => .node .anyNode

/-- The type of the result of a type operator. -/
def TypeOperation.resultType : TypeOperation → ItemType
  | instanceOf _ | castableAs _ => .atomic .boolean
  | treatAs type _ => type.item
  | castAs type => .atomic type.atomic

/-- The type of the nodes that a step selects. -/
def Axis.resultType (axis : Axis) (test : NodeTest) : ItemType :=
  if axis = .attribute ∧ test = .anyNode then .node (.kind .attribute) else .node test

/-- The type of a number with a sign. -/
def ItemType.signed : ItemType → ItemType
  | .atomic t => if t.isNumeric then .atomic t else .atomic .anyAtomicType
  | _ => .atomic .anyAtomicType

namespace Expr

mutual

/-- The type of the items of the value. -/
def itemType : Expr → ItemType
  | literal _ value => value.itemType
  | varRef _ ref => ref.type.item
  | contextItem _ | raise _ _ => .anyItem
  | root _ => .node (.kind .document)
  | parent _ => .node .anyNode
  | axisStep _ axis test => axis.resultType test
  | filter _ base _ => itemType base
  | path _ _ step => itemType step
  | reverse _ inner => itemType inner
  | binary _ op left right => op.resultType (itemType left) (itemType right)
  | unary _ _ operand => (itemType operand).signed
  | conditional _ _ yes no => (itemType yes).commonSupertype (itemType no)
  | binding _ .forEach _ _ action => itemType action
  | binding _ _ _ _ _ => .atomic .boolean
  | typed _ op _ => op.resultType
  | call _ function _ => function.result.item
  | sequence _ [] => .empty
  | sequence _ (item :: items) => joinedType (itemType item) items

/-- The type that is common to items of a type and further expressions. -/
def joinedType (type : ItemType) : List Expr → ItemType
  | [] => type
  | item :: items => joinedType (type.commonSupertype (itemType item)) items

end

mutual

/-- The expression with the type `type` on all references to the range variable `id`. -/
def retype (id : Nat) (type : SequenceType) : Expr → Expr
  | varRef n (.range v) =>
    varRef n (.range (if v.id = id then { v with type } else v))
  | filter n base predicate => filter n (retype id type base) (retype id type predicate)
  | path n start step => path n (retype id type start) (retype id type step)
  | reverse n inner => reverse n (retype id type inner)
  | binary n op left right => binary n op (retype id type left) (retype id type right)
  | unary n sign operand => unary n sign (retype id type operand)
  | conditional n condition yes no =>
    conditional n (retype id type condition) (retype id type yes) (retype id type no)
  | binding n kind v domain action =>
    binding n kind v (retype id type domain) (retype id type action)
  | typed n op operand => typed n op (retype id type operand)
  | call n function arguments => call n function (retypeAll id type arguments)
  | sequence n items => sequence n (retypeAll id type items)
  | e@(literal _ _) | e@(varRef _ (.declared _ _)) | e@(contextItem _) | e@(root _)
  | e@(parent _) | e@(axisStep _ _ _) | e@(raise _ _) => e

/-- The same for each of several expressions. -/
def retypeAll (id : Nat) (type : SequenceType) : List Expr → List Expr
  | [] => []
  | e :: es => retype id type e :: retypeAll id type es

end

end Expr

end XPath
