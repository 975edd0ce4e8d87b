/-!
# Operators

The binary operators, which join two expressions, and the type operators, which join an
expression and a type. All of them stand in one order of precedence, from `or` at 4 to
`cast as` at 15; the higher one binds tighter.
-/

namespace XPath

/-- The six comparisons by order. -/
inductive Comparison
  | eq | ne | lt | le | gt | ge
deriving DecidableEq, Repr

/-- Identity of nodes and document order. -/
inductive NodeComparison
  | is | precedes | follows
deriving DecidableEq, Repr

/-- Operations on numbers. -/
inductive Arithmetic
  | add | sub | mul | div | idiv | mod
deriving DecidableEq, Repr

/-- Operations on sets of nodes. -/
inductive SetOperation
  | union | intersect | except
deriving DecidableEq, Repr

/-- An operator between two expressions. -/
inductive BinaryOperator
  | or
  | and
  /-- holds when it holds of some two items of the operands -/
  | general (op : Comparison)
  /-- compares two single values -/
  | value (op : Comparison)
  | node (op : NodeComparison)
  /-- the integers from one to another -/
  | range
  | arithmetic (op : Arithmetic)
  | set (op : SetOperation)
deriving DecidableEq, Repr

namespace BinaryOperator

/-- How tightly the operator binds. -/
def precedence : BinaryOperator → Nat
  | or => 4
  | and => 5
  | general _ | value _ | node _ => 6
  | range => 7
  | arithmetic .add | arithmetic .sub => 8
  | arithmetic _ => 9
  | set .union => 10
  | set _ => 11

/-- The operator as it is written. -/
def symbol : BinaryOperator → String
  | or => "or"
  | and => "and"
  | general .eq => "="
  | general .ne => "!="
  | general .lt => "<"
  | general .le => "<="
  | general .gt => ">"
  | general .ge => ">="
  | value .eq => "eq"
  | value .ne => "ne"
  | value .lt => "lt"
  | value .le => "le"
  | value .gt => "gt"
  | value .ge => "ge"
  | node .is => "is"
  | node .precedes => "<<"
  | node .follows => ">>"
  | range => "to"
  | arithmetic .add => "+"
  | arithmetic .sub => "-"
  | arithmetic .mul => "*"
  | arithmetic .div => "div"
  | arithmetic .idiv => "idiv"
  | arithmetic .mod => "mod"
  | set .union => "union"
  | set .intersect => "intersect"
  | set .except => "except"

end BinaryOperator

/-- An operator between an expression and a type. -/
inductive TypeOperator
  | instanceOf | treatAs | castableAs | castAs
deriving DecidableEq, Repr

namespace TypeOperator

/-- How tightly the operator binds. -/
def precedence : TypeOperator → Nat
  | instanceOf => 12
  | treatAs => 13
  | castableAs => 14
  | castAs => 15

/-- The operator as it is written. -/
def symbol : TypeOperator → String
  | instanceOf => "instance of"
  | treatAs => "treat as"
  | castableAs => "castable as"
  | castAs => "cast as"

end TypeOperator

end XPath
