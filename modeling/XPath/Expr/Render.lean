import XPath.Expr.Basic

/-!
# Expressions as text

Every application of an operator stands in parentheses, so that the text shows how the
expression was grouped.
-/

namespace XPath

/-- The sign as it is written. -/
def Sign.symbol : Sign → String
  | plus => "+"
  | minus => "-"

/-- The word that starts a binding. -/
def BindingKind.keyword : BindingKind → String
  | forEach => "for"
  | someOf => "some"
  | everyOf => "every"

/-- The word before the action of a binding. -/
def BindingKind.actionWord : BindingKind → String
  | forEach => "return"
  | someOf | everyOf => "satisfies"

/-- The operator and the type after it, as they are written. -/
def TypeOperation.render : TypeOperation → String
  | instanceOf type => "instance of " ++ type.render
  | treatAs type _ => "treat as " ++ type.render
  | castableAs type => "castable as " ++ type.render
  | castAs type => "cast as " ++ type.render

namespace Expr

mutual

/-- The expression as text. -/
def render : Expr → String
  | literal _ value => value.render
  | varRef _ ref => "$" ++ ref.name.render
  | contextItem _ => "."
  | root _ => "/"
  | parent _ => ".."
  | axisStep _ axis test => axis.name ++ "::" ++ test.render
  | filter _ base predicate => render base ++ "[" ++ render predicate ++ "]"
  | path _ (root _) step => "(/" ++ render step ++ ")"
  | path _ start step => "(" ++ render start ++ "/" ++ render step ++ ")"
  | reverse _ inner => "reverse(" ++ render inner ++ ")"
  | binary _ op left right => "(" ++ render left ++ " " ++ op.symbol ++ " " ++ render right ++ ")"
  | unary _ sign operand => "(" ++ sign.symbol ++ render operand ++ ")"
  | conditional _ condition yes no =>
    "(if (" ++ render condition ++ ") then " ++ render yes ++ " else " ++ render no ++ ")"
  | binding _ kind v domain action =>
    "(" ++ kind.keyword ++ " $" ++ v.name.render ++ " in " ++ render domain ++ " " ++
      kind.actionWord ++ " " ++ render action ++ ")"
  | typed _ op operand => "(" ++ render operand ++ " " ++ op.render ++ ")"
  | call _ function arguments => function.name.render ++ "(" ++ renderList arguments ++ ")"
  | sequence _ items => "(" ++ renderList items ++ ")"
  | raise _ error => "error(" ++ error.codeText ++ ")"

/-- Several expressions with commas between them. -/
def renderList : List Expr → String
  | [] => ""
  | e :: es => render e ++ renderTail es

/-- Further expressions, each after a comma. -/
def renderTail : List Expr → String
  | [] => ""
  | e :: es => ", " ++ render e ++ renderTail es

end

end Expr

end XPath
