import XPath.Parse.Binding
import XPath.Parse.Operation

/-!
# Expressions within expressions

An expression inside another takes `nestedCost` levels of `maxDepth`, so that a nest of them ends
after `maxDepth / nestedCost` at the latest. The number of levels left is what the recursion
goes down by.
-/

namespace XPath.Parse

variable (σ : Setting)

/-- A single expression, given how expressions within it are read. -/
def singleWith (nested : Parse Expr) : Parse Expr :=
  nesting do
    descend σ nestedCost
    match ← token with
    | .forWord => bindingExpression σ nested .forEach
    | .someWord => bindingExpression σ nested .someOf
    | .everyWord => bindingExpression σ nested .everyOf
    | .ifWord => conditional σ nested
    | _ => operatorExpression σ nested

/-- A single expression in which at most `n` are nested in one another, itself included. -/
def singleWithin : Nat → Parse Expr
  | 0 => reject σ .tooDeep
  | n + 1 => singleWith σ (singleWithin n)

/-- A single expression, which has no comma outside parentheses. -/
def single : Parse Expr :=
  singleWithin σ (maxDepth / nestedCost)

/-- An expression that ends before a given token. -/
def complete (terminator : Token) : Parse Expr := do
  advance σ
  let e ← expression σ (single σ)
  let t ← token
  if t = terminator then return e
  else if t = .eof ∧ terminator = .rightBrace then reject σ .unclosedTemplate
  else reject σ (.beyondExpression (← found))

/-- A sequence type with nothing after it. -/
def completeType : Parse SequenceType := do
  advance σ
  let type ← sequenceType σ
  if (← token) = .eof then return type else reject σ (.beyondType (← found))

end XPath.Parse
