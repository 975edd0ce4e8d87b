import XPath.Parse.Primary

/-!
# Paths

Steps with predicates, joined by slashes from left to right. A double slash stands for a step
to all descendants between two slashes. A slash alone is the root, and at the head of a path
it starts there.
-/

namespace XPath.Parse

variable (σ : Setting) (nested : Parse Expr)

/-- One predicate on a base. -/
def predicate (base : Expr) : Parse Expr := do
  let start ← offset
  descend σ 1
  advance σ
  let condition ← expression σ nested
  skip σ .rightBracket
  return .filter start base condition

/-- An axis step against the order of the document, which numbers its nodes in that order. -/
def isReverseStep : Expr → Bool
  | .axisStep _ axis _ => axis.isReverse
  | _ => false

/-- A step with its predicates. A step against the order of the document is filtered first and
put back into that order then. -/
def step (startsPattern : Bool) : Parse Expr :=
  nesting do
    let base ← primary σ nested startsPattern
    let filtered ← repeatWhile (· = .leftBracket) (predicate σ nested) base
    return if isReverseStep base then .reverse filtered.offset filtered else filtered

/-- A slash or a double slash. -/
def isSeparator (t : Token) : Bool :=
  t = .slash || t = .slashSlash

/-- The levels that a step takes after a separator. -/
def separatorLevels (separator : Token) : Nat :=
  if separator = .slashSlash then 2 else 1

/-- The step to a node and all its descendants. -/
def anyDescendant (start : Nat) : Expr :=
  .axisStep start .descendantOrSelf .anyNode

/-- A path with one more step after a separator. -/
def joinStep (start : Nat) (separator : Token) (before next : Expr) : Expr :=
  if separator = .slashSlash then .path start before (.path start (anyDescendant start) next)
  else .path start before next

/-- A separator and the step after it. -/
def furtherStep (before : Expr) : Parse Expr := do
  let separator ← token
  let start ← offset
  descend σ (separatorLevels separator)
  advance σ
  let next ← step σ nested false
  return joinStep start separator before next

/-- A path that starts with a step. -/
def relativePath : Parse Expr :=
  nesting do
    let first ← step σ nested (σ.language = .pattern)
    repeatWhile isSeparator (furtherStep σ nested) first

/-- The same after the root, where the separator has been read before its levels are taken. -/
def furtherStepFromRoot (before : Expr) : Parse Expr := do
  let separator ← token
  let start ← offset
  advance σ
  descend σ (separatorLevels separator)
  let next ← step σ nested false
  return joinStep start separator before next

/-- The steps of a path after the root and the separator behind it. -/
def pathFrom (start : Nat) (origin : Expr) : Parse Expr :=
  nesting do
    descend σ 1
    let first ← step σ nested false
    repeatWhile isSeparator (furtherStepFromRoot σ nested) (.path start origin first)

/-- A path may go on with this token after a slash. -/
def startsStep : Token → Bool
  | .axis | .atSign | .name | .namespaceWildcard | .localWildcard | .star | .nodeKind | .dot
  | .dotDot | .function | .stringLiteral | .number | .leftParen | .dollar => true
  | _ => false

/-- A path from the root: the root alone, or with steps after it. -/
def rootedPath : Parse Expr := do
  let start ← offset
  advance σ
  match ← token with
  | .typeOperator op => reject σ (.typeOperatorAfterSlash (.typeOperator op))
  | t => if startsStep t then pathFrom σ nested start (.root start) else return .root start

/-- A path from the root and all its descendants. -/
def descendantPath : Parse Expr := do
  let start ← offset
  advance σ
  pathFrom σ nested start (.path start (.root start) (anyDescendant start))

/-- A path. -/
def pathExpression : Parse Expr := do
  match ← token with
  | .slash => rootedPath σ nested
  | .slashSlash => descendantPath σ nested
  | _ => relativePath σ nested

end XPath.Parse
