import XPath.Expr.Typing
import XPath.Parse.Step

/-!
# Primary expressions

Literals, variables, calls and expressions in parentheses, and with the axis steps all that a
path can start with. `nested` reads an expression within another.
-/

namespace XPath.Parse

variable (σ : Setting) (nested : Parse Expr)

/-- One expression, or several with commas between them. -/
def expression : Parse Expr := do
  let start ← offset
  match ← commaSeparated σ nested with
  | [single] => return single
  | items => return .sequence start items

/-! ### Literals and variables -/

/-- A token that is an expression by itself. -/
def leaf (make : Nat → Expr) : Parse Expr := do
  let start ← offset
  advance σ
  return make start

/-- A string literal. -/
def stringLiteral : Parse Expr := do
  let text ← value
  leaf σ fun start => .literal start (.string text)

/-- A number. -/
def numericLiteral : Parse Expr := do
  let text ← value
  match Literal.ofNumber? text with
  | none => reject σ (.malformedNumber text)
  | some number => leaf σ fun start => .literal start number

/-- A reference to a variable: the innermost one of its name in scope, else one that the host
declares. A host that knows no such variable is quoted with the name as it was written. -/
def variableReference : Parse Expr := do
  let start ← offset
  advance σ
  expect σ .name
  let lexical ← value
  advance σ
  let name ← expandName σ lexical false
  match (← get).scope.find? (·.name = name) with
  | some v => return .varRef start (.range v)
  | none =>
    match σ.host.variableType name with
    | .ok type => return .varRef start (.declared name type)
    | .error e =>
      if e.standardCode = .XPST0008 then reject σ (.undeclaredVariable lexical) else fail σ e

/-! ### Calls -/

/-- The arguments of a call and its closing parenthesis. -/
def arguments : Parse (List Expr) := do
  if (← token) = .rightParen then
    advance σ
    return []
  else
    let args ← commaSeparated σ nested
    skip σ .rightParen
    return args

/-- A call of a function that is not known. A host that works backwards compatibly leaves it to
fail when it is evaluated. -/
def unknownCall (start : Nat) (name : ExpandedName) (arity : Nat) : Parse Expr :=
  let fault := Fault.noFunction name arity (σ.host.arities name)
  if σ.host.backwardsCompatible then
    pure (.raise start (.dynamic .XTDE1425 fault.message))
  else reject σ fault

/-- A call of a function that has no meaning in a pattern fails there, and a group of a regular
expression is empty. -/
def callIn (start : Nat) (function : FunctionBinding) (args : List Expr) : Parse Expr :=
  match σ.language, function.kind with
  | .pattern, .regexGroup => pure (.literal start .emptySequence)
  | .pattern, .currentGroup => reject σ .currentGroup
  | .pattern, .currentGroupingKey => reject σ .currentGroupingKey
  | _, _ => pure (.call start function args)

/-- A call of a known function. The constructor of names is applied at once to a string
literal. -/
def knownCall (start : Nat) (function : FunctionBinding) (args : List Expr) : Parse Expr :=
  match function.kind, args.head?.bind Expr.stringLiteral? with
  | .constructor .qname, some text =>
    match qnameLiteral σ.host text with
    | .ok literal => pure (.literal start literal)
    | .error fault => reject σ fault
  | _, _ => callIn σ start function args

/-- A call, from the name of the function on. -/
def functionCall : Parse Expr := do
  let start ← offset
  let name ← functionName σ (← value)
  advance σ
  let args ← arguments σ nested
  match ← ask σ (σ.host.bind? name args.length) with
  | none => unknownCall σ start name args.length
  | some function => knownCall σ start function args

/-! ### Parentheses -/

/-- An expression in parentheses, or the empty sequence. -/
def parenthesized : Parse Expr := do
  let start ← offset
  advance σ
  if (← token) = .rightParen then
    advance σ
    return .literal start .emptySequence
  else
    let inner ← expression σ nested
    skip σ .rightParen
    return inner

/-- What a path starts with, and each of its steps before the predicates. -/
def primary (startsPattern : Bool) : Parse Expr := do
  match ← token with
  | .dollar => variableReference σ
  | .leftParen => parenthesized σ nested
  | .stringLiteral => stringLiteral σ
  | .number => numericLiteral σ
  | .function => functionCall σ nested
  | .dot => leaf σ .contextItem
  | .dotDot => leaf σ .parent
  | .nodeKind | .name | .namespaceWildcard | .localWildcard | .star => bareStep σ startsPattern
  | .atSign => attributeStep σ
  | .axis => axisStep σ
  | _ => reject σ (.unexpectedToken (← found))

end XPath.Parse
