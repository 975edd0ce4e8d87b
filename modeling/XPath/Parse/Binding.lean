import XPath.Parse.Primary

/-!
# Bindings and conditionals

A binding names one or more variables, each with a domain, and one action. A variable is in scope
in the domains after its own and in the action. When the action has been read, the types of the
variables are known from their domains, and the clauses become nested bindings.
-/

namespace XPath.Parse

variable (σ : Setting) (nested : Parse Expr)

/-! ### Clauses -/

/-- A variable and its domain. -/
structure Clause where
  bound : RangeVariable
  domain : Expr

/-- A variable and its domain, after the word or comma before them. -/
def clause : Parse Clause := do
  skip σ .dollar
  expect σ .name
  let name ← expandName σ (← value) false
  advance σ
  skip σ .inWord
  let domain ← nested
  return ⟨← declare name, domain⟩

/-- An expression with the types of several variables on the references to them. -/
def withTypes (known : List RangeVariable) (e : Expr) : Expr :=
  known.foldl (fun e v => e.retype v.id v.type) e

/-- The nested bindings of clauses around an action. A domain may refer to the variables of the
clauses before its own, whose types are `known`. -/
def nestClauses (start : Nat) (kind : BindingKind) :
    List RangeVariable → List Clause → Expr → Expr
  | known, [], action => withTypes known action
  | known, c :: cs, action =>
    let domain := withTypes known c.domain
    let bound := { c.bound with type := ⟨domain.itemType, .exactlyOne⟩ }
    .binding start kind bound domain (nestClauses start kind (known ++ [bound]) cs action)

/-- The word before the action. -/
def actionToken : BindingKind → Token
  | .forEach => .returnWord
  | .someOf | .everyOf => .satisfiesWord

/-- A binding, from its first word on. -/
def bindingExpression (kind : BindingKind) : Parse Expr := do
  let start ← offset
  let (clauses, action) ← binding do
    advance σ
    let clauses ← commaSeparated σ (clause σ nested)
    skip σ (actionToken kind)
    return (clauses, ← nested)
  return nestClauses start kind [] clauses action

/-! ### Conditionals -/

/-- A conditional, from its first word and the parenthesis after it on. -/
def conditional : Parse Expr := do
  let start ← offset
  advance σ
  let condition ← expression σ nested
  skip σ .rightParen
  skip σ .thenWord
  let yes ← nested
  skip σ .elseWord
  return .conditional start condition yes (← nested)

end XPath.Parse
