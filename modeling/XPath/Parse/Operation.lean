import XPath.Parse.Path

/-!
# Operations

Signs, binary operators and type operators. Operators that bind tighter are applied first, and
of operators that bind equally the left one; a type operator may not be applied to the result of
one that binds as loosely or more loosely without parentheses.
-/

namespace XPath.Parse

variable (σ : Setting) (nested : Parse Expr)

/-! ### Signs -/

/-- The sign that a token may be. -/
def sign? : Token → Option Sign
  | .operator (.arithmetic .add) => some .plus
  | .operator (.arithmetic .sub) => some .minus
  | _ => none

/-- One more sign before an operand, innermost first. -/
def sign (signs : List (Sign × Nat)) : Parse (List (Sign × Nat)) := do
  match sign? (← token) with
  | none => return signs
  | some s => do
    descend σ 1
    let start ← offset
    advance σ
    return (s, start) :: signs

/-- The operand with the signs before it, the innermost first. -/
def applySigns (operand : Expr) (signs : List (Sign × Nat)) : Expr :=
  signs.foldl (fun e (s, start) => .unary start s e) operand

/-- A path with signs before it. -/
def signedPath : Parse Expr :=
  nesting do
    let signs ← repeatWhile (fun t => (sign? t).isSome) (sign σ) []
    return applySigns (← pathExpression σ nested) signs

/-! ### Type operators -/

/-- No operator that binds as tightly as this one may follow. -/
def endTypeOperation (precedence : Nat) : Parse Unit := do
  let t ← token
  if t.precedence?.any (precedence ≤ ·) then reject σ (.typeOperand t)

/-- The target of a cast. -/
def singleType : Parse SingleType := do
  expect σ .name
  let type ← atomicType σ (← value)
  if type.isAbstract then reject σ (.notCastable type)
  advance σ
  let optional := (← token) = .questionMark
  if optional then skipMark σ
  return ⟨type, optional⟩

/-- A cast. The cast of a string literal to a name is decided at once, and so is the question
whether it would succeed. -/
def cast (start : Nat) (castable : Bool) (operand : Expr) (type : SingleType) : Parse Expr :=
  match type.atomic, operand.stringLiteral? with
  | .qname, some text =>
    match castable, qnameLiteral σ.host text with
    | true, outcome => pure (.literal start (.boolean outcome.isOk))
    | false, .ok literal => pure (.literal start literal)
    | false, .error fault => reject σ fault
  | _, _ => pure (.typed start (if castable then .castableAs type else .castAs type) operand)

/-- A type operator and its type, applied to an operand. -/
def typeOperation (op : TypeOperator) (start : Nat) (operand : Expr) : Parse Expr := do
  advance σ
  match op with
  | .instanceOf => return .typed start (.instanceOf (← sequenceType σ)) operand
  | .treatAs => return .typed start (.treatAs (← sequenceType σ) .XPDY0050) operand
  | .castableAs => cast σ start true operand (← singleType σ)
  | .castAs => cast σ start false operand (← singleType σ)

/-! ### Precedence -/

/-- The token is an operator of at least this precedence. -/
def bindsFrom (least : Nat) (t : Token) : Bool :=
  t.precedence?.any (least ≤ ·)

/-- One operator and what follows it, applied to a left operand. Operators that bind tighter take
the right operand first; `tighter` reads those of a least precedence. -/
def operation (tighter : Nat → Expr → Parse Expr) (left : Expr) : Parse Expr := do
  let start ← offset
  match ← token with
  | .operator op => do
    descend σ 1
    advance σ
    let operand ← signedPath σ nested
    let right ← repeatWhile (bindsFrom (op.precedence + 1))
      (fun right => do
        match (← token).precedence? with
        | some least => tighter least right
        | none => return right) operand
    return .binary start op left right
  | .typeOperator op => do
    descend σ 1
    let typed ← typeOperation σ op start left
    endTypeOperation σ op.precedence
    return typed
  | _ => return left

/-- The operators from a least precedence on, applied to a left operand. Each level of recursion
asks for a higher precedence, of which there are `tiers` at most. -/
def operations : Nat → Nat → Expr → Parse Expr
  | 0, _, left => pure left
  | tiers + 1, least, left =>
    nesting (repeatWhile (bindsFrom least) (operation σ nested (operations tiers)) left)

/-- The least precedence of all. -/
def loosest : Nat := 4

/-- The number of precedences. -/
def precedenceCount : Nat := 12

/-- Operands and the operators between them. -/
def operatorExpression : Parse Expr := do
  operations σ nested precedenceCount loosest (← signedPath σ nested)

end XPath.Parse
