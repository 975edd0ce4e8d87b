import XPath.Context.Resolver
import XPath.Expr.Basic
import XPath.Parse.Fault
import XPath.Token.Cursor

/-!
# The state of a reader

A reader has a cursor, the variables in scope, the levels of nesting it has used, and the
warnings it has issued. A `Parse` either gives a value or fails with an error, and the state it
leaves counts in both cases: an error shows what had been read, and a reader can go on after
one.

`nesting` gives levels back and `binding` takes variables out of scope when the part they
belong to has been read, whether that succeeded or not. `repeatWhile` repeats a part for as
long as the current token asks for it; every round reads on, so that the number of characters
left bounds the rounds.
-/

namespace XPath

/-- Where a reader is, and what it has gathered. -/
structure ParseState where
  cursor : Cursor
  /-- The variables in scope, innermost first. -/
  scope : List RangeVariable := []
  /-- The id of the next variable. Ids are meant to fit into 32 bits: fewer than `2 ^ 32`
  variables are declared, so that none is given out twice. -/
  nextId : Nat := 0
  /-- The levels of nesting in use. -/
  depth : Nat := 0
  /-- The warnings of the host so far, oldest first. -/
  warnings : List String := []

/-- What does not change while a source is read. -/
structure Setting where
  language : Language
  host : Resolver

/-- An action of a reader. -/
abbrev Parse := EStateM Error ParseState

namespace Parse

/-! ### Tokens -/

/-- The current token. -/
def token : Parse Token :=
  return (← get).cursor.token

/-- The text of the current token, for names, words and literals. -/
def value : Parse String :=
  return (← get).cursor.value

/-- The byte offset of the current token. -/
def offset : Parse Nat :=
  return (← get).cursor.offset

/-- The current token as it is shown in messages. -/
def found : Parse String :=
  return (← get).cursor.describe

/-! ### Errors and warnings -/

/-- What has been read, as it is shown before messages. -/
def place (c : Cursor) : String :=
  (if "...".toList.isPrefixOf c.excerpt.toList then "near" else "in") ++ " \x7b" ++ c.excerpt ++
    "\x7d:\n    "

/-- The place of an error: the language and what has been read. -/
def location (language : Language) (c : Cursor) : String :=
  language.displayName ++ " syntax error " ++ place c

variable (σ : Setting)

/-- Fails with an error, at the current place unless it has one already. -/
def fail (e : Error) : Parse α := do
  let location := location σ.language (← get).cursor
  throw { e with location := some (e.location.getD location) }

/-- Fails with a fault at the current place. -/
def reject (f : Fault) : Parse α :=
  fail σ (f.error σ.language)

/-- Goes on with the answer of a host, or fails with its error. -/
def ask (answer : Except Error α) : Parse α :=
  match answer with
  | .ok a => pure a
  | .error e => fail σ e

/-- Issues a warning about what has been read. -/
def warn (message : String) : Parse Unit :=
  modify fun s => { s with warnings := s.warnings ++ [place s.cursor ++ message] }

/-! ### Moving on -/

/-- Reads the next token. -/
def advance : Parse Unit := do
  let (outcome, cursor) := (← get).cursor.advance
  modify fun s => { s with cursor }
  match outcome with
  | .ok () => pure ()
  | .error e => reject σ (.lexical e)

/-- Fails unless the current token is this one. Reads nothing. -/
def expect (t : Token) : Parse Unit := do
  if (← token) ≠ t then reject σ (.expected t (← found))

/-- Reads past this token. -/
def skip (t : Token) : Parse Unit := do
  expect σ t
  advance σ

/-- The current token ends an operand, whatever it looks like; reads past it. -/
def skipMark : Parse Unit := do
  modify fun s => { s with cursor := s.cursor.endOperand }
  advance σ

/-! ### Nesting and scope -/

/-- The most levels of nesting. -/
def maxDepth : Nat := 512

/-- The levels that an expression within another takes: one in parentheses or in a predicate,
an argument, a branch. Operators, steps, predicates and signs take one level each. -/
def nestedCost : Nat := 8

/-- Takes further levels. -/
def descend (levels : Nat) : Parse Unit := do
  modify fun s => { s with depth := s.depth + levels }
  if maxDepth < (← get).depth then reject σ .tooDeep

/-- Gives back the levels that a part has taken. -/
def nesting (p : Parse α) : Parse α := fun s =>
  match p s with
  | .ok a s' => .ok a { s' with depth := s.depth }
  | .error e s' => .error e { s' with depth := s.depth }

/-- Takes the variables that a part declares out of scope after it. -/
def binding (p : Parse α) : Parse α := fun s =>
  match p s with
  | .ok a s' => .ok a { s' with scope := s.scope }
  | .error e s' => .error e { s' with scope := s.scope }

/-- Brings a new variable into scope. Nothing is known of its type yet. -/
def declare (name : ExpandedName) : Parse RangeVariable := do
  let v : RangeVariable := ⟨(← get).nextId, name, .singleItem⟩
  modify fun s => { s with scope := v :: s.scope, nextId := s.nextId + 1 }
  return v

/-! ### Repetition -/

/-- Repeats a part on a value while the current token asks for it, at most `n` times. -/
def repeatAtMost (go : Token → Bool) (part : α → Parse α) : Nat → α → Parse α
  | 0, a => pure a
  | n + 1, a => do
    if go (← token) then repeatAtMost go part n (← part a) else pure a

/-- Repeats a part on a value while the current token asks for it. The part has to read past
that token: then no more rounds are possible than there are characters left, and one. -/
def repeatWhile (go : Token → Bool) (part : α → Parse α) (a : α) : Parse α := do
  repeatAtMost go part ((← get).cursor.rest.length + 1) a

/-- One or more of a part with commas between them. -/
def commaSeparated (part : Parse α) : Parse (List α) := do
  let first ← part
  let others ← repeatWhile (· = .comma)
    (fun others => do
      advance σ
      return (← part) :: others) []
  return first :: others.reverse

end Parse

end XPath
