import XPath.Token.Lexer

/-!
# The cursor

A cursor stands in a source behind its current token. It keeps what has been read, so that an
error can show it, and counts positions in bytes of UTF-8. Reading can fail, and then the
cursor stays where the reading failed: before an unclosed comment, behind a stray character,
and at the end of the source for an unmatched quote.
-/

namespace XPath

/-- The number of bytes a text takes in UTF-8. -/
def utf8Length (cs : List Char) : Nat :=
  cs.foldr (fun c n => c.utf8Size + n) 0

theorem utf8Length_cons (c : Char) (cs : List Char) :
    utf8Length (c :: cs) = c.utf8Size + utf8Length cs :=
  rfl

/-- A place in a source and the token before it. -/
structure Cursor where
  /-- What has been read since the start, last character first. -/
  seen : List Char
  rest : List Char
  /-- The byte offset of the place. -/
  position : Nat
  token : Token
  value : String
  /-- The byte offset of the current token. -/
  offset : Nat
deriving DecidableEq, Repr

namespace Cursor

/-- Skips whole characters as long as they fit into a number of bytes; gives the bytes skipped
and the text after them. -/
def skipBytes : Nat → List Char → Nat × List Char
  | _, [] => (0, [])
  | n, c :: cs =>
    if c.utf8Size ≤ n then
      let (bytes, rest) := skipBytes (n - c.utf8Size) cs
      (c.utf8Size + bytes, rest)
    else (0, c :: cs)

/-- The cursor before the first token, at a byte offset. An offset inside a character moves down
to where the character starts, and one past the end to the end. -/
def ofSource (source : String) (start : Nat) : Cursor :=
  let (position, rest) := skipBytes start source.toList
  { seen := [], rest, position, token := .eof, value := "", offset := position }

/-- Moves past a text, with the text after it. -/
def move (c : Cursor) (text rest : List Char) : Cursor :=
  { c with seen := text.reverse ++ c.seen, rest, position := c.position + utf8Length text }

/-- Reads the next token. -/
def advance (c : Cursor) : Except LexicalError Unit × Cursor :=
  match Token.trivia c.rest with
  | none => (.error .unclosedComment, c)
  | some (gap, rest) =>
    let c := c.move gap rest
    let c := { c with value := "", offset := c.position }
    match Lexeme.read c.token rest with
    | .ok l => (.ok (), { c.move l.text l.rest with token := l.token, value := l.value })
    | .error (.strayCharacter d) =>
      (.error (.strayCharacter d), { c.move [d] (rest.drop 1) with token := .unknown })
    | .error .unmatchedQuote =>
      (.error .unmatchedQuote, { c.move rest [] with token := .unknown })
    | .error .unclosedComment => (.error .unclosedComment, c)

/-- The next token will be read as one that follows an operand. An occurrence mark ends a type,
although it looks like an operator. -/
def endOperand (c : Cursor) : Cursor :=
  { c with token := .rightParen }

/-! ### What has been read -/

/-- The most characters shown of what has been read. -/
def excerptLength : Nat := 30

/-- The end of what has been read, with three dots before it when it is not all. -/
def excerpt (c : Cursor) : String :=
  let tail := String.ofList (c.seen.take excerptLength).reverse
  if (c.seen.drop excerptLength).isEmpty then tail else "..." ++ tail

/-- The current token as it is shown in messages: names and calls with their text. -/
def describe (c : Cursor) : String :=
  match c.token with
  | .name => "name \"" ++ c.value ++ "\""
  | .unknown => "(unknown token)"
  | .function => "\"" ++ c.value ++ "(\""
  | t => "\"" ++ t.text ++ "\""

end Cursor

end XPath
