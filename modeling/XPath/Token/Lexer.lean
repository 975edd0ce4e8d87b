import XPath.Name
import XPath.Number.Numeral
import XPath.Token
import XPath.Token.Trivia

/-!
# Reading one token

`Lexeme.read` splits a text that starts with no trivia into its first token and what follows.
It sees the text and the token before, and nothing else: positions are the business of the
cursor. A word is an operator after an operand; elsewhere it is a name, and the next token
after it decides which kind of name.
-/

namespace XPath

/-- What can be wrong with a text as a row of tokens. -/
inductive LexicalError
  | strayCharacter (c : Char)
  | unmatchedQuote
  | unclosedComment
deriving DecidableEq, Repr

/-- What is said about it. -/
def LexicalError.message : LexicalError → String
  | strayCharacter c => "Unexpected character '" ++ String.singleton c ++ "' in expression"
  | unmatchedQuote => "Unmatched quote in expression"
  | unclosedComment => "Unclosed XPath comment"

/-- A token with its value, the text it was written as, and the text after it. -/
structure Lexeme where
  token : Token
  value : String
  text : List Char
  rest : List Char
deriving DecidableEq, Repr

namespace Lexeme

/-! ### Strings -/

/-- The content of a string literal after its opening quote, and the text after its closing
quote. Inside the literal the quote is written twice. -/
def readQuoted (quote : Char) : List Char → Option (List Char × List Char)
  | [] => none
  | c :: cs =>
    if c = quote then
      match cs with
      | [] => some ([], [])
      | d :: ds =>
        if d = quote then (readQuoted quote ds).map fun (value, rest) => (quote :: value, rest)
        else some ([], d :: ds)
    else (readQuoted quote cs).map fun (value, rest) => (c :: value, rest)

/-- The content of a string literal as it is written inside these quotes. -/
def doubled (quote : Char) : List Char → List Char
  | [] => []
  | c :: cs => if c = quote then c :: c :: doubled quote cs else c :: doubled quote cs

/-- A string literal in these quotes. -/
def quoted (quote : Char) (value : List Char) : List Char :=
  quote :: (doubled quote value ++ [quote])

/-- The string literal that starts with this quote. -/
def readString (quote : Char) (cs : List Char) : Except LexicalError Lexeme :=
  match readQuoted quote cs with
  | some (value, rest) =>
    .ok ⟨.stringLiteral, String.ofList value, quoted quote value, rest⟩
  | none => .error .unmatchedQuote

/-! ### Numbers -/

/-- A number starts with a digit, or with a point before a digit. -/
def startsNumber : List Char → Bool
  | '.' :: d :: _ => Number.isDigit d
  | d :: _ => Number.isDigit d
  | [] => false

/-- The number at the head of a text. -/
def readNumber (cs : List Char) : Lexeme :=
  let (numeral, rest) := Number.Numeral.read cs
  ⟨.number, String.ofList numeral.text, numeral.text, rest⟩

/-! ### Stars -/

/-- A star is an operator after an operand. Before a colon and a name it stands for any
namespace, and elsewhere for any name. -/
def readStar (preceding : Token) (cs : List Char) : Lexeme :=
  if preceding.endsOperand then ⟨.operator (.arithmetic .mul), "", ['*'], cs⟩
  else match cs with
    | ':' :: c :: rest =>
      if isNameStart c then ⟨.localWildcard, "", ['*', ':'], c :: rest⟩
      else ⟨.star, "", ['*'], cs⟩
    | _ => ⟨.star, "", ['*'], cs⟩

/-! ### Words -/

/-- The text after a word, when the text starts with that word and the word ends there. -/
def afterWord? (word : List Char) (cs : List Char) : Option (List Char) :=
  if word.isPrefixOf cs && !(cs.drop word.length).head?.any isNameChar then
    some (cs.drop word.length)
  else none

/-- The type operator of which `word` is the first word, if its second word follows. -/
def readTypeOperator (word : List Char) (cs : List Char) : Except LexicalError (Option Lexeme) :=
  match Token.typeWord? (String.ofList word) with
  | none => .ok none
  | some (second, op) =>
    match Token.trivia cs with
    | none => .error .unclosedComment
    | some (gap, after) =>
      match afterWord? second.toList after with
      | none => .ok none
      | some rest =>
        .ok (some ⟨.typeOperator op, String.ofList word, word ++ gap ++ second.toList, rest⟩)

/-- A word where an operand may start: with a parenthesis after it, it is called or starts a
kind test; with a variable after it, it may start a binding; else it is a name. -/
def readOperandWord (word : List Char) (cs : List Char) : Except LexicalError Lexeme :=
  match Token.trivia cs with
  | none => .error .unclosedComment
  | some (gap, after) =>
    let value := String.ofList word
    match after with
    | '(' :: rest => .ok ⟨.ofCallWord value, value, word ++ gap ++ ['('], rest⟩
    | '$' :: _ => .ok ⟨(Token.bindingWord? value).getD .name, value, word, cs⟩
    | _ => .ok ⟨.name, value, word, cs⟩

/-- A word before the text `cs`, classified by the token before it. After a dollar or a namespace
wildcard it is a name whatever it is. Type operators are recognised after a slash too, where
they are not allowed, so that this can be said. -/
def readWord (preceding : Token) (word : List Char) (cs : List Char) :
    Except LexicalError Lexeme :=
  if preceding = .dollar ∨ preceding = .localWildcard then
    .ok ⟨.name, String.ofList word, word, cs⟩
  else do
    let typeOperator? ←
      if preceding.endsOperand ∨ preceding = .slash then readTypeOperator word cs else .ok none
    match typeOperator? with
    | some lexeme => .ok lexeme
    | none =>
      if preceding.endsOperand then
        let value := String.ofList word
        .ok ⟨(Token.linkWord? value).getD .name, value, word, cs⟩
      else readOperandWord word cs

/-- A name at the head of a text: an axis, a wildcard for the names of a namespace, or a word,
which may be two names with a colon between them. -/
def readName (preceding : Token) (cs : List Char) : Except LexicalError Lexeme :=
  let word := cs.takeWhile isNameChar
  match cs.dropWhile isNameChar with
  | ':' :: ':' :: rest => .ok ⟨.axis, String.ofList word, word ++ [':', ':'], rest⟩
  | ':' :: '*' :: rest => .ok ⟨.namespaceWildcard, String.ofList word, word ++ [':', '*'], rest⟩
  | ':' :: c :: rest =>
    if isNameStart c then
      readWord preceding (word ++ ':' :: (c :: rest).takeWhile isNameChar)
        ((c :: rest).dropWhile isNameChar)
    else readWord preceding word (':' :: c :: rest)
  | rest => readWord preceding word rest

/-! ### Tokens -/

/-- The token at the head of a text that starts with no trivia. -/
def read (preceding : Token) : List Char → Except LexicalError Lexeme
  | [] => .ok ⟨.eof, "", [], []⟩
  | c :: cs =>
    if c = '*' then .ok (readStar preceding cs)
    else if c = '"' ∨ c = '\'' then readString c cs
    else if startsNumber (c :: cs) then .ok (readNumber (c :: cs))
    else if isNameStart c then readName preceding (c :: cs)
    else match Token.symbol? (c :: cs) with
      | some (text, token) => .ok ⟨token, "", text, (c :: cs).drop text.length⟩
      | none => .error (.strayCharacter c)

end Lexeme

end XPath
