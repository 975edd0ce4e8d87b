import XPath.Expr.Operator

/-!
# Tokens

The units that a source is read in. A word or a `*` may be an operator or a name; which of the
two it is depends on whether the token before it ends an operand.
-/

namespace XPath

/-- A kind of token. -/
inductive Token
  /-- the end of the source -/
  | eof
  /-- something that is no token -/
  | unknown
  | name
  /-- a name and the parenthesis after it -/
  | function
  /-- the keyword of a kind test and the parenthesis after it -/
  | nodeKind
  /-- the name of an axis and the two colons after it -/
  | axis
  /-- any name of a namespace: a qualifier, a colon and a star -/
  | namespaceWildcard
  /-- any namespace: a star and a colon, with a local name to follow -/
  | localWildcard
  | stringLiteral
  | number
  | dollar
  | atSign
  | leftParen
  | rightParen
  | leftBracket
  | rightBracket
  | leftBrace
  | rightBrace
  | comma
  | dot
  | dotDot
  | slash
  | slashSlash
  /-- a star that stands for any name -/
  | star
  | questionMark
  /-- an operator between two expressions; plus and minus may also be signs -/
  | operator (op : BinaryOperator)
  /-- an operator before a type -/
  | typeOperator (op : TypeOperator)
  /-- the word `if` and the parenthesis after it -/
  | ifWord
  | thenWord
  | elseWord
  | forWord
  | someWord
  | everyWord
  | inWord
  | returnWord
  | satisfiesWord
deriving DecidableEq, Repr

namespace Token

/-- How tightly the token binds, for operators. -/
def precedence? : Token → Option Nat
  | operator op => some op.precedence
  | typeOperator op => some op.precedence
  | _ => none

/-- The token ends an operand, so that an operator may follow. -/
def endsOperand : Token → Bool
  | name | stringLiteral | number | rightParen | rightBracket | dot | dotDot | star
  | namespaceWildcard => true
  | _ => false

/-- The token as it is shown in messages. -/
def text : Token → String
  | eof => "<eof>"
  | unknown => "<unknown>"
  | name => "<name>"
  | function => "<function>("
  | nodeKind => "<node-type>()"
  | axis => "<axis>::"
  | namespaceWildcard => "<prefix:*>"
  | localWildcard => "<*:local-name>"
  | stringLiteral => "<string-literal>"
  | number => "<numeric-literal>"
  | dollar => "$"
  | atSign => "@"
  | leftParen => "("
  | rightParen => ")"
  | leftBracket => "["
  | rightBracket => "]"
  | leftBrace => "\x7b"
  | rightBrace => "\x7d"
  | comma => ","
  | dot => "."
  | dotDot => ".."
  | slash => "/"
  | slashSlash => "//"
  | star => "*"
  | questionMark => "?"
  | operator op => op.symbol
  | typeOperator op => op.symbol
  | ifWord => "if"
  | thenWord => "then"
  | elseWord => "else"
  | forWord => "for"
  | someWord => "some"
  | everyWord => "every"
  | inWord => "in"
  | returnWord => "return"
  | satisfiesWord => "satisfies"

/-! ### Words and symbols -/

/-- The words that stand between operands. -/
def linkWord? : String → Option Token
  | "and" => some (operator .and)
  | "or" => some (operator .or)
  | "div" => some (operator (.arithmetic .div))
  | "idiv" => some (operator (.arithmetic .idiv))
  | "mod" => some (operator (.arithmetic .mod))
  | "to" => some (operator .range)
  | "union" => some (operator (.set .union))
  | "intersect" => some (operator (.set .intersect))
  | "except" => some (operator (.set .except))
  | "eq" => some (operator (.value .eq))
  | "ne" => some (operator (.value .ne))
  | "lt" => some (operator (.value .lt))
  | "le" => some (operator (.value .le))
  | "gt" => some (operator (.value .gt))
  | "ge" => some (operator (.value .ge))
  | "is" => some (operator (.node .is))
  | "then" => some thenWord
  | "else" => some elseWord
  | "in" => some inWord
  | "return" => some returnWord
  | "satisfies" => some satisfiesWord
  | _ => none

/-- The words that start a type operator, each with the word that has to follow. -/
def typeWord? : String → Option (String × TypeOperator)
  | "instance" => some ("of", .instanceOf)
  | "treat" => some ("as", .treatAs)
  | "cast" => some ("as", .castAs)
  | "castable" => some ("as", .castableAs)
  | _ => none

/-- The words that start a binding, when a variable follows. -/
def bindingWord? : String → Option Token
  | "for" => some forWord
  | "some" => some someWord
  | "every" => some everyWord
  | _ => none

/-- The words that start a kind test, when a parenthesis follows. -/
def kindWords : List String :=
  ["node", "text", "comment", "processing-instruction", "document-node", "element", "attribute",
    "schema-element", "schema-attribute", "namespace-node", "item", "empty-sequence"]

/-- The token of a word and the parenthesis after it. -/
def ofCallWord (word : String) : Token :=
  if word = "if" then ifWord else if word ∈ kindWords then nodeKind else function

/-- The tokens that are written with the same characters wherever they stand. One that begins
with another comes before it. -/
def symbols : List (List Char × Token) :=
  [(['!', '='], operator (.general .ne)),
    (['<', '='], operator (.general .le)),
    (['<', '<'], operator (.node .precedes)),
    (['<'], operator (.general .lt)),
    (['>', '='], operator (.general .ge)),
    (['>', '>'], operator (.node .follows)),
    (['>'], operator (.general .gt)),
    (['='], operator (.general .eq)),
    (['|'], operator (.set .union)),
    (['+'], operator (.arithmetic .add)),
    (['-'], operator (.arithmetic .sub)),
    (['/', '/'], slashSlash),
    (['/'], slash),
    (['.', '.'], dotDot),
    (['.'], dot),
    (['('], leftParen),
    ([')'], rightParen),
    (['['], leftBracket),
    ([']'], rightBracket),
    (['\x7b'], leftBrace),
    (['\x7d'], rightBrace),
    ([','], comma),
    (['@'], atSign),
    (['$'], dollar),
    (['?'], questionMark)]

/-- The symbol at the head of a text. -/
def symbol? (cs : List Char) : Option (List Char × Token) :=
  symbols.find? fun (spelling, _) => spelling.isPrefixOf cs

end Token

end XPath
