import XPath.Context.Static
import XPath.Expr.Render
import XPath.Expr.Same
import XPath.Parse.Expression

/-!
# Reading expressions, patterns and types

The entry points. `Parser` reads several expressions or types one after another from one source;
the functions after it read one from its start to its end.
-/

namespace XPath

/-- What came of reading something, with all warnings so far. -/
structure Reading (α : Type) where
  outcome : Except Error α
  warnings : List String

/-- A reader of one source, which may be used several times. -/
structure Parser where
  setting : Setting
  state : ParseState

namespace Parser

/-- A reader that starts at a byte offset of a source. -/
def ofSource (source : String) (start : Nat) (language : Language) (host : Resolver)
    (warnings : List String) : Parser :=
  { setting := { language, host }
    state := { cursor := .ofSource source start, warnings } }

/-- Carries out an action, which may fail, and gives the reader after it. -/
def run (p : Parser) (action : Setting → Parse α) : Except Error α × Parser :=
  match action p.setting p.state with
  | .ok a s => (.ok a, { p with state := s })
  | .error e s => (.error e, { p with state := s })

/-- Reads an expression that ends before a token. -/
def expression (p : Parser) (terminator : Token) : Except Error Expr × Parser :=
  p.run (Parse.complete · terminator)

/-- Reads a sequence type up to the end of the source. -/
def sequenceType (p : Parser) : Except Error SequenceType × Parser :=
  p.run Parse.completeType

/-- The byte offset of the current token: after an expression, of the token that ended it. -/
def endOffset (p : Parser) : Nat :=
  p.state.cursor.offset

/-- The number of variables in scope. -/
def inScope (p : Parser) : Nat :=
  p.state.scope.length

/-- The outcome of an action with the warnings after it. -/
def reading (result : Except Error α × Parser) : Reading α :=
  ⟨result.1, result.2.state.warnings⟩

end Parser

/-- Reads an expression from a byte offset to a token that ends it. -/
def readExpressionAt (source : String) (start : Nat) (terminator : Token) (host : Resolver)
    (warnings : List String) : Reading Expr :=
  Parser.reading ((Parser.ofSource source start .expression host warnings).expression terminator)

/-- Reads an expression. -/
def readExpression (source : String) (host : Resolver) (warnings : List String) : Reading Expr :=
  readExpressionAt source 0 .eof host warnings

/-- Reads a pattern. -/
def readPattern (source : String) (host : Resolver) (warnings : List String) : Reading Expr :=
  Parser.reading ((Parser.ofSource source 0 .pattern host warnings).expression .eof)

/-- Reads a sequence type. -/
def readSequenceType (source : String) (host : Resolver) (warnings : List String) :
    Reading SequenceType :=
  Parser.reading (Parser.ofSource source 0 .sequenceType host warnings).sequenceType

/-- Two outcomes of reading are the same: both are the same expression, or both the same error. -/
def sameOutcome : Except Error Expr → Except Error Expr → Bool
  | .ok a, .ok b => a.same b
  | .error a, .error b => a.same b
  | _, _ => false

/-- An outcome of reading as text. -/
def renderOutcome : Except Error Expr → String
  | .ok e => e.render
  | .error e => e.render

end XPath
