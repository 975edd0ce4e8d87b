import XPath.Error
import XPath.Token.Lexer
import XPath.Types.Atomic

/-!
# Faults

Everything that can be wrong with a source, as a cause. What is said about it and the code it is
reported with are decided here; where it happened is added by the reader. A fault of syntax
has no code of its own, since patterns report them with another code than expressions.
-/

namespace XPath

/-- The grammar that is read. -/
inductive Language
  | expression
  | pattern
  | sequenceType
deriving DecidableEq, Repr

namespace Language

/-- The language as it is called in messages. -/
def displayName : Language → String
  | expression => "XPath"
  | pattern => "XSLT Pattern"
  | sequenceType => "SequenceType"

/-- The code of a syntax error. -/
def defaultCode : Language → ErrorCode
  | pattern => .XTSE0340
  | _ => .XPST0003

end Language

/-- A cause of failure. Tokens are given as they are shown in messages. -/
inductive Fault
  | lexical (error : LexicalError)
  | tooDeep
  | expected (token : Token) (found : String)
  | beyondExpression (found : String)
  | beyondType (found : String)
  | unclosedTemplate
  /-- an operator that may not have this operand without parentheses -/
  | typeOperand (found : Token)
  | typeOperatorAfterSlash (found : Token)
  | unexpectedToken (found : String)
  | malformedName (name : String)
  | malformedFunctionName (name : String)
  | malformedLocalName (name : String)
  | malformedNumber (text : String)
  /-- an attribute mark without a test -/
  | attributeTest
  | unknownAxis (name : String)
  | axisTest (found : String)
  | nodeTest
  /-- a kind test that is a type only -/
  | kindTest (word : String)
  | noArguments (word : String)
  | namespaceTest
  | documentTest
  | schemaTestName
  | schemaTestStar
  | schemaTestContent
  | testName (found : Token)
  | testEnd
  | contentStar
  | contentName (found : Token)
  | instructionColon
  | instructionName (name : String)
  | instructionTarget
  | instructionString
  | typeName (found : Token)
  | unknownAtomicType (name : String)
  | notAtomic (name : String)
  | notBuiltin (name : String)
  | noSchema (uri : String)
  | unknownType (name : String)
  | noElementDeclaration (name : String)
  | noAttributeDeclaration (name : String)
  | notCastable (type : AtomicType)
  | undeclaredVariable (name : String)
  /-- a qualifier without a namespace, with what the host says about it -/
  | undeclaredQualifier (message : String)
  | noFunction (name : ExpandedName) (arity : Nat) (known : List Nat)
  | currentGroup
  | currentGroupingKey
  | malformedQName (text : String)
  | undeclaredQNameQualifier (qualifier : String)
deriving DecidableEq, Repr

namespace Fault

/-- The code of a fault that has one of its own. -/
def ownCode? : Fault → Option ErrorCode
  | malformedFunctionName _ => some .XPST0003
  | unclosedTemplate => some .XTSE0350
  | instructionString => some .XPTY0004
  | unknownAtomicType _ | notAtomic _ | notBuiltin _ | noSchema _ => some .XPST0051
  | unknownType _ | noElementDeclaration _ | noAttributeDeclaration _ | undeclaredVariable _ =>
    some .XPST0008
  | notCastable _ => some .XPST0080
  | undeclaredQualifier _ => some .XPST0081
  | noFunction _ _ _ => some .XPST0017
  | currentGroup => some .XTSE1060
  | currentGroupingKey => some .XTSE1070
  | malformedQName _ => some .FORG0001
  | undeclaredQNameQualifier _ => some .FONS0004
  | _ => none

/-- Numbers with a word between them. -/
def joinNumbers (word : String) (ns : List Nat) : String :=
  word.intercalate (ns.map toString)

/-- What is said about a fault. -/
def message : Fault → String
  | lexical e => e.message
  | tooDeep => "Expression is nested too deeply"
  | expected token found => "expected \"" ++ token.text ++ "\", found " ++ found
  | beyondExpression found => "Unexpected token " ++ found ++ " beyond end of expression"
  | beyondType found => "Unexpected token " ++ found ++ " beyond end of SequenceType"
  | unclosedTemplate => "Missing curly brace after expression in attribute value template"
  | typeOperand found => "Left operand of '" ++ found.text ++ "' needs parentheses"
  | typeOperatorAfterSlash found => "Operator '" ++ found.text ++ "' is not allowed after '/'"
  | unexpectedToken found => "Unexpected token " ++ found ++ " in path expression"
  | malformedName name => "Invalid QName \x7b" ++ name ++ "\x7d"
  | malformedFunctionName name => "Function name is not a valid QName: " ++ name ++ "()"
  | malformedLocalName name => "Local name [" ++ name ++ "] contains invalid characters"
  | malformedNumber text => "Invalid numeric literal \"" ++ text ++ "\""
  | attributeTest => "@ must be followed by a NodeTest"
  | unknownAxis name => "'" ++ name ++ "' is not a valid axis name"
  | axisTest found => "Unexpected token " ++ found ++ " after axis name"
  | nodeTest => "Unrecognized node test"
  | kindTest word => word ++ "() is not allowed in a path expression"
  | noArguments word => "No arguments are allowed in " ++ word ++ "()"
  | namespaceTest => "namespace-node() test is not allowed in XPath 2.0/XQuery 1.0"
  | documentTest => "Argument to document-node() must be an element type descriptor"
  | schemaTestName => "schema-element() and schema-attribute() require a name to be supplied"
  | schemaTestStar =>
    "schema-element() and schema-attribute() must specify an actual name, not '*'"
  | schemaTestContent => "schema-element() and schema-attribute() must have one argument only"
  | testName found => "Unexpected " ++ found.text ++ " after '(' in SequenceType"
  | testEnd => "Expected ')' or ',' in SequenceType"
  | contentStar => "'*' is not permitted as the second argument of element() and attribute()"
  | contentName found => "Unexpected " ++ found.text ++ " after ',' in SequenceType"
  | instructionColon => "Processing instruction name must not contain a colon"
  | instructionName name =>
    "Invalid processing instruction name. Invalid QName \x7b" ++ name ++ "\x7d"
  | instructionTarget => "Processing instruction name must be a QName or a string literal"
  | instructionString => "Processing instruction name must be a valid NCName"
  | typeName found => "Expected type name in SequenceType, found " ++ found.text
  | unknownAtomicType name => "Unknown atomic type " ++ name
  | notAtomic name => "The type " ++ name ++ " is not atomic"
  | notBuiltin name =>
    "Type " ++ name ++ " is not a built-in atomic type and cannot be used here"
  | noSchema uri => "There is no imported schema for the namespace " ++ uri
  | unknownType name => "Type " ++ name ++ " is not a known type"
  | noElementDeclaration name =>
    "There is no declaration for element <" ++ name ++ "> in an imported schema"
  | noAttributeDeclaration name =>
    "There is no declaration for attribute @" ++ name ++ " in an imported schema"
  | notCastable type => "No value is castable to " ++ type.render
  | undeclaredVariable name => "Variable $" ++ name ++ " has not been declared"
  | undeclaredQualifier message => message
  | noFunction name arity known =>
    "Cannot find a matching " ++ toString arity ++ "-argument function named " ++ name.clark ++
      "()" ++
      if known = [] then ""
      else ". The function exists with " ++ joinNumbers " or " known ++ " argument(s)"
  | currentGroup => "The current-group() function cannot be used in a pattern"
  | currentGroupingKey => "The current-grouping-key() function cannot be used in a pattern"
  | malformedQName text => "Invalid QName \"" ++ text ++ "\""
  | undeclaredQNameQualifier qualifier =>
    "Namespace prefix '" ++ qualifier ++ "' has not been declared"

/-- The fault is a number that could not be read. -/
def isNumeric : Fault → Bool
  | malformedNumber _ => true
  | _ => false

/-- The static error that reports the fault, without its place. -/
def error (f : Fault) (language : Language) : Error :=
  { Error.static (f.ownCode?.getD language.defaultCode) f.message with hasCause := f.isNumeric }

end Fault

end XPath
