import XPath.Name

/-!
# Errors

An error has a kind, a code, a message and, once it has been raised somewhere in a source, the
text that says where. Codes are expanded names, because a host may raise codes of its own;
`ErrorCode` lists the standard ones that are raised here.
-/

namespace XPath

/-- Whether an error is found when an expression is read or when it is evaluated. -/
inductive ErrorKind
  | static
  | dynamic
deriving DecidableEq, Repr

/-- The standard error codes. -/
inductive ErrorCode
  /-- syntax error -/
  | XPST0003
  /-- undeclared variable, type or schema component -/
  | XPST0008
  /-- no function of this name and number of arguments -/
  | XPST0017
  /-- unknown or non-atomic type where an atomic one is needed -/
  | XPST0051
  /-- cast to a type that has no values of its own -/
  | XPST0080
  /-- namespace qualifier without a declaration -/
  | XPST0081
  /-- type error -/
  | XPTY0004
  /-- a value that does not have the type it is treated as -/
  | XPDY0050
  /-- text that is not in the lexical form of the type it is cast to -/
  | FORG0001
  /-- qualifier without a declaration in a cast -/
  | FONS0004
  /-- syntax error in a pattern -/
  | XTSE0340
  /-- attribute value template without its closing brace -/
  | XTSE0350
  /-- the current group in a pattern -/
  | XTSE1060
  /-- the current grouping key in a pattern -/
  | XTSE1070
  /-- a function that is unknown under backwards compatible processing -/
  | XTDE1425
  /-- any other code -/
  | unknown
deriving DecidableEq, Repr

namespace ErrorCode

/-- Every code once. -/
def all : List ErrorCode :=
  [XPST0003, XPST0008, XPST0017, XPST0051, XPST0080, XPST0081, XPTY0004, XPDY0050, FORG0001,
    FONS0004, XTSE0340, XTSE0350, XTSE1060, XTSE1070, XTDE1425, unknown]

/-- The local part of the code as a name. -/
def localName : ErrorCode → String
  | XPST0003 => "XPST0003"
  | XPST0008 => "XPST0008"
  | XPST0017 => "XPST0017"
  | XPST0051 => "XPST0051"
  | XPST0080 => "XPST0080"
  | XPST0081 => "XPST0081"
  | XPTY0004 => "XPTY0004"
  | XPDY0050 => "XPDY0050"
  | FORG0001 => "FORG0001"
  | FONS0004 => "FONS0004"
  | XTSE0340 => "XTSE0340"
  | XTSE0350 => "XTSE0350"
  | XTSE1060 => "XTSE1060"
  | XTSE1070 => "XTSE1070"
  | XTDE1425 => "XTDE1425"
  | unknown => "UNKNOWN"

/-- The code as it is printed. -/
def text (c : ErrorCode) : String :=
  "err:" ++ c.localName

/-- The code as a name. -/
def name (c : ErrorCode) : ExpandedName :=
  ⟨Namespace.errors, c.localName⟩

/-- The code that is printed as `s`, and `unknown` when none is. -/
def ofText (s : String) : ErrorCode :=
  (all.find? (·.text = s)).getD unknown

end ErrorCode

/-- Something wrong with an expression. -/
structure Error where
  kind : ErrorKind
  code : ExpandedName
  message : String
  /-- Where it was raised, as text that goes before the message. -/
  location : Option String := none
  /-- Another error, of a number that could not be read, lies beneath it. -/
  hasCause : Bool := false
deriving DecidableEq, Repr

namespace Error

/-- A static error with a standard code. -/
def static (code : ErrorCode) (message : String) : Error :=
  { kind := .static, code := code.name, message }

/-- A dynamic error with a standard code. -/
def dynamic (code : ErrorCode) (message : String) : Error :=
  { kind := .dynamic, code := code.name, message }

/-- It is found before evaluation. -/
def isStatic (e : Error) : Bool :=
  e.kind = .static

/-- The standard code it carries, or `unknown`. -/
def standardCode (e : Error) : ErrorCode :=
  if e.code.isIn Namespace.errors then .ofText ("err:" ++ e.code.localName) else .unknown

/-- The code as it is printed: standard codes with their qualifier, others with the namespace
spelled out. -/
def codeText (e : Error) : String :=
  if e.code.uri = Namespace.errors then "err:" ++ e.code.localName
  else if e.code.uri = "" then e.code.localName
  else "Q\x7b" ++ e.code.uri ++ "\x7d" ++ e.code.localName

/-- The error at `location`. -/
def locatedAt (e : Error) (location : String) : Error :=
  { e with location := some location }

/-- Location, message and code. -/
def render (e : Error) : String :=
  e.location.getD "" ++ e.message ++ " (" ++ e.codeText ++ ")"

/-- Two errors report the same: kind, code, message and location agree. What lies beneath them
is not compared. -/
def same (a b : Error) : Bool :=
  a.kind = b.kind && a.code = b.code && a.message = b.message && a.location = b.location

end Error

end XPath
