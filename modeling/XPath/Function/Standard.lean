import XPath.Function.Library

/-!
# The standard library

The core functions of XPath 2.0 and those that XSLT 2.0 adds, all in the function namespace,
with the constructor functions of the atomic types.
-/

namespace XPath.FunctionLibrary.Standard

/-! ### Result types -/

/-- One atomic value. -/
def one (t : AtomicType) : SequenceType := ⟨.atomic t, .exactlyOne⟩

/-- At most one atomic value. -/
def optional (t : AtomicType) : SequenceType := ⟨.atomic t, .zeroOrOne⟩

/-- Any number of atomic values. -/
def many (t : AtomicType) : SequenceType := ⟨.atomic t, .zeroOrMore⟩

/-- Items of any type. -/
def items (o : Occurrence) : SequenceType := ⟨.anyItem, o⟩

/-- Nodes that pass a test. -/
def nodes (test : NodeTest) (o : Occurrence) : SequenceType := ⟨.node test, o⟩

/-! ### Signatures -/

/-- Accessors of nodes, and errors. -/
def accessors : List (String × Signature) :=
  [("node-name", ⟨1, some 1, .system, optional .qname⟩),
    ("nilled", ⟨1, some 1, .system, optional .boolean⟩),
    ("string", ⟨0, some 1, .system, one .string⟩),
    ("data", ⟨1, some 1, .system, many .anyAtomicType⟩),
    ("base-uri", ⟨0, some 1, .system, optional .anyURI⟩),
    ("document-uri", ⟨1, some 1, .system, optional .anyURI⟩),
    ("error", ⟨0, some 3, .system, items .zeroOrMore⟩),
    ("trace", ⟨2, some 2, .system, items .zeroOrMore⟩)]

/-- Numbers. -/
def numeric : List (String × Signature) :=
  [("abs", ⟨1, some 1, .system, optional .anyAtomicType⟩),
    ("ceiling", ⟨1, some 1, .system, optional .anyAtomicType⟩),
    ("floor", ⟨1, some 1, .system, optional .anyAtomicType⟩),
    ("round", ⟨1, some 1, .system, optional .anyAtomicType⟩),
    ("round-half-to-even", ⟨1, some 2, .system, optional .anyAtomicType⟩),
    ("number", ⟨0, some 1, .system, one .double⟩)]

/-- Strings. -/
def strings : List (String × Signature) :=
  [("codepoints-to-string", ⟨1, some 1, .system, one .string⟩),
    ("string-to-codepoints", ⟨1, some 1, .system, many .integer⟩),
    ("compare", ⟨2, some 3, .system, optional .integer⟩),
    ("codepoint-equal", ⟨2, some 2, .system, optional .boolean⟩),
    ("concat", ⟨2, none, .system, one .string⟩),
    ("string-join", ⟨2, some 2, .system, one .string⟩),
    ("substring", ⟨2, some 3, .system, one .string⟩),
    ("string-length", ⟨0, some 1, .system, one .integer⟩),
    ("normalize-space", ⟨0, some 1, .system, one .string⟩),
    ("normalize-unicode", ⟨1, some 2, .system, one .string⟩),
    ("upper-case", ⟨1, some 1, .system, one .string⟩),
    ("lower-case", ⟨1, some 1, .system, one .string⟩),
    ("translate", ⟨3, some 3, .system, one .string⟩),
    ("encode-for-uri", ⟨1, some 1, .system, one .string⟩),
    ("iri-to-uri", ⟨1, some 1, .system, one .string⟩),
    ("escape-html-uri", ⟨1, some 1, .system, one .string⟩),
    ("contains", ⟨2, some 3, .system, one .boolean⟩),
    ("starts-with", ⟨2, some 3, .system, one .boolean⟩),
    ("ends-with", ⟨2, some 3, .system, one .boolean⟩),
    ("substring-before", ⟨2, some 3, .system, one .string⟩),
    ("substring-after", ⟨2, some 3, .system, one .string⟩),
    ("matches", ⟨2, some 3, .system, one .boolean⟩),
    ("replace", ⟨3, some 4, .system, one .string⟩),
    ("tokenize", ⟨2, some 3, .system, many .string⟩),
    ("resolve-uri", ⟨1, some 2, .system, optional .anyURI⟩)]

/-- Truth values. -/
def booleans : List (String × Signature) :=
  [("true", ⟨0, some 0, .system, one .boolean⟩),
    ("false", ⟨0, some 0, .system, one .boolean⟩),
    ("not", ⟨1, some 1, .system, one .boolean⟩),
    ("boolean", ⟨1, some 1, .system, one .boolean⟩)]

/-- Durations, dates and times. -/
def dates : List (String × Signature) :=
  [("seconds-from-duration", ⟨1, some 1, .system, optional .decimal⟩),
    ("years-from-duration", ⟨1, some 1, .system, optional .integer⟩),
    ("months-from-duration", ⟨1, some 1, .system, optional .integer⟩),
    ("days-from-duration", ⟨1, some 1, .system, optional .integer⟩),
    ("hours-from-duration", ⟨1, some 1, .system, optional .integer⟩),
    ("minutes-from-duration", ⟨1, some 1, .system, optional .integer⟩),
    ("year-from-dateTime", ⟨1, some 1, .system, optional .integer⟩),
    ("month-from-dateTime", ⟨1, some 1, .system, optional .integer⟩),
    ("day-from-dateTime", ⟨1, some 1, .system, optional .integer⟩),
    ("hours-from-dateTime", ⟨1, some 1, .system, optional .integer⟩),
    ("minutes-from-dateTime", ⟨1, some 1, .system, optional .integer⟩),
    ("year-from-date", ⟨1, some 1, .system, optional .integer⟩),
    ("month-from-date", ⟨1, some 1, .system, optional .integer⟩),
    ("day-from-date", ⟨1, some 1, .system, optional .integer⟩),
    ("hours-from-time", ⟨1, some 1, .system, optional .integer⟩),
    ("minutes-from-time", ⟨1, some 1, .system, optional .integer⟩),
    ("seconds-from-dateTime", ⟨1, some 1, .system, optional .decimal⟩),
    ("seconds-from-time", ⟨1, some 1, .system, optional .decimal⟩),
    ("timezone-from-dateTime", ⟨1, some 1, .system, optional .dayTimeDuration⟩),
    ("timezone-from-date", ⟨1, some 1, .system, optional .dayTimeDuration⟩),
    ("timezone-from-time", ⟨1, some 1, .system, optional .dayTimeDuration⟩),
    ("adjust-dateTime-to-timezone", ⟨1, some 2, .system, optional .dateTime⟩),
    ("adjust-date-to-timezone", ⟨1, some 2, .system, optional .date⟩),
    ("adjust-time-to-timezone", ⟨1, some 2, .system, optional .time⟩),
    ("dateTime", ⟨2, some 2, .system, optional .dateTime⟩)]

/-- Names as values. -/
def qnames : List (String × Signature) :=
  [("resolve-QName", ⟨2, some 2, .system, optional .qname⟩),
    ("QName", ⟨2, some 2, .system, one .qname⟩),
    ("prefix-from-QName", ⟨1, some 1, .system, optional .ncname⟩),
    ("local-name-from-QName", ⟨1, some 1, .system, optional .ncname⟩),
    ("namespace-uri-from-QName", ⟨1, some 1, .system, optional .anyURI⟩),
    ("namespace-uri-for-prefix", ⟨2, some 2, .system, optional .anyURI⟩),
    ("in-scope-prefixes", ⟨1, some 1, .system, many .string⟩)]

/-- Nodes. -/
def nodeFunctions : List (String × Signature) :=
  [("name", ⟨0, some 1, .system, one .string⟩),
    ("local-name", ⟨0, some 1, .system, one .string⟩),
    ("namespace-uri", ⟨0, some 1, .system, one .anyURI⟩),
    ("lang", ⟨1, some 2, .system, one .boolean⟩),
    ("root", ⟨0, some 1, .system, nodes .anyNode .zeroOrOne⟩)]

/-- Sequences. -/
def sequences : List (String × Signature) :=
  [("index-of", ⟨2, some 3, .system, many .integer⟩),
    ("empty", ⟨1, some 1, .system, one .boolean⟩),
    ("exists", ⟨1, some 1, .system, one .boolean⟩),
    ("distinct-values", ⟨1, some 2, .system, many .anyAtomicType⟩),
    ("insert-before", ⟨3, some 3, .system, items .zeroOrMore⟩),
    ("remove", ⟨2, some 2, .system, items .zeroOrMore⟩),
    ("reverse", ⟨1, some 1, .system, items .zeroOrMore⟩),
    ("subsequence", ⟨2, some 3, .system, items .zeroOrMore⟩),
    ("unordered", ⟨1, some 1, .system, items .zeroOrMore⟩),
    ("zero-or-one", ⟨1, some 1, .system, items .zeroOrOne⟩),
    ("one-or-more", ⟨1, some 1, .system, items .oneOrMore⟩),
    ("exactly-one", ⟨1, some 1, .system, items .exactlyOne⟩),
    ("deep-equal", ⟨2, some 3, .system, one .boolean⟩),
    ("count", ⟨1, some 1, .system, one .integer⟩),
    ("avg", ⟨1, some 1, .system, optional .anyAtomicType⟩),
    ("max", ⟨1, some 2, .system, optional .anyAtomicType⟩),
    ("min", ⟨1, some 2, .system, optional .anyAtomicType⟩),
    ("sum", ⟨1, some 2, .system, optional .anyAtomicType⟩),
    ("id", ⟨1, some 2, .system, nodes (.kind .element) .zeroOrMore⟩),
    ("idref", ⟨1, some 2, .system, nodes .anyNode .zeroOrMore⟩),
    ("doc", ⟨1, some 1, .system, nodes (.kind .document) .zeroOrOne⟩),
    ("doc-available", ⟨1, some 1, .system, one .boolean⟩),
    ("collection", ⟨0, some 1, .system, nodes .anyNode .zeroOrMore⟩)]

/-- The context of evaluation. -/
def contextual : List (String × Signature) :=
  [("position", ⟨0, some 0, .system, one .integer⟩),
    ("last", ⟨0, some 0, .system, one .integer⟩),
    ("current-dateTime", ⟨0, some 0, .system, one .dateTime⟩),
    ("current-date", ⟨0, some 0, .system, one .date⟩),
    ("current-time", ⟨0, some 0, .system, one .time⟩),
    ("implicit-timezone", ⟨0, some 0, .system, one .dayTimeDuration⟩),
    ("default-collation", ⟨0, some 0, .system, one .string⟩),
    ("static-base-uri", ⟨0, some 0, .system, optional .anyURI⟩)]

/-- The functions that XSLT adds. -/
def stylesheet : List (String × Signature) :=
  [("current", ⟨0, some 0, .system, items .exactlyOne⟩),
    ("current-group", ⟨0, some 0, .currentGroup, items .zeroOrMore⟩),
    ("current-grouping-key", ⟨0, some 0, .currentGroupingKey, optional .anyAtomicType⟩),
    ("regex-group", ⟨1, some 1, .regexGroup, one .string⟩),
    ("key", ⟨2, some 3, .system, nodes .anyNode .zeroOrMore⟩),
    ("document", ⟨1, some 2, .system, nodes .anyNode .zeroOrMore⟩),
    ("format-number", ⟨2, some 3, .system, one .string⟩),
    ("format-dateTime", ⟨2, some 5, .system, optional .string⟩),
    ("format-date", ⟨2, some 5, .system, optional .string⟩),
    ("format-time", ⟨2, some 5, .system, optional .string⟩),
    ("system-property", ⟨1, some 1, .system, one .string⟩),
    ("element-available", ⟨1, some 1, .system, one .boolean⟩),
    ("function-available", ⟨1, some 2, .system, one .boolean⟩),
    ("type-available", ⟨1, some 1, .system, one .boolean⟩),
    ("generate-id", ⟨0, some 1, .system, one .string⟩),
    ("unparsed-entity-uri", ⟨1, some 1, .system, one .anyURI⟩),
    ("unparsed-entity-public-id", ⟨1, some 1, .system, one .string⟩),
    ("unparsed-text", ⟨1, some 2, .system, optional .string⟩),
    ("unparsed-text-available", ⟨1, some 2, .system, one .boolean⟩)]

/-- All of them. -/
def all : List (String × Signature) :=
  accessors ++ numeric ++ strings ++ booleans ++ dates ++ qnames ++ nodeFunctions ++ sequences ++
    contextual ++ stylesheet

end XPath.FunctionLibrary.Standard

namespace XPath

/-- The core library of XPath with the additions of XSLT. -/
def FunctionLibrary.standard : FunctionLibrary where
  entries := Standard.all.map fun (localName, s) => (⟨Namespace.functions, localName⟩, s)
  constructors := true

end XPath
