import XPath.Namespace
import XPath.Text.Letter

/-!
# Names

`isNCName` is the lexical form of a name without a colon. `LexicalQName` is a name as it is
written, with an optional qualifier that stands for its namespace, and `ExpandedName` a name as
it is meant, with the namespace itself. Two expanded names are equal exactly when namespace and
local part are; the qualifier they were written with is gone.
-/

namespace XPath

/-! ### Lexical forms -/

/-- The first character of a name: an underscore or a letter of any script. -/
def isNameStart (c : Char) : Bool :=
  c = '_' || Text.isAlphabetic c

/-- A later character of a name: digits, `-`, `.` and the middle dot may follow. -/
def isNameChar (c : Char) : Bool :=
  isNameStart c || Text.isAlphanumeric c || c = '-' || c = '.' || c = '\u00b7'

theorem isNameChar_of_isNameStart {c : Char} (h : isNameStart c = true) :
    isNameChar c = true := by
  simp [isNameChar, h]

/-- A name start followed by name characters. -/
def isNCName : List Char → Bool
  | [] => false
  | c :: cs => isNameStart c && cs.all isNameChar

/-- A name as written. The qualifier is empty for a name without a colon. -/
structure LexicalQName where
  qualifier : String
  localName : String
deriving DecidableEq, Repr

namespace LexicalQName

/-- Splits at the first colon. Both parts have to be names, and so has the whole text when it
holds no colon. -/
def parse? (s : String) : Option LexicalQName :=
  let head := s.toList.takeWhile (· ≠ ':')
  match s.toList.dropWhile (· ≠ ':') with
  | [] => if isNCName s.toList then some ⟨"", s⟩ else none
  | _ :: tail =>
    if isNCName head && isNCName tail then some ⟨String.ofList head, String.ofList tail⟩
    else none

end LexicalQName

/-! ### Expanded names -/

/-- A local name in a namespace. The empty namespace is no namespace. -/
structure ExpandedName where
  uri : String
  localName : String
deriving DecidableEq, Repr, Inhabited

namespace ExpandedName

/-- A name in no namespace. -/
def unqualified (localName : String) : ExpandedName :=
  ⟨"", localName⟩

/-- A name in the namespace `uri?`, or in none when that is absent. -/
def inNamespace (uri? : Option String) (localName : String) : ExpandedName :=
  ⟨uri?.getD "", localName⟩

/-- The name is in a namespace, and that namespace is `uri`. -/
def isIn (n : ExpandedName) (uri : String) : Bool :=
  n.uri ≠ "" && n.uri = uri

/-- The namespace in braces before the local name, for names in a namespace. -/
def clark (n : ExpandedName) : String :=
  if n.uri = "" then n.localName else "\x7b" ++ n.uri ++ "\x7d" ++ n.localName

/-- Written with the conventional qualifier in a well-known namespace, and with the namespace
spelled out in any other. -/
def render (n : ExpandedName) : String :=
  if n.uri = "" then n.localName
  else match Namespace.qualifier? n.uri with
    | some q => q ++ ":" ++ n.localName
    | none => "Q\x7b" ++ n.uri ++ "\x7d" ++ n.localName

end ExpandedName

end XPath
