/-!
# Blanks

The four characters that separate tokens. Other white space of Unicode is no blank.
-/

namespace XPath.Text

/-- A space, tab, line feed or carriage return. -/
def isBlank (c : Char) : Bool :=
  c = ' ' || c = '\t' || c = '\n' || c = '\r'

/-- A text without the blanks at its two ends. -/
def trimBlanks (s : String) : String :=
  String.ofList ((s.toList.dropWhile isBlank).reverse.dropWhile isBlank).reverse

end XPath.Text
