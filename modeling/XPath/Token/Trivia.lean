import XPath.Text.Blank

/-!
# Trivia

Blanks and comments, which may stand between any two tokens. Comments nest.
-/

namespace XPath.Token

/-- Splits a text into the blanks and comments at its head and what follows them, given how
many comments are open already. There is no answer when a comment is not closed. -/
def splitTrivia : Nat → List Char → Option (List Char × List Char)
  | 0, [] => some ([], [])
  | 0, '(' :: ':' :: cs => (splitTrivia 1 cs).map fun (gap, rest) => ('(' :: ':' :: gap, rest)
  | 0, c :: cs =>
    if Text.isBlank c then (splitTrivia 0 cs).map fun (gap, rest) => (c :: gap, rest)
    else some ([], c :: cs)
  | _ + 1, [] => none
  | n + 1, '(' :: ':' :: cs =>
    (splitTrivia (n + 2) cs).map fun (gap, rest) => ('(' :: ':' :: gap, rest)
  | n + 1, ':' :: ')' :: cs =>
    (splitTrivia n cs).map fun (gap, rest) => (':' :: ')' :: gap, rest)
  | n + 1, c :: cs => (splitTrivia (n + 1) cs).map fun (gap, rest) => (c :: gap, rest)

/-- Splits a text into the blanks and comments at its head and what follows them. -/
def trivia (cs : List Char) : Option (List Char × List Char) :=
  splitTrivia 0 cs

end XPath.Token
