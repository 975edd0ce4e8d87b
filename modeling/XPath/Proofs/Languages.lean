import XPath.Proofs.Discipline
import XPath.Proofs.Parentheses

/-!
# Patterns are read like expressions

A pattern is read by the grammar of expressions. What differs is the code and the place of errors,
and the axis of a test for documents that starts a path and has no axis of its own: in a pattern
such a step stays at its node, in an expression it goes to a child (`Cursor.IsHead`). A pattern and
an expression are read side by side from one source, and in that pair the step of a pattern is
found as that of the expression (`Pair.languages`).
-/

namespace XPath

open Parse

/-! ### Tests for documents that start a path -/

namespace Cursor

variable {source : String} {c d : Cursor}

/-- A token that has been read, and not only taken for another one, is written at its offset. -/
theorem Reaches.slice (h : (ofSource source 0).Reaches c) (heof : c.token ≠ .eof)
    (hparen : c.token ≠ .rightParen) :
    ∃ text, IsSlice source c.offset c.position text ∧ c.token.Spells c.value text := by
  cases h with
  | refl => exact absurd rfl heof
  | endOperand => exact absurd rfl hparen
  | advance hreaches hadvance =>
      have hstands := stands_of_reaches (ofSource_stands source 0) hreaches
      obtain ⟨gap, text, hstep⟩ := hstands.step hadvance heof
      exact ⟨text, hstep.slice, hstep.spells⟩

end Cursor

/-! ### Errors -/

/-- A code is found by what is printed for it. -/
theorem ErrorCode.ofText_text (code : ErrorCode) : ofText code.text = code := by
  cases code <;> decide

theorem ErrorCode.name_injective {a b : ErrorCode} (h : a.name = b.name) : a = b := by
  have hlocal : a.localName = b.localName := congrArg ExpandedName.localName h
  have htext : a.text = b.text := congrArg ("err:" ++ ·) hlocal
  rw [← a.ofText_text, ← b.ofText_text, htext]

/-- The error of a pattern and the one of an expression say the same, each with the code and the
place of its language. -/
structure Error.Corresponds (e e' : Error) : Prop where
  kind : e.kind = e'.kind
  message : e.message = e'.message
  hasCause : e.hasCause = e'.hasCause
  location : ∃ rest, e.location = some (Language.pattern.displayName ++ rest) ∧
    e'.location = some (Language.expression.displayName ++ rest)
  syntactic : e.code = ErrorCode.XTSE0340.name ↔ e'.code = ErrorCode.XPST0003.name
  code : e'.code ≠ ErrorCode.XPST0003.name → e.code = e'.code

/-- From a pattern to an expression: the steps at some offsets go from their node to a child. -/
def Relocation.toChildren (heads : Nat → Bool) : Relocation where
  offset n := n
  id i := i
  axis n _ axis := if heads n && axis = .self then .child else axis

theorem Relocation.toChildren_isMild (heads : Nat → Bool) : (toChildren heads).IsMild where
  id _ _ h := h
  axis n test axis := by
    cases hhead : heads n <;> cases axis <;> simp [toChildren, hhead]

/-- The readers of a source as a pattern and as an expression. -/
def Pair.languages (host : Resolver) (source : String) (heads : Nat → Bool) : Pair where
  left := ⟨.pattern, host⟩
  right := ⟨.expression, host⟩
  Beside c c' := c' = c ∧ (Cursor.ofSource source 0).Reaches c
  Starts c := c.token = .nodeKind → c.value = "document-node" → heads c.offset = true
  Failing _ e _ e' := e.Corresponds e'
  Gone _ := False
  extra := 0
  offset n := n
  axis := (Relocation.toChildren heads).axis

theorem impliedAxis_later (t : Token) (word : String) :
    impliedAxis t word false = .attribute ∨ impliedAxis t word false = .child := by
  unfold impliedAxis
  split
  · split
    · exact .inl rfl
    · simp
  · exact .inr rfl

section

variable {source : String} {heads : Nat → Bool}

end

end XPath
