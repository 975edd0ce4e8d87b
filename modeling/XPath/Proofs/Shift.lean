import XPath.Proofs.Relocation

/-!
# Expressions at another place

What is read from a source stands somewhere else when the source is put into a larger one: its
offsets grow by the bytes before it, and the ids of the variables that it binds by the number
of variables that have been declared before. `Expr.shift` changes an expression like that, which
is a way to relocate it.
-/

namespace XPath

/-- The variable, with `ids` others declared before it. -/
def RangeVariable.shift (ids : Nat) (v : RangeVariable) : RangeVariable :=
  { v with id := v.id + ids }

/-- The reference, with `ids` further variables declared before all range variables. -/
def VariableRef.shift (ids : Nat) : VariableRef → VariableRef
  | range v => range (v.shift ids)
  | declared name type => declared name type

namespace Expr

mutual

/-- The expression `start` bytes further on, with `ids` further variables declared before it. -/
def shift (start ids : Nat) : Expr → Expr
  | literal n value => literal (n + start) value
  | varRef n ref => varRef (n + start) (ref.shift ids)
  | contextItem n => contextItem (n + start)
  | root n => root (n + start)
  | parent n => parent (n + start)
  | axisStep n axis test => axisStep (n + start) axis test
  | filter n base predicate =>
    filter (n + start) (shift start ids base) (shift start ids predicate)
  | path n first step => path (n + start) (shift start ids first) (shift start ids step)
  | reverse n inner => reverse (n + start) (shift start ids inner)
  | binary n op left right =>
    binary (n + start) op (shift start ids left) (shift start ids right)
  | unary n sign operand => unary (n + start) sign (shift start ids operand)
  | conditional n condition yes no =>
    conditional (n + start) (shift start ids condition) (shift start ids yes)
      (shift start ids no)
  | binding n kind v domain action =>
    binding (n + start) kind (v.shift ids) (shift start ids domain) (shift start ids action)
  | typed n op operand => typed (n + start) op (shift start ids operand)
  | call n function arguments => call (n + start) function (shiftAll start ids arguments)
  | sequence n items => sequence (n + start) (shiftAll start ids items)
  | raise n error => raise (n + start) error

/-- The same for each of several expressions. -/
def shiftAll (start ids : Nat) : List Expr → List Expr
  | [] => []
  | e :: es => shift start ids e :: shiftAll start ids es

end

theorem shiftAll_eq_map (start ids : Nat) (es : List Expr) :
    shiftAll start ids es = es.map (shift start ids) := by
  induction es with
  | nil => rfl
  | cons e es ih => rw [shiftAll, ih, List.map_cons]

end Expr

/-- To a place `start` bytes further on, with `ids` further variables declared before it. -/
def Relocation.further (start ids : Nat) : Relocation where
  offset n := n + start
  id i := i + ids
  axis _ _ axis := axis

variable (start ids : Nat)

/-- Moving on leaves different ids different, and all axes as they are. -/
theorem Relocation.IsMild.further : (Relocation.further start ids).IsMild where
  id _ _ := Nat.add_right_cancel
  axis _ _ _ := .inl rfl

namespace Expr

/-- The shift is a relocation, and with that all that is known of relocations holds of it. -/
theorem shift_eq_relocate (e : Expr) : e.shift start ids = e.relocate (.further start ids) := by
  induction e using parts_induction with
  | step e ih =>
      cases e with
      | varRef n ref => cases ref <;> rfl
      | call n function args =>
          simp only [shift, relocate, shiftAll_eq_map, relocateAll_eq_map]
          exact congrArg _ (List.map_congr_left ih)
      | sequence n items =>
          simp only [shift, relocate, shiftAll_eq_map, relocateAll_eq_map]
          exact congrArg _ (List.map_congr_left ih)
      | binding n kind v domain action =>
          simp_all [shift, relocate, children]
          exact ⟨rfl, rfl⟩
      | _ => simp_all [shift, relocate, children, Relocation.further]

theorem offset_shift (e : Expr) : (e.shift start ids).offset = e.offset + start := by
  rw [shift_eq_relocate, offset_relocate]
  rfl

theorem isReverseStep_shift (e : Expr) :
    Parse.isReverseStep (e.shift start ids) = Parse.isReverseStep e := by
  rw [shift_eq_relocate, isReverseStep_relocate (.further start ids)]

theorem stringLiteral?_shift (e : Expr) :
    (e.shift start ids).stringLiteral? = e.stringLiteral? := by
  rw [shift_eq_relocate, stringLiteral?_relocate]

end Expr

namespace Parse

/-- The clause `start` bytes further on, with `ids` further variables declared before it. -/
def Clause.shift (c : Clause) : Clause :=
  ⟨c.bound.shift ids, c.domain.shift start ids⟩

/-- Clauses at another place are nested in bindings at another place. -/
theorem shift_nestClauses (n : Nat) (kind : BindingKind) (known : List RangeVariable)
    (cs : List Clause) (action : Expr) :
    (nestClauses n kind known cs action).shift start ids =
      nestClauses (n + start) kind (known.map (RangeVariable.shift ids))
        (cs.map (Clause.shift start ids)) (action.shift start ids) := by
  have hclauses : cs.map (Clause.shift start ids) = cs.map (Relocation.further start ids).clause :=
    List.map_congr_left fun c _ =>
      congrArg (Clause.mk _) (Expr.shift_eq_relocate start ids c.domain)
  rw [Expr.shift_eq_relocate, Expr.shift_eq_relocate, hclauses]
  exact Relocation.relocate_nestClauses (.further start ids) n kind known cs action

theorem shift_applySigns (operand : Expr) (signs : List (Sign × Nat)) :
    (applySigns operand signs).shift start ids =
      applySigns (operand.shift start ids) (signs.map fun (s, n) => (s, n + start)) := by
  rw [Expr.shift_eq_relocate, Expr.shift_eq_relocate]
  exact Relocation.relocate_applySigns operand signs

/-- Steps at another place are joined to a path at another place. -/
theorem shift_joinStep (n : Nat) (separator : Token) (before next : Expr) :
    (joinStep n separator before next).shift start ids =
      joinStep (n + start) separator (before.shift start ids) (next.shift start ids) := by
  simp only [Expr.shift_eq_relocate]
  exact Relocation.relocate_joinStep (.further start ids) n separator before next

end Parse

end XPath
