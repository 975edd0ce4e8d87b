import XPath.Parse.Expression
import XPath.Proofs.Tree

/-!
# Expressions read elsewhere

The same text read elsewhere gives an expression with other offsets, perhaps with other ids for
the variables that it binds, and with another axis for a step whose axis is not written down.
A `Relocation` says how these change, and `Expr.relocate` changes them. Nothing that a reader asks
of an expression is different then, and what it makes of one is relocated with it.
-/

namespace XPath

/-- What becomes of the offsets, the ids of range variables and the axes of an expression. The
axis of a step may depend on its offset and its test. -/
structure Relocation where
  offset : Nat → Nat
  id : Nat → Nat
  axis : Nat → NodeTest → Axis → Axis

namespace Relocation

/-- Different variables stay different, and no axis changes but from the context node itself to
its children. -/
structure IsMild (m : Relocation) : Prop where
  id : ∀ i j, m.id i = m.id j → i = j
  axis : ∀ n test axis, m.axis n test axis = axis ∨ axis = .self ∧ m.axis n test axis = .child

/-- The variable under its other id. -/
def bound (m : Relocation) (v : RangeVariable) : RangeVariable :=
  { v with id := m.id v.id }

/-- The reference to the variable under its other id. -/
def ref (m : Relocation) : VariableRef → VariableRef
  | .range v => .range (m.bound v)
  | .declared name type => .declared name type

end Relocation

namespace Expr

mutual

/-- The expression as it is read elsewhere. -/
def relocate (m : Relocation) : Expr → Expr
  | literal n value => literal (m.offset n) value
  | varRef n ref => varRef (m.offset n) (m.ref ref)
  | contextItem n => contextItem (m.offset n)
  | root n => root (m.offset n)
  | parent n => parent (m.offset n)
  | axisStep n axis test => axisStep (m.offset n) (m.axis n test axis) test
  | filter n base predicate => filter (m.offset n) (relocate m base) (relocate m predicate)
  | path n first step => path (m.offset n) (relocate m first) (relocate m step)
  | reverse n inner => reverse (m.offset n) (relocate m inner)
  | binary n op left right => binary (m.offset n) op (relocate m left) (relocate m right)
  | unary n sign operand => unary (m.offset n) sign (relocate m operand)
  | conditional n condition yes no =>
    conditional (m.offset n) (relocate m condition) (relocate m yes) (relocate m no)
  | binding n kind v domain action =>
    binding (m.offset n) kind (m.bound v) (relocate m domain) (relocate m action)
  | typed n op operand => typed (m.offset n) op (relocate m operand)
  | call n function arguments => call (m.offset n) function (relocateAll m arguments)
  | sequence n items => sequence (m.offset n) (relocateAll m items)
  | raise n error => raise (m.offset n) error

/-- The same for each of several expressions. -/
def relocateAll (m : Relocation) : List Expr → List Expr
  | [] => []
  | e :: es => relocate m e :: relocateAll m es

end

attribute [local simp] relocate relocateAll mapRange mapRangeAll

variable {m : Relocation}

theorem relocateAll_eq_map (m : Relocation) (es : List Expr) :
    relocateAll m es = es.map (relocate m) := by
  induction es with
  | nil => rfl
  | cons e es ih => rw [relocateAll, ih, List.map_cons]

/-- Nothing changes where every offset, id and axis stays. -/
theorem relocate_eq_self (hoffset : ∀ n, m.offset n = n) (hid : ∀ id, m.id id = id)
    (haxis : ∀ n test axis, m.axis n test axis = axis) (e : Expr) : e.relocate m = e := by
  have hbound : ∀ v, m.bound v = v := fun v => by rw [Relocation.bound, hid]
  have hall : ∀ es : List Expr, (∀ e ∈ es, e.relocate m = e) → es.map (relocate m) = es :=
    fun es h => (List.map_congr_left h).trans (List.map_id es)
  induction e using parts_induction with
  | step e ih =>
      cases e with
      | varRef n ref => cases ref <;> simp [Relocation.ref, hoffset, hbound]
      | call n function args => simp [relocateAll_eq_map, hoffset, hall args ih]
      | sequence n items => simp [relocateAll_eq_map, hoffset, hall items ih]
      | _ => simp_all [children]

/-! ### What stays the same -/

/-- A relocated expression starts where its start has been moved to. -/
theorem offset_relocate (e : Expr) : (e.relocate m).offset = m.offset e.offset := by
  cases e <;> simp [offset]

theorem children_relocate (m : Relocation) (e : Expr) :
    (e.relocate m).children = e.children.map (relocate m) := by
  cases e with
  | call n function args => simp [relocate, children, relocateAll_eq_map]
  | sequence n items => simp [relocate, children, relocateAll_eq_map]
  | _ => simp [relocate, children]

theorem isReverseStep_relocate (hm : m.IsMild) (e : Expr) :
    Parse.isReverseStep (e.relocate m) = Parse.isReverseStep e := by
  cases e with
  | axisStep n axis test =>
      rcases hm.axis n test axis with h | ⟨rfl, h⟩
      · simp [Parse.isReverseStep, h]
      · simp [Parse.isReverseStep, h, Axis.isReverse]
  | _ => simp [Parse.isReverseStep]

theorem stringLiteral?_relocate (e : Expr) : (e.relocate m).stringLiteral? = e.stringLiteral? := by
  cases e with
  | literal n value => cases value <;> rfl
  | _ => simp [stringLiteral?]

theorem joinedType_map {f : Expr → Expr} {es : List Expr}
    (h : ∀ e ∈ es, (f e).itemType = e.itemType) (type : ItemType) :
    joinedType type (es.map f) = joinedType type es := by
  induction es generalizing type with
  | nil => rfl
  | cons e es ih =>
      rw [List.map_cons, joinedType, joinedType, h e List.mem_cons_self,
        ih fun e' he' => h e' (List.mem_cons_of_mem _ he')]

/-- A mild relocation does not change types. -/
theorem itemType_relocate (hm : m.IsMild) (e : Expr) : (e.relocate m).itemType = e.itemType := by
  induction e using parts_induction with
  | step e ih =>
      cases e with
      | varRef n ref => cases ref <;> rfl
      | axisStep n axis test =>
          rcases hm.axis n test axis with h | ⟨rfl, h⟩
          · simp [itemType, h]
          · simp [itemType, h, Axis.resultType]
      | binding n kind v domain action =>
          have haction := ih action (by simp [children])
          cases kind <;> simp [itemType, haction]
      | sequence n items =>
          cases items with
          | nil => simp [itemType]
          | cons e es =>
              simp only [relocate, relocateAll, itemType, relocateAll_eq_map]
              rw [ih e List.mem_cons_self,
                joinedType_map fun e' he' => ih e' (List.mem_cons_of_mem _ he')]
      | _ => simp_all [itemType, children]

/-! ### What is relocated along -/

/-- References may be changed before a relocation or after it. -/
theorem relocate_mapRange {f g : RangeVariable → RangeVariable}
    (h : ∀ v, m.bound (f v) = g (m.bound v)) (e : Expr) :
    (e.mapRange f).relocate m = (e.relocate m).mapRange g := by
  induction e using parts_induction with
  | step e ih =>
      cases e with
      | varRef n ref => cases ref <;> simp [Relocation.ref, h]
      | call n function args =>
          simp only [mapRange, relocate, relocateAll_eq_map, mapRangeAll_eq_map, List.map_map]
          exact congrArg _ (List.map_congr_left ih)
      | sequence n items =>
          simp only [mapRange, relocate, relocateAll_eq_map, mapRangeAll_eq_map, List.map_map]
          exact congrArg _ (List.map_congr_left ih)
      | _ => simp_all [children]

end Expr

namespace Relocation

variable {m : Relocation}

/-- A variable gets the type of the one of its id, wherever both stand. -/
theorem bound_typedBy (hm : m.IsMild) (known : List RangeVariable) (v : RangeVariable) :
    m.bound (v.typedBy known) = (m.bound v).typedBy (known.map m.bound) := by
  induction known generalizing v with
  | nil => rfl
  | cons w known ih =>
      have hretype : m.bound (v.retype w.id w.type) =
          (m.bound v).retype (m.bound w).id (m.bound w).type := by
        by_cases h : v.id = w.id
        · simp [RangeVariable.retype, bound, h]
        · have hne : m.id v.id ≠ m.id w.id := fun heq => h (hm.id _ _ heq)
          simp [RangeVariable.retype, bound, h, hne]
      rw [List.map_cons, RangeVariable.typedBy, List.foldl_cons, ← RangeVariable.typedBy, ih,
        hretype]
      rfl

/-- The clause as it is read elsewhere. -/
def clause (m : Relocation) (c : Parse.Clause) : Parse.Clause :=
  ⟨m.bound c.bound, c.domain.relocate m⟩

/-- The types of known variables are carried along with their ids. -/
theorem relocate_withTypes (hm : m.IsMild) (known : List RangeVariable) (e : Expr) :
    (Parse.withTypes known e).relocate m =
      Parse.withTypes (known.map m.bound) (e.relocate m) := by
  rw [Expr.withTypes_eq_mapRange, Expr.withTypes_eq_mapRange]
  exact Expr.relocate_mapRange (bound_typedBy hm known) e

/-- Clauses are nested alike before a relocation and after it. -/
theorem relocate_nestClauses (hm : m.IsMild) (n : Nat) (kind : BindingKind)
    (known : List RangeVariable) (cs : List Parse.Clause) (action : Expr) :
    (Parse.nestClauses n kind known cs action).relocate m =
      Parse.nestClauses (m.offset n) kind (known.map m.bound) (cs.map m.clause)
        (action.relocate m) := by
  induction cs generalizing known with
  | nil => exact relocate_withTypes hm known action
  | cons c cs ih =>
      -- the type of the bound variable is drawn from its domain, which has the same one
      have htype : (Parse.withTypes (known.map m.bound) (c.domain.relocate m)).itemType =
          (Parse.withTypes known c.domain).itemType := by
        rw [← relocate_withTypes hm, Expr.itemType_relocate hm]
      simp only [Parse.nestClauses, Expr.relocate, List.map_cons, ih, relocate_withTypes hm,
        List.map_append, List.map_nil, clause, htype]
      rfl

theorem relocate_applySigns (operand : Expr) (signs : List (Sign × Nat)) :
    (Parse.applySigns operand signs).relocate m =
      Parse.applySigns (operand.relocate m) (signs.map fun (s, n) => (s, m.offset n)) := by
  induction signs generalizing operand with
  | nil => rfl
  | cons sign signs ih =>
      rw [List.map_cons, Parse.applySigns, List.foldl_cons, ← Parse.applySigns, ih, Expr.relocate]
      rfl

theorem relocate_anyDescendant (hm : m.IsMild) (n : Nat) :
    (Parse.anyDescendant n).relocate m = Parse.anyDescendant (m.offset n) := by
  rcases hm.axis n .anyNode .descendantOrSelf with h | ⟨h, -⟩
  · rw [Parse.anyDescendant, Expr.relocate, h, Parse.anyDescendant]
  · cases h

/-- Steps are joined alike before a relocation and after it. -/
theorem relocate_joinStep (hm : m.IsMild) (n : Nat) (separator : Token) (before next : Expr) :
    (Parse.joinStep n separator before next).relocate m =
      Parse.joinStep (m.offset n) separator (before.relocate m) (next.relocate m) := by
  unfold Parse.joinStep
  split
  · rw [Expr.relocate, Expr.relocate, relocate_anyDescendant hm]
  · rw [Expr.relocate]

end Relocation

end XPath
