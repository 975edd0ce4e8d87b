import Mathlib.Logic.Relation
import XPath.Proofs.Supertypes

/-!
# The order of item types

`ItemType.IsSubtype` is the order of types that values are tested by: atomic types by derivation,
node tests below the test for their kind, nothing below everything. `ItemType.commonSupertype` is
above both of its types in this order unless it promotes one of them to a type of floating point
numbers, which no other type is derived from. Integers and doubles are typed as doubles, and an
integer is no double.
-/

namespace XPath

/-! ### Derivation -/

namespace AtomicType

/-- The type that a type is derived from by restriction. -/
def base? : AtomicType → Option AtomicType
  | anyAtomicType => none
  | normalizedString => some string
  | token => some normalizedString
  | language | nmtoken | name => some token
  | ncname => some name
  | id | idref | entity => some ncname
  | integer => some decimal
  | nonPositiveInteger | long | nonNegativeInteger => some integer
  | negativeInteger => some nonPositiveInteger
  | int => some long
  | short => some int
  | byte => some short
  | unsignedLong | positiveInteger => some nonNegativeInteger
  | unsignedInt => some unsignedLong
  | unsignedShort => some unsignedInt
  | unsignedByte => some unsignedShort
  | dayTimeDuration | yearMonthDuration => some duration
  | _ => some anyAtomicType

/-- The first type is the second, or derived from it in some steps. -/
def DerivesFrom : AtomicType → AtomicType → Prop :=
  Relation.ReflTransGen fun s t => s.base? = some t

theorem DerivesFrom.refl (t : AtomicType) : t.DerivesFrom t :=
  Relation.ReflTransGen.refl

theorem DerivesFrom.trans {s t u : AtomicType} (h : s.DerivesFrom t) (h' : t.DerivesFrom u) :
    s.DerivesFrom u :=
  Relation.ReflTransGen.trans h h'

theorem DerivesFrom.step {s t u : AtomicType} (hbase : s.base? = some t) (h : t.DerivesFrom u) :
    s.DerivesFrom u :=
  Relation.ReflTransGen.head hbase h

theorem derivesFrom_anyAtomicType (t : AtomicType) : t.DerivesFrom anyAtomicType := by
  cases t <;> repeat (first | exact .refl _ | refine .step rfl ?_)

/-- From a type that is no base only the type itself is derived. -/
theorem derivesFrom_iff_eq {s t : AtomicType} (h : ∀ u : AtomicType, u.base? ≠ some t) :
    s.DerivesFrom t ↔ s = t := by
  constructor
  · intro hst
    rcases Relation.ReflTransGen.cases_tail hst with heq | ⟨u, -, hu⟩
    · exact heq.symm
    · exact absurd hu (h u)
  · rintro rfl
    exact .refl s

theorem base?_ne_float (u : AtomicType) : u.base? ≠ some float := by
  cases u <;> decide

theorem base?_ne_double (u : AtomicType) : u.base? ≠ some double := by
  cases u <;> decide

theorem derivesFrom_ofNumericRank {t : AtomicType} {n : Nat} (h : t.numericRank = some n) :
    t.DerivesFrom (ofNumericRank n) := by
  cases t <;> cases h <;>
    repeat (first | exact .refl _ | refine .step rfl ?_)

theorem derivesFrom_decimal {t : AtomicType} (h : t.numericRank = some 0) :
    t.DerivesFrom decimal :=
  (derivesFrom_ofNumericRank h).trans (.single rfl)

/-- A number is one of a later place only if that is the place of decimals. -/
theorem derivesFrom_ofNumericRank_iff {t : AtomicType} {m n : Nat} (ht : t.numericRank = some m)
    (hmn : m < n) (hn : n ≤ 3) : t.DerivesFrom (ofNumericRank n) ↔ n < 2 := by
  have hne : t ≠ ofNumericRank n := by
    rintro rfl
    rw [numericRank_ofNumericRank hn] at ht
    cases ht
    exact Nat.lt_irrefl _ hmn
  match n, hn with
  | 0, _ => exact absurd hmn (Nat.not_lt_zero m)
  | 1, _ =>
      obtain rfl : m = 0 := Nat.lt_one_iff.mp hmn
      exact iff_of_true (derivesFrom_decimal ht) (by decide)
  | 2, _ =>
      rw [derivesFrom_iff_eq (t := ofNumericRank 2) base?_ne_float]
      exact iff_of_false hne (by decide)
  | 3, _ =>
      rw [derivesFrom_iff_eq (t := ofNumericRank 3) base?_ne_double]
      exact iff_of_false hne (by decide)

/-- Numbers of the type are converted to floating point numbers to meet those of the other. -/
def isPromotedBy (s t : AtomicType) : Bool :=
  match s.numericRank, t.numericRank with
  | some m, some n => m < n && 2 ≤ n
  | _, _ => false

/-- An atomic type is below its join with another unless the other promotes it. -/
theorem derivesFrom_join_iff (s t : AtomicType) :
    s.DerivesFrom (byPlace.join s t) ↔ s.isPromotedBy t = false := by
  by_cases heq : s = t
  · subst heq
    rw [Grading.join_self]
    refine iff_of_true (.refl s) ?_
    unfold isPromotedBy
    cases s.numericRank <;> simp
  rw [Grading.join_of_ne _ heq]
  show s.DerivesFrom (ofPlace (laterPlace s.numericRank t.numericRank)) ↔ _
  cases hs : s.numericRank with
  | none => exact iff_of_true (derivesFrom_anyAtomicType s) (by simp [isPromotedBy, hs])
  | some m =>
      cases ht : t.numericRank with
      | none => exact iff_of_true (derivesFrom_anyAtomicType s) (by simp [isPromotedBy, hs, ht])
      | some n =>
          show s.DerivesFrom (ofNumericRank (max m n)) ↔ _
          rcases Nat.lt_or_ge m n with hmn | hnm
          · rw [Nat.max_eq_right (Nat.le_of_lt hmn),
              derivesFrom_ofNumericRank_iff hs hmn (numericRank_le ht)]
            simp [isPromotedBy, hs, ht, hmn]
          · rw [Nat.max_eq_left hnm]
            exact iff_of_true (derivesFrom_ofNumericRank hs) (by simp [isPromotedBy, hs, ht, hnm])

end AtomicType

/-! ### Subtypes -/

namespace ItemType

/-- Every item of the first type is one of the second, as far as types of content and names are
left out of account. -/
inductive IsSubtype : ItemType → ItemType → Prop
  | empty (b : ItemType) : IsSubtype empty b
  | anyItem (a : ItemType) : IsSubtype a anyItem
  | atomic {s t : AtomicType} : s.DerivesFrom t → IsSubtype (atomic s) (atomic t)
  | same (test : NodeTest) : IsSubtype (node test) (node test)
  | kind {test : NodeTest} {k : NodeKind} :
      test.nodeKind? = some k → IsSubtype (node test) (node (.kind k))
  | anyNode (test : NodeTest) : IsSubtype (node test) (node .anyNode)

theorem IsSubtype.refl (a : ItemType) : a.IsSubtype a := by
  cases a with
  | anyItem => exact .anyItem _
  | empty => exact .empty _
  | atomic t => exact .atomic (.refl t)
  | node test => exact .same test

theorem IsSubtype.trans {a b c : ItemType} (h : a.IsSubtype b) (h' : b.IsSubtype c) :
    a.IsSubtype c := by
  cases h with
  | empty _ => exact .empty c
  | anyItem _ => cases h' with | anyItem _ => exact .anyItem a
  | atomic hst =>
      cases h' with
      | anyItem _ => exact .anyItem _
      | atomic htu => exact .atomic (hst.trans htu)
  | same _ => exact h'
  | kind hk =>
      cases h' with
      | anyItem _ => exact .anyItem _
      | same _ => exact .kind hk
      | kind hk' => cases hk'; exact .kind hk
      | anyNode _ => exact .anyNode _
  | anyNode _ =>
      cases h' with
      | anyItem _ => exact .anyItem _
      | same _ => exact .anyNode _
      | kind hk' => cases hk'
      | anyNode _ => exact .anyNode _

theorem isSubtype_atomic_iff {s t : AtomicType} :
    (atomic s).IsSubtype (atomic t) ↔ s.DerivesFrom t := by
  constructor
  · intro h
    cases h with
    | atomic h => exact h
  · exact .atomic

theorem isSubtype_ofKind {test : NodeTest} {k : Option NodeKind}
    (h : ∀ j, k = some j → test.nodeKind? = some j) :
    (node test).IsSubtype (node (.ofKind k)) := by
  cases k with
  | none => exact .anyNode test
  | some j => exact .kind (h j rfl)

/-- A test is below its join with any other. -/
theorem isSubtype_join (s t : NodeTest) :
    (node s).IsSubtype (node (NodeTest.byKind.join s t)) := by
  by_cases heq : s = t
  · subst heq
    rw [Grading.join_self]
    exact .same s
  · rw [Grading.join_of_ne _ heq]
    refine isSubtype_ofKind fun j hj => ?_
    -- a kind that both tests share is that of the first
    change (if s.nodeKind? = t.nodeKind? then s.nodeKind? else none) = some j at hj
    split at hj
    · exact hj
    · cases hj

/-- The types are types of numbers, and those of the first are converted to floating point
numbers to meet those of the second. -/
def isPromotedBy : ItemType → ItemType → Bool
  | atomic s, atomic t => s.isPromotedBy t
  | _, _ => false

/-- A type is below its join with another exactly if the other does not promote it. -/
theorem isSubtype_commonSupertype_iff (a b : ItemType) :
    a.IsSubtype (a.commonSupertype b) ↔ a.isPromotedBy b = false := by
  cases a with
  | empty => exact iff_of_true (.empty _) rfl
  | anyItem =>
      rw [anyItem_commonSupertype]
      exact iff_of_true (.anyItem _) rfl
  | atomic s =>
      cases b with
      | atomic t =>
          rw [atomic_commonSupertype, isSubtype_atomic_iff, AtomicType.derivesFrom_join_iff]
          rfl
      | anyItem => exact iff_of_true (.anyItem _) rfl
      | empty => exact iff_of_true (.refl _) rfl
      | node t => exact iff_of_true (.anyItem _) rfl
  | node s =>
      cases b with
      | node t =>
          rw [node_commonSupertype]
          exact iff_of_true (isSubtype_join s t) rfl
      | anyItem => exact iff_of_true (.anyItem _) rfl
      | empty => exact iff_of_true (.refl _) rfl
      | atomic t => exact iff_of_true (.anyItem _) rfl

end ItemType

/-! ### Items -/

/-- Nodes, of which all that pass a test pass the one for its kind, and that for all nodes. -/
structure NodeModel (ν : Type) where
  Passes : ν → NodeTest → Prop
  anyNode : ∀ v, Passes v .anyNode
  kind : ∀ {v test k}, Passes v test → test.nodeKind? = some k → Passes v (.kind k)

/-- An item is an atomic value of a type, or a node. -/
inductive ValueItem (ν : Type)
  | atomic (type : AtomicType)
  | node (v : ν)

/-- Nodes of which nothing is told but their kind, so that they pass all tests for it. -/
def NodeModel.ofKinds : NodeModel NodeKind where
  Passes k test := ∀ j, test.nodeKind? = some j → j = k
  anyNode := nofun
  kind h hkind j hj := by
    obtain rfl := Option.some.inj hj
    exact h _ hkind

namespace NodeModel

variable {ν : Type} (M : NodeModel ν)

/-- The item is one of the type. -/
def Matches : ValueItem ν → ItemType → Prop
  | _, .anyItem => True
  | .atomic s, .atomic t => s.DerivesFrom t
  | .node v, .node test => M.Passes v test
  | _, _ => False

variable {M}

/-- Items of a type are items of the types above it. -/
theorem Matches.mono {x : ValueItem ν} {a b : ItemType} (hx : M.Matches x a) (h : a.IsSubtype b) :
    M.Matches x b := by
  cases h with
  | empty _ => cases x <;> cases hx
  | anyItem _ => cases x <;> exact True.intro
  | atomic hst =>
      cases x with
      | atomic s => exact AtomicType.DerivesFrom.trans hx hst
      | node v => cases hx
  | same _ => exact hx
  | kind hk =>
      cases x with
      | atomic s => cases hx
      | node v => exact M.kind hx hk
  | anyNode _ =>
      cases x with
      | atomic s => cases hx
      | node v => exact M.anyNode v

/-- Items of an atomic type are items of another only if it is derived from the other. -/
theorem derivesFrom_of_matches {s t : AtomicType}
    (h : ∀ x : ValueItem ν, M.Matches x (.atomic s) → M.Matches x (.atomic t)) : s.DerivesFrom t :=
  h (.atomic s) (.refl s)

/-- All items of a type are items of its join with another exactly if the other does not promote
it. -/
theorem matches_commonSupertype_iff (M : NodeModel ν) (a b : ItemType) :
    (∀ x, M.Matches x a → M.Matches x (a.commonSupertype b)) ↔ a.isPromotedBy b = false := by
  rw [← ItemType.isSubtype_commonSupertype_iff]
  constructor
  · intro h
    cases a with
    | atomic s =>
        cases b with
        | atomic t =>
            rw [ItemType.atomic_commonSupertype] at h ⊢
            exact .atomic (derivesFrom_of_matches h)
        | _ => exact (ItemType.isSubtype_commonSupertype_iff _ _).mpr rfl
    | _ => exact (ItemType.isSubtype_commonSupertype_iff _ _).mpr rfl
  · exact fun h x hx => hx.mono h

theorem matches_commonSupertype_right_iff (M : NodeModel ν) (a b : ItemType) :
    (∀ x, M.Matches x b → M.Matches x (a.commonSupertype b)) ↔ b.isPromotedBy a = false := by
  rw [ItemType.commonSupertype_comm, matches_commonSupertype_iff]

/-- All items of an expression are items of the type of a sequence that holds it exactly if that
type does not promote the type of the expression. -/
theorem matches_sequence_iff (M : NodeModel ν) {n : Nat} {items : List Expr} {item : Expr}
    (h : item ∈ items) :
    (∀ x, M.Matches x item.itemType → M.Matches x (Expr.sequence n items).itemType) ↔
      item.itemType.isPromotedBy (Expr.sequence n items).itemType = false := by
  have habsorbs : item.itemType.commonSupertype (Expr.sequence n items).itemType =
      (Expr.sequence n items).itemType := by
    rw [Expr.itemType_sequence]
    exact ItemType.commonSupertype_joinAll (List.mem_map_of_mem h)
  rw [← matches_commonSupertype_iff M, habsorbs]

end NodeModel

/-- The common supertype is above a type, and has all of its items, exactly if the other type does
not promote it to a type of floating point numbers. So the items of a sequence, and those of the
branches of a conditional, are of the type of the whole unless they are numbers of a type that
another part promotes. -/
theorem ItemType.commonSupertype_isAbove_iff {ν : Type} (M : NodeModel ν) (a b : ItemType) :
    ((a.IsSubtype (a.commonSupertype b) ↔ a.isPromotedBy b = false) ∧
      (b.IsSubtype (a.commonSupertype b) ↔ b.isPromotedBy a = false)) ∧
    (((∀ x, M.Matches x a → M.Matches x (a.commonSupertype b)) ↔ a.isPromotedBy b = false) ∧
      ((∀ x, M.Matches x b → M.Matches x (a.commonSupertype b)) ↔ b.isPromotedBy a = false)) ∧
    (∀ (n : Nat) (before after : List Expr) (item : Expr),
      (∀ x, M.Matches x item.itemType →
        M.Matches x (Expr.sequence n (before ++ item :: after)).itemType) ↔
      item.itemType.isPromotedBy (Expr.sequence n (before ++ item :: after)).itemType = false) ∧
    (∀ (n : Nat) (condition yes no : Expr),
      ((∀ x, M.Matches x yes.itemType →
          M.Matches x (Expr.conditional n condition yes no).itemType) ↔
        yes.itemType.isPromotedBy no.itemType = false) ∧
      ((∀ x, M.Matches x no.itemType →
          M.Matches x (Expr.conditional n condition yes no).itemType) ↔
        no.itemType.isPromotedBy yes.itemType = false)) := by
  refine ⟨⟨isSubtype_commonSupertype_iff a b, ?_⟩,
    ⟨M.matches_commonSupertype_iff a b, M.matches_commonSupertype_right_iff a b⟩, ?_, ?_⟩
  · rw [commonSupertype_comm, isSubtype_commonSupertype_iff]
  · intro n before after item
    exact M.matches_sequence_iff (by simp)
  · intro n condition yes no
    rw [Expr.itemType]
    exact ⟨M.matches_commonSupertype_iff _ _, M.matches_commonSupertype_right_iff _ _⟩

/-- Integers and decimals are typed as decimals, and every integer is a decimal. -/
theorem ItemType.isAbove_of_integer_and_decimal :
    (atomic .integer).isPromotedBy (atomic .decimal) = false ∧
      ∀ x, NodeModel.ofKinds.Matches x (atomic .integer) →
        NodeModel.ofKinds.Matches x ((atomic .integer).commonSupertype (atomic .decimal)) := by
  have hplain : (atomic .integer).isPromotedBy (atomic .decimal) = false := by decide
  obtain ⟨-, hmatches, -⟩ :=
    commonSupertype_isAbove_iff NodeModel.ofKinds (atomic .integer) (atomic .decimal)
  exact ⟨hplain, hmatches.1.mpr hplain⟩

/-- Integers and doubles are typed as doubles, and no integer is a double. -/
theorem ItemType.not_isSubtype_of_integer_and_double :
    ¬ (atomic .integer).IsSubtype ((atomic .integer).commonSupertype (atomic .double)) ∧
    ∀ (ν : Type) (M : NodeModel ν),
      M.Matches (.atomic .integer) (atomic .integer) ∧
      ¬ M.Matches (.atomic .integer) ((atomic .integer).commonSupertype (atomic .double)) := by
  have hne : ¬ AtomicType.integer.DerivesFrom .double := by
    rw [AtomicType.derivesFrom_iff_eq AtomicType.base?_ne_double]
    decide
  exact ⟨fun h => hne (isSubtype_atomic_iff.mp h), fun ν M => ⟨.refl .integer, hne⟩⟩

end XPath
