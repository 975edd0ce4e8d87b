import Mathlib.Data.Finset.Dedup
import XPath.Expr.Typing

/-!
# The join of item types

`ItemType.commonSupertype` is commutative, associative and idempotent, the type of no items is
its unit, and the type of all items absorbs every other. Two things could break associativity:
equal types are left as they are, while different ones meet in something coarser, and there are
two ways of being coarser, one for numbers and one for nodes. Both are of one kind. A type has a
grade, its place in the order of promotion or the kind of its nodes, and different types meet in
the type that stands for the meet of their grades (`Grading`).

So the type of a sequence is the join of a list of types (`ItemType.joinAll`), which depends on
the members of the list alone.
-/

namespace XPath

/-! ### Meeting in a grade -/

/-- Grades of the elements of `α`, an operation on them, and the element that stands for a
grade. Grades that two elements meet in are those of the elements that stand for them. -/
structure Grading (α γ : Type) where
  grade : α → γ
  meet : γ → γ → γ
  standard : γ → α
  meet_comm : ∀ x y, meet x y = meet y x
  meet_assoc : ∀ x y z, meet (meet x y) z = meet x (meet y z)
  meet_self : ∀ x, meet x x = x
  grade_standard : ∀ a b, grade (standard (meet (grade a) (grade b))) = meet (grade a) (grade b)

namespace Grading

variable {α γ : Type} [DecidableEq α] (G : Grading α γ)

/-- Equal elements are their own join, and different ones meet in their grade. -/
def join (a b : α) : α :=
  if a = b then a else G.standard (G.meet (G.grade a) (G.grade b))

theorem join_self (a : α) : G.join a a = a :=
  if_pos rfl

theorem join_of_ne {a b : α} (h : a ≠ b) :
    G.join a b = G.standard (G.meet (G.grade a) (G.grade b)) :=
  if_neg h

/-- The join does not depend on the order of two. -/
theorem join_comm (a b : α) : G.join a b = G.join b a := by
  by_cases h : a = b
  · rw [h]
  · rw [G.join_of_ne h, G.join_of_ne (Ne.symm h), G.meet_comm]

/-- An element that stands for a grade is joined by way of its grade, also with itself. -/
theorem standard_join (a b c : α) :
    G.join (G.standard (G.meet (G.grade a) (G.grade b))) c =
      G.standard (G.meet (G.meet (G.grade a) (G.grade b)) (G.grade c)) := by
  by_cases h : G.standard (G.meet (G.grade a) (G.grade b)) = c
  · rw [← h, G.join_self, G.grade_standard, G.meet_self]
  · rw [G.join_of_ne h, G.grade_standard]

/-- Three elements meet in the grade of all of them, unless they are one. -/
theorem join_join (a b c : α) :
    G.join (G.join a b) c =
      if a = b ∧ b = c then a
      else G.standard (G.meet (G.meet (G.grade a) (G.grade b)) (G.grade c)) := by
  by_cases hab : a = b
  · subst hab
    rw [G.join_self, G.meet_self]
    by_cases hac : a = c
    · rw [if_pos (And.intro rfl hac), ← hac, G.join_self]
    · rw [if_neg fun h => hac h.2, G.join_of_ne hac]
  · rw [if_neg fun h => hab h.1, G.join_of_ne hab, G.standard_join]

/-- The join does not depend on the grouping of three. -/
theorem join_assoc (a b c : α) : G.join (G.join a b) c = G.join a (G.join b c) := by
  rw [G.join_comm a (G.join b c), G.join_join, G.join_join]
  by_cases h : a = b ∧ b = c
  · obtain ⟨rfl, rfl⟩ := h
    rw [if_pos ⟨rfl, rfl⟩]
  · have h' : ¬(b = c ∧ c = a) := fun ⟨hbc, hca⟩ => h ⟨(hbc.trans hca).symm, hbc⟩
    rw [if_neg h, if_neg h', G.meet_assoc, G.meet_comm (G.grade a)]

end Grading

/-! ### Atomic types -/

namespace AtomicType

/-- The type that stands for the place of numbers, and for no place. -/
def ofPlace : Option Nat → AtomicType
  | some n => ofNumericRank n
  | none => anyAtomicType

/-- The later of two places, where both are places of numbers. -/
def laterPlace : Option Nat → Option Nat → Option Nat
  | some m, some n => some (max m n)
  | _, _ => none

/-- There are four places. -/
theorem numericRank_le {t : AtomicType} {n : Nat} (h : t.numericRank = some n) : n ≤ 3 := by
  cases t <;> cases h <;> decide

theorem numericRank_ofNumericRank {n : Nat} (h : n ≤ 3) :
    (ofNumericRank n).numericRank = some n := by
  match n, h with
  | 0, _ | 1, _ | 2, _ | 3, _ => rfl

theorem numericRank_ofPlace (s t : AtomicType) :
    (ofPlace (laterPlace s.numericRank t.numericRank)).numericRank =
      laterPlace s.numericRank t.numericRank := by
  cases hs : s.numericRank with
  | none => rfl
  | some m =>
      cases ht : t.numericRank with
      | none => rfl
      | some n =>
          exact numericRank_ofNumericRank (Nat.max_le.mpr ⟨numericRank_le hs, numericRank_le ht⟩)

/-- Atomic types by their place in the order of promotion. -/
def byPlace : Grading AtomicType (Option Nat) where
  grade := numericRank
  meet := laterPlace
  standard := ofPlace
  meet_comm
    | some m, some n => congrArg some (Nat.max_comm m n)
    | some _, none | none, some _ | none, none => rfl
  meet_assoc
    | some l, some m, some n => congrArg some (Nat.max_assoc l m n)
    | some _, some _, none | some _, none, _ | none, some _, _ | none, none, _ => rfl
  meet_self
    | some n => congrArg some (Nat.max_self n)
    | none => rfl
  grade_standard := numericRank_ofPlace

/-- Promotion goes by the place of the types among the numeric ones. -/
theorem promote_getD (s t : AtomicType) :
    (s.promote t).getD .anyAtomicType = ofPlace (laterPlace s.numericRank t.numericRank) := by
  rw [promote]
  cases s.numericRank <;> cases t.numericRank <;> rfl

end AtomicType

/-! ### Node tests -/

namespace NodeTest

/-- The test for nodes of a kind, and for all nodes. -/
def ofKind : Option NodeKind → NodeTest
  | some k => .kind k
  | none => .anyNode

/-- The kind that two tests share. -/
def sharedKind (j k : Option NodeKind) : Option NodeKind :=
  if j = k then j else none

theorem nodeKind?_ofKind (k : Option NodeKind) : (ofKind k).nodeKind? = k := by
  cases k <;> rfl

/-- Node tests by the kind of their nodes. -/
def byKind : Grading NodeTest (Option NodeKind) where
  grade := nodeKind?
  meet := sharedKind
  standard := ofKind
  meet_comm j k := by
    unfold sharedKind
    split <;> simp_all [eq_comm]
  meet_assoc i j k := by
    unfold sharedKind
    by_cases hij : i = j <;> by_cases hjk : j = k <;> simp_all
  meet_self _ := if_pos rfl
  grade_standard _ _ := nodeKind?_ofKind _

end NodeTest

/-! ### Item types -/

namespace ItemType

@[simp]
theorem commonSupertype_self (a : ItemType) : a.commonSupertype a = a :=
  if_pos rfl

@[simp]
theorem empty_commonSupertype (a : ItemType) : empty.commonSupertype a = a := by
  cases a <;> rfl

@[simp]
theorem commonSupertype_empty (a : ItemType) : a.commonSupertype empty = a := by
  cases a <;> rfl

@[simp]
theorem anyItem_commonSupertype (a : ItemType) : anyItem.commonSupertype a = anyItem := by
  cases a <;> rfl

@[simp]
theorem commonSupertype_anyItem (a : ItemType) : a.commonSupertype anyItem = anyItem := by
  cases a <;> rfl

@[simp]
theorem atomic_commonSupertype_node (s : AtomicType) (t : NodeTest) :
    (atomic s).commonSupertype (node t) = anyItem :=
  rfl

@[simp]
theorem node_commonSupertype_atomic (s : NodeTest) (t : AtomicType) :
    (node s).commonSupertype (atomic t) = anyItem :=
  rfl

@[simp]
theorem atomic_commonSupertype (s t : AtomicType) :
    (atomic s).commonSupertype (atomic t) = atomic (AtomicType.byPlace.join s t) := by
  by_cases h : s = t
  · rw [h, commonSupertype_self, Grading.join_self]
  · rw [Grading.join_of_ne _ h, commonSupertype, if_neg fun heq => h (ItemType.atomic.inj heq)]
    exact congrArg atomic (AtomicType.promote_getD s t)

@[simp]
theorem node_commonSupertype (s t : NodeTest) :
    (node s).commonSupertype (node t) = node (NodeTest.byKind.join s t) := by
  by_cases h : s = t
  · rw [h, commonSupertype_self, Grading.join_self]
  · rw [Grading.join_of_ne _ h, commonSupertype, if_neg fun heq => h (ItemType.node.inj heq)]
    dsimp only [NodeTest.byKind, NodeTest.sharedKind]
    cases s.nodeKind? with
    | none => cases t.nodeKind? <;> rfl
    | some j =>
        cases t.nodeKind? with
        | none => rfl
        | some k => by_cases hjk : j = k <;> simp [hjk, NodeTest.ofKind]

theorem commonSupertype_comm (a b : ItemType) : a.commonSupertype b = b.commonSupertype a := by
  cases a <;> cases b <;> simp [Grading.join_comm]

/-- Item types may be grouped in any way. -/
theorem commonSupertype_assoc (a b c : ItemType) :
    (a.commonSupertype b).commonSupertype c = a.commonSupertype (b.commonSupertype c) := by
  cases a <;> cases b <;> cases c <;> simp [Grading.join_assoc]

/-! ### The join of a list -/

/-- The type that is common to items of all these types. -/
def joinAll (types : List ItemType) : ItemType :=
  types.foldr commonSupertype empty

@[simp]
theorem joinAll_nil : joinAll [] = empty :=
  rfl

@[simp]
theorem joinAll_cons (a : ItemType) (as : List ItemType) :
    joinAll (a :: as) = a.commonSupertype (joinAll as) :=
  rfl

/-- Types in a row are joined part by part. -/
@[simp]
theorem joinAll_append (as bs : List ItemType) :
    joinAll (as ++ bs) = (joinAll as).commonSupertype (joinAll bs) := by
  induction as with
  | nil => exact (empty_commonSupertype _).symm
  | cons a as ih => rw [List.cons_append, joinAll_cons, joinAll_cons, ih, commonSupertype_assoc]

/-- The join absorbs every type of the list. -/
theorem commonSupertype_joinAll {a : ItemType} {as : List ItemType} (h : a ∈ as) :
    a.commonSupertype (joinAll as) = joinAll as := by
  induction as with
  | nil => cases h
  | cons b bs ih =>
      rw [joinAll_cons]
      rcases List.mem_cons.mp h with rfl | h
      · rw [← commonSupertype_assoc, commonSupertype_self]
      · rw [commonSupertype_comm b, ← commonSupertype_assoc, ih h]

/-- What absorbs every type of the list absorbs their join. -/
theorem joinAll_commonSupertype {as : List ItemType} {b : ItemType}
    (h : ∀ a ∈ as, a.commonSupertype b = b) : (joinAll as).commonSupertype b = b := by
  induction as with
  | nil => exact empty_commonSupertype b
  | cons a as ih =>
      rw [joinAll_cons, commonSupertype_assoc, ih fun c hc => h c (List.mem_cons_of_mem _ hc),
        h a List.mem_cons_self]

/-- Lists with the same members have the same join, in whatever order and number. -/
theorem joinAll_congr {as bs : List ItemType} (h : ∀ a, a ∈ as ↔ a ∈ bs) :
    joinAll as = joinAll bs := by
  have hleft : (joinAll as).commonSupertype (joinAll bs) = joinAll bs :=
    joinAll_commonSupertype fun a ha => commonSupertype_joinAll ((h a).mp ha)
  have hright : (joinAll bs).commonSupertype (joinAll as) = joinAll as :=
    joinAll_commonSupertype fun b hb => commonSupertype_joinAll ((h b).mpr hb)
  rw [← hleft, commonSupertype_comm, hright]

end ItemType

/-! ### Sequences -/

namespace Expr

theorem joinedType_eq (type : ItemType) (items : List Expr) :
    joinedType type items = type.commonSupertype (.joinAll (items.map itemType)) := by
  induction items generalizing type with
  | nil => exact (ItemType.commonSupertype_empty type).symm
  | cons item items ih =>
      rw [joinedType, ih, List.map_cons, ItemType.joinAll_cons, ItemType.commonSupertype_assoc]

/-- The type of a sequence is the join of the types of its items. -/
@[simp]
theorem itemType_sequence (n : Nat) (items : List Expr) :
    (sequence n items).itemType = .joinAll (items.map itemType) := by
  cases items with
  | nil => rw [itemType, List.map_nil, ItemType.joinAll_nil]
  | cons item items => rw [itemType, joinedType_eq, List.map_cons, ItemType.joinAll_cons]

end Expr

/-- The common supertype is a join with a unit and an absorbing element. So the type of a
sequence depends on the set of the types of its items alone, a sequence among the items can be
written out, and the branches of a conditional can be exchanged. -/
theorem ItemType.commonSupertype_isJoin :
    (∀ a b : ItemType, a.commonSupertype b = b.commonSupertype a) ∧
    (∀ a b c : ItemType,
      (a.commonSupertype b).commonSupertype c = a.commonSupertype (b.commonSupertype c)) ∧
    (∀ a : ItemType, a.commonSupertype a = a) ∧
    (∀ a : ItemType, empty.commonSupertype a = a ∧ a.commonSupertype empty = a) ∧
    (∀ a : ItemType, anyItem.commonSupertype a = anyItem ∧ a.commonSupertype anyItem = anyItem) ∧
    (∃ join : Finset ItemType → ItemType, ∀ n items,
      (Expr.sequence n items).itemType = join (items.map Expr.itemType).toFinset) ∧
    (∀ m n before items after,
      (Expr.sequence m (before ++ .sequence n items :: after)).itemType =
        (Expr.sequence m (before ++ items ++ after)).itemType) ∧
    (∀ n condition yes no,
      (Expr.conditional n condition yes no).itemType =
        (Expr.conditional n condition no yes).itemType) := by
  refine ⟨commonSupertype_comm, commonSupertype_assoc, commonSupertype_self,
    fun a => ⟨empty_commonSupertype a, commonSupertype_empty a⟩,
    fun a => ⟨anyItem_commonSupertype a, commonSupertype_anyItem a⟩, ?_, ?_, ?_⟩
  · refine ⟨fun types => joinAll types.toList, fun n items => ?_⟩
    rw [Expr.itemType_sequence]
    exact joinAll_congr fun a => by rw [Finset.mem_toList, List.mem_toFinset]
  · intro m n before items after
    simp
  · intro n condition yes no
    rw [Expr.itemType, Expr.itemType, commonSupertype_comm]

end XPath
