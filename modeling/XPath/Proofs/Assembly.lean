import XPath.Proofs.Productions

/-!
# How expressions are put together

What a reader knows of a node when it makes it, it knows of every node of the tree that it gives in
the end. `Expr.IsRead` collects these facts: which part of the reader gave the name, test or type
in the node, how the function of a call was found, and what was done at once instead of making
the node. `Expr.IsOrdered` says where the steps against the order of the document may be. One
lemma for each production shows that both hold of all nodes (`complete_assembled`), wherever the
reading started.
-/

namespace XPath

open Parse

/-! ### What is known of a node -/

namespace Parse

variable {α : Type}

/-- The part gave the value somewhere behind the cursor. -/
def Gave (c : Cursor) (p : Parse α) (a : α) : Prop :=
  ∃ s t, c.Reaches s.cursor ∧ p s = .ok a t

/-- A call up to its closing parenthesis: the name that its function has, and the arguments. -/
def callHead (σ : Setting) (nested : Parse Expr) : Parse (ExpandedName × List Expr) := do
  let name ← functionName σ (← value)
  advance σ
  return (name, ← arguments σ nested)

/-- Behind the cursor, a call of the name with this number of arguments starts at the offset. -/
def CallAt (σ : Setting) (c : Cursor) (n : Nat) (name : ExpandedName) (arity : Nat) : Prop :=
  ∃ levels args s t, c.Reaches s.cursor ∧ s.cursor.token = .function ∧ s.cursor.offset = n ∧
    callHead σ (singleWithin σ levels) s = .ok (name, args) t ∧ args.length = arity

/-- Behind the cursor, an axis is written down at the offset, by its name or by its mark. -/
inductive AxisAt (c : Cursor) (n : Nat) : Axis → Prop
  | name {d : Cursor} {axis : Axis} : c.Reaches d → d.offset = n → d.token = .axis →
      Axis.ofName? d.value = some axis → AxisAt c n axis
  | mark {d : Cursor} : c.Reaches d → d.offset = n → d.token = .atSign → AxisAt c n .attribute

/-- Whether a step that is read at a place may start a pattern: only in a pattern, and there
unless a slash has just been read. -/
structure StepAt (σ : Setting) (c d : Cursor) (startsPattern : Bool) : Prop where
  pattern : startsPattern = true → σ.language = .pattern
  separated : startsPattern = false → σ.language = .pattern →
    ∃ b, c.Reaches b ∧ isSeparator b.token = true ∧ b.advance = (.ok (), d)

/-- Behind the cursor, a step that names no axis is read at the offset. -/
def BareStepAt (σ : Setting) (c : Cursor) (n : Nat) (axis : Axis) (test : NodeTest) : Prop :=
  ∃ s t startsPattern, c.Reaches s.cursor ∧ s.cursor.offset = n ∧
    StepAt σ c s.cursor startsPattern ∧
      axis = impliedAxis s.cursor.token s.cursor.value startsPattern ∧
        nodeTest σ .element s = .ok test t

/-- Behind the cursor, at the offset, it is asked whether a string can be cast to a name, and this
is the answer. -/
structure AskedAt (σ : Setting) (c : Cursor) (n : Nat) (answer : Bool) : Prop where
  operator : ∃ d, c.Reaches d ∧ d.token = .typeOperator .castableAs ∧ d.offset = n
  target : ∃ type, Gave c (singleType σ) type ∧ type.atomic = .qname
  answer : ∃ text, answer = (qnameLiteral σ.host text).isOk

end Parse

/-- A value that is spelled out, or that is known when the expression is read. -/
inductive Literal.IsRead (σ : Setting) (c : Cursor) (n : Nat) : Literal → Prop
  | string (text : String) : IsRead σ c n (.string text)
  | number {text : String} {value : Literal} : ofNumber? text = some value → IsRead σ c n value
  | qname {text : String} {value : Literal} : qnameLiteral σ.host text = .ok value →
      IsRead σ c n value
  | boolean {value : Bool} : AskedAt σ c n value → IsRead σ c n (.boolean value)
  | emptySequence : IsRead σ c n .emptySequence

/-- The axis and the test of a step, whether the axis is written or not. -/
inductive NodeTest.IsRead (σ : Setting) (c : Cursor) (n : Nat) (axis : Axis) (test : NodeTest) :
    Prop
  | ofAxis : AxisAt c n axis → Gave c (nodeTest σ axis.principalKind) test → IsRead σ c n axis test
  | bare : BareStepAt σ c n axis test → IsRead σ c n axis test
  | descendants : axis = .descendantOrSelf → test = .anyNode → IsRead σ c n axis test

/-- Without an axis, a step tests a keyword's nodes or those of the axis to the children. -/
theorem Parse.BareStepAt.gave {σ : Setting} {c : Cursor} {n : Nat} {axis : Axis} {test : NodeTest}
    (h : BareStepAt σ c n axis test) :
    Gave c (kindTest σ) test ∨ Gave c (nodeTest σ axis.principalKind) test := by
  obtain ⟨s, t, startsPattern, hs, -, -, haxis, htest⟩ := h
  by_cases htoken : s.cursor.token = .nodeKind
  · rw [nodeTest, token_bind, htoken] at htest
    exact .inl ⟨s, t, hs, htest⟩
  · rw [impliedAxis, if_neg htoken] at haxis
    subst haxis
    exact .inr ⟨s, t, hs, htest⟩

/-- A cast has a target that was read as one, and none is left of a string to a name. -/
structure SingleType.IsRead (σ : Setting) (c : Cursor) (operand : Expr) (type : SingleType) :
    Prop where
  gave : Gave c (singleType σ) type
  qname : type.atomic = .qname → operand.stringLiteral? = none

/-- A call is bound by its name and the number of its arguments, and was not applied at once. -/
structure FunctionBinding.IsRead (σ : Setting) (c : Cursor) (n : Nat) (f : FunctionBinding)
    (args : List Expr) : Prop where
  bound : ∃ name, CallAt σ c n name args.length ∧ σ.host.bind? name args.length = .ok (some f)
  qname : f.kind = .constructor .qname → args.head?.bind Expr.stringLiteral? = none
  pattern : σ.language = .pattern →
    f.kind ≠ .currentGroup ∧ f.kind ≠ .currentGroupingKey ∧ f.kind ≠ .regexGroup

/-- A call that is left to fail was one of an unknown function. -/
structure Error.IsDeferred (σ : Setting) (c : Cursor) (n : Nat) (e : Error) : Prop where
  compatible : σ.host.backwardsCompatible = true
  unknown : ∃ name arity, CallAt σ c n name arity ∧ σ.host.bind? name arity = .ok none ∧
    e = .dynamic .XTDE1425 (Fault.noFunction name arity (σ.host.arities name)).message

namespace Expr

/-- The node as a reader makes it behind the cursor. -/
def IsRead (σ : Setting) (c : Cursor) : Expr → Prop
  | literal n value => value.IsRead σ c n
  | varRef _ ref => ∃ lexical, Gave c (expandName σ lexical false) ref.name
  | axisStep n axis test => test.IsRead σ c n axis
  | binding _ _ v _ _ => ∃ lexical, Gave c (expandName σ lexical false) v.name
  | typed _ (.instanceOf type) _ => Gave c (sequenceType σ) type
  | typed _ (.treatAs type code) _ => Gave c (sequenceType σ) type ∧ code = .XPDY0050
  | typed _ (.castableAs type) operand | typed _ (.castAs type) operand =>
    type.IsRead σ c operand
  | call n f args => f.IsRead σ c n args
  | sequence _ items => 2 ≤ items.length
  | raise n e => e.IsDeferred σ c n
  | contextItem _ | root _ | parent _ | filter _ _ _ | path _ _ _ | reverse _ _ | binary _ _ _ _
  | unary _ _ _ | conditional _ _ _ _ => True

/-- Under any number of predicates there is a step against the order of the document. -/
def isBare : Expr → Bool
  | axisStep _ axis _ => axis.isReverse
  | filter _ base _ => isBare base
  | _ => false

/-- A step against the order of the document, with the predicates on it, is part of what puts its
nodes back into that order and of nothing else. -/
def IsOrdered : Expr → Prop
  | reverse _ inner => inner.isBare = true
  | filter _ _ predicate => predicate.isBare = false
  | e => ∀ part ∈ e.children, part.isBare = false

/-- All nodes of the expression are as a reader makes them behind the cursor. -/
def Assembled (σ : Setting) (c : Cursor) (e : Expr) : Prop :=
  ∀ bs sub, Occurs e bs sub → sub.IsRead σ c ∧ sub.IsOrdered

/-- A whole expression, which can be part of any other. -/
structure Whole (σ : Setting) (c : Cursor) (e : Expr) : Prop where
  assembled : e.Assembled σ c
  ordered : e.isBare = false

/-! ### Trees of such nodes -/

section Nodes

variable {σ : Setting} {c : Cursor} {e : Expr}

/-- A node over assembled parts is assembled when it is as a reader makes it. -/
theorem assembled_node (h : e.IsRead σ c) (hordered : e.IsOrdered)
    (hparts : ∀ part ∈ e.children, part.Assembled σ c) : e.Assembled σ c := by
  intro bs sub hocc
  cases hocc with
  | here => exact ⟨h, hordered⟩
  | inside hmem hocc => exact hparts _ (mem_children_of_scopedParts hmem) _ _ hocc

theorem Assembled.part {part : Expr} (h : e.Assembled σ c) (hpart : part ∈ e.children) :
    part.Assembled σ c := by
  intro bs sub hocc
  obtain ⟨new, hnew⟩ := exists_mem_scopedParts hpart
  exact h _ sub (.inside hnew hocc)

theorem isOrdered_of_parts (hne : ∀ n inner, e ≠ reverse n inner)
    (hparts : ∀ part ∈ e.children, part.isBare = false) : e.IsOrdered := by
  cases e with
  | reverse n inner => exact absurd rfl (hne n inner)
  | filter n base predicate => exact hparts predicate (by simp [children])
  | _ => exact hparts

/-- A node of whole parts is a whole, unless it is a step against the order of the document. -/
theorem whole_node (h : e.IsRead σ c) (hne : ∀ n inner, e ≠ reverse n inner)
    (hbare : e.isBare = false) (hparts : ∀ part ∈ e.children, part.Whole σ c) : e.Whole σ c :=
  ⟨assembled_node h (isOrdered_of_parts hne fun part hpart => (hparts part hpart).ordered)
    fun part hpart => (hparts part hpart).assembled, hbare⟩

/-- A node without parts is whole when it is as a reader makes it. -/
theorem whole_leaf (h : e.IsRead σ c) (hne : ∀ n inner, e ≠ reverse n inner)
    (hbare : e.isBare = false) (hparts : e.children = []) : e.Whole σ c :=
  whole_node h hne hbare (by simp [hparts])

theorem whole_literal {n : Nat} {value : Literal} (h : value.IsRead σ c n) :
    (literal n value).Whole σ c :=
  whole_leaf h (by simp) rfl rfl

theorem whole_path {n : Nat} {first step : Expr} (hfirst : first.Whole σ c)
    (hstep : step.Whole σ c) : (path n first step).Whole σ c := by
  refine whole_node trivial (by simp) rfl ?_
  simpa [children] using And.intro hfirst hstep

theorem assembled_filter {n : Nat} {base predicate : Expr} (hbase : base.Assembled σ c)
    (hpredicate : predicate.Whole σ c) : (filter n base predicate).Assembled σ c := by
  refine assembled_node trivial hpredicate.ordered ?_
  simpa [children] using And.intro hbase hpredicate.assembled

theorem whole_reverse {n : Nat} {inner : Expr} (h : inner.Assembled σ c)
    (hbare : inner.isBare = true) : (reverse n inner).Whole σ c := by
  refine ⟨assembled_node trivial hbare ?_, rfl⟩
  simpa [children] using h

/-! ### Changed references -/

theorem stringLiteral?_mapRange (f : RangeVariable → RangeVariable) (e : Expr) :
    (e.mapRange f).stringLiteral? = e.stringLiteral? := by
  cases e with
  | varRef n ref => cases ref <;> rfl
  | _ => simp [mapRange, stringLiteral?]

theorem isBare_mapRange (f : RangeVariable → RangeVariable) (e : Expr) :
    (e.mapRange f).isBare = e.isBare := by
  induction e using parts_induction with
  | step e ih =>
      cases e with
      | varRef n ref => cases ref <;> rfl
      | filter n base predicate =>
          rw [mapRange, isBare, isBare]
          exact ih base (by simp [children])
      | _ => simp [mapRange, isBare]

variable {f : RangeVariable → RangeVariable}

theorem eq_reverse_of_mapRange {n : Nat} {inner : Expr} (h : e.mapRange f = reverse n inner) :
    ∃ inner', e = reverse n inner' := by
  cases e with
  | varRef m ref => cases ref <;> simp [Expr.mapRange] at h
  | reverse m inner' =>
      rw [Expr.mapRange] at h
      cases h
      exact ⟨inner', rfl⟩
  | _ => simp [Expr.mapRange] at h

theorem isOrdered_mapRange (h : e.IsOrdered) : (e.mapRange f).IsOrdered := by
  cases e with
  | reverse n inner => exact (isBare_mapRange f inner).trans h
  | filter n base predicate => exact (isBare_mapRange f predicate).trans h
  | _ =>
      refine isOrdered_of_parts (fun n inner heq => ?_) fun part hpart => ?_
      · obtain ⟨inner', h'⟩ := eq_reverse_of_mapRange heq
        cases h'
      · rw [children_mapRange] at hpart
        obtain ⟨part', hpart', rfl⟩ := List.mem_map.mp hpart
        rw [isBare_mapRange]
        exact h part' hpart'

/-- What is known of a node does not depend on the types of the variables in it. -/
theorem isRead_mapRange (hname : ∀ v, (f v).name = v.name) (h : e.IsRead σ c) :
    (e.mapRange f).IsRead σ c := by
  cases e with
  | varRef n ref =>
      cases ref with
      | range v =>
          obtain ⟨lexical, hgave⟩ := h
          refine ⟨lexical, ?_⟩
          show Gave c _ (f v).name
          rw [hname]
          exact hgave
      | declared name type => exact h
  | typed n op operand =>
      cases op with
      | instanceOf type => exact h
      | treatAs type code => exact h
      | castableAs type | castAs type =>
          refine ⟨h.gave, fun hqname => ?_⟩
          rw [stringLiteral?_mapRange]
          exact h.qname hqname
  | call n g args =>
      obtain ⟨hbound, hqname, hpattern⟩ := h
      have hliteral : stringLiteral? ∘ mapRange f = stringLiteral? :=
        funext (stringLiteral?_mapRange f)
      refine ⟨?_, fun hkind => ?_, hpattern⟩
      · rw [mapRangeAll_eq_map, List.length_map]
        exact hbound
      · rw [mapRangeAll_eq_map, List.head?_map, Option.bind_map, hliteral]
        exact hqname hkind
  | sequence n items =>
      show 2 ≤ _
      rw [mapRangeAll_eq_map, List.length_map]
      exact h
  | _ => exact h

/-- An expression stays whole when the references in it are retyped. -/
theorem Whole.mapRange (hname : ∀ v, (f v).name = v.name) (h : e.Whole σ c) :
    (e.mapRange f).Whole σ c := by
  refine ⟨fun bs sub hocc => ?_, (isBare_mapRange f e).trans h.ordered⟩
  obtain ⟨sub', hsub', rfl⟩ := occurs_mapRange.mp hocc
  obtain ⟨hread, hordered⟩ := h.assembled bs sub' hsub'
  exact ⟨isRead_mapRange hname hread, isOrdered_mapRange hordered⟩

theorem Whole.withTypes (known : List RangeVariable) (h : e.Whole σ c) :
    (withTypes known e).Whole σ c := by
  rw [withTypes_eq_mapRange]
  exact h.mapRange fun v => (RangeVariable.typedBy_same known v).2

/-- Nested bindings are whole when the domains and the action are. -/
theorem whole_nestClauses {start : Nat} {kind : BindingKind} {cs : List Clause} {action : Expr}
    (known : List RangeVariable)
    (hcs : ∀ clause ∈ cs, (∃ lexical, Gave c (expandName σ lexical false) clause.bound.name) ∧
      clause.domain.Whole σ c)
    (ha : action.Whole σ c) : (nestClauses start kind known cs action).Whole σ c := by
  induction cs generalizing known with
  | nil => exact ha.withTypes known
  | cons clause cs ih =>
      rw [nestClauses]
      obtain ⟨hname, hdomain⟩ := hcs clause List.mem_cons_self
      refine whole_node hname (by simp) rfl ?_
      have haction := ih (known ++ [{ clause.bound with
        type := ⟨(Parse.withTypes known clause.domain).itemType, .exactlyOne⟩ }])
        fun clause' hclause' => hcs clause' (List.mem_cons_of_mem _ hclause')
      simpa [children] using And.intro (hdomain.withTypes known) haction

end Nodes

end Expr

end XPath
