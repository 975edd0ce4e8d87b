import XPath.Proofs.Assembling
import XPath.Proofs.Literals

/-!
# The forms of expressions that are read

Not every tree is read from a source. A name has a local part that can be written, an integer is
below its bound, the type of a cast has values, a row of items has two at least, and so on. What
a reader knows of the nodes it makes is collected here (`Expr.IsFormed`), and holds of all nodes
outside the steps against the order of the document, which are put back into it
(`complete_formed`).
-/

namespace XPath

open Parse

/-! ### Hosts -/

/-- A host that takes names without a qualifier to be in no namespace, binds the qualifiers `fn`
and `xs` as usual, has the standard functions, and knows types by their names. -/
structure Resolver.IsUsual (host : Resolver) : Prop where
  elements : host.elementNamespace = none
  schema : host.namespaceOf "xs" = .ok Namespace.schema
  functions : host.namespaceOf "fn" = .ok Namespace.functions
  library : ∀ name arity, host.bind? name arity = .ok (FunctionLibrary.standard.bind? name arity)
  types : ∀ name type, host.schemaType? name = some type → type.name = name

/-- A host that knows types by their names. -/
def Resolver.NamesTypes (host : Resolver) : Prop :=
  ∀ name type, host.schemaType? name = some type → type.name = name

theorem Resolver.IsUsual.namesTypes {host : Resolver} (h : host.IsUsual) : host.NamesTypes :=
  h.types

/-- A function is bound under the name that it is looked up by. -/
theorem FunctionLibrary.bind?_name {l : FunctionLibrary} {name : ExpandedName} {arity : Nat}
    {f : FunctionBinding} (h : l.bind? name arity = some f) : f.name = name := by
  unfold bind? at h
  split at h
  · split at h
    · cases h
      rfl
    · cases h
  · obtain ⟨s, -, rfl⟩ := Option.map_eq_some_iff.mp h
    rfl

/-! ### Names, tests and types -/

/-- The local part can be written. -/
def ExpandedName.IsName (n : ExpandedName) : Prop :=
  isNCName n.localName.toList = true

/-- The host knows the type by its name, which can be written. -/
structure SchemaType.IsKnown (host : Resolver) (type : SchemaType) : Prop where
  known : host.schemaType? type.name = some type
  name : type.name.IsName

namespace NodeTest

/-- A test for elements or attributes in parentheses. -/
inductive IsNamedTest (host : Resolver) (k : NodeKind) : NodeTest → Prop
  | kind : IsNamedTest host k (.kind k)
  | name {n : ExpandedName} : n.IsName → IsNamedTest host k (.name k n)
  | content {type : SchemaType} {nillable : Bool} : type.IsKnown host →
      (nillable = true → k = .element) → IsNamedTest host k (.content k type nillable)
  | both {n : ExpandedName} {type : SchemaType} {nillable : Bool} : n.IsName →
      type.IsKnown host → (nillable = true → k = .element) →
      IsNamedTest host k (.both (.name k n) (.content k type nillable))

/-- A test that starts with a keyword. -/
inductive IsKindTest (host : Resolver) : NodeTest → Prop
  | anyNode : IsKindTest host .anyNode
  | text : IsKindTest host (.kind .text)
  | comment : IsKindTest host (.kind .comment)
  | instruction : IsKindTest host (.kind .processingInstruction)
  | namespaceNode : host.namespaceTests = true → IsKindTest host (.kind .namespaceNode)
  | document : IsKindTest host (.kind .document)
  | documentOf {test : NodeTest} : test.IsNamedTest host .element → IsKindTest host (.document test)
  | instructionOf {target : String} : isNCName target.toList = true →
      IsKindTest host (.name .processingInstruction (.unqualified target))
  | elements {test : NodeTest} : test.IsNamedTest host .element → IsKindTest host test
  | attributes {test : NodeTest} : test.IsNamedTest host .attribute → IsKindTest host test

/-- A test in a step along an axis. -/
inductive IsStepTest (host : Resolver) (axis : Axis) : NodeTest → Prop
  | kindTest {test : NodeTest} : test.IsKindTest host → IsStepTest host axis test
  | star : IsStepTest host axis (.kind axis.principalKind)
  | name {n : ExpandedName} : n.IsName → IsStepTest host axis (.name axis.principalKind n)
  | localName {l : String} : isNCName l.toList = true →
      IsStepTest host axis (.localName axis.principalKind l)
  | inNamespace {k : NodeKind} {uri? : Option String} :
      IsStepTest host axis (.inNamespace k uri?)

end NodeTest

/-- A type of items that is written as one. -/
inductive ItemType.IsFormed (host : Resolver) : ItemType → Prop
  | anyItem : IsFormed host .anyItem
  | atomic (type : AtomicType) : IsFormed host (.atomic type)
  | node {test : NodeTest} : test.IsKindTest host → IsFormed host (.node test)

/-- The type of the empty sequence, or one of items. -/
inductive SequenceType.IsFormed (host : Resolver) : SequenceType → Prop
  | empty : IsFormed host .empty
  | items {item : ItemType} {occurrence : Occurrence} : item.IsFormed host → occurrence ≠ .empty →
      IsFormed host ⟨item, occurrence⟩

/-! ### Nodes -/

/-- A cast has a target with values, and none is left of a string to a name. -/
structure SingleType.IsFormed (operand : Expr) (t : SingleType) : Prop where
  values : t.atomic.isAbstract = false
  qname : t.atomic = .qname → operand.stringLiteral? = none

/-- A type operator and the type after it. -/
def TypeOperation.IsFormed (host : Resolver) (operand : Expr) : TypeOperation → Prop
  | instanceOf type => type.IsFormed host
  | treatAs type code => type.IsFormed host ∧ code = .XPDY0050
  | castableAs type | castAs type => type.IsFormed operand

/-- A node as it is read. -/
def Expr.IsFormed (host : Resolver) : Expr → Prop
  | literal _ value => value.IsFormed host
  | varRef _ ref => ref.name.IsName
  | axisStep _ axis test => axis.isReverse = false ∧ test.IsStepTest host axis
  | binding _ _ v _ _ => v.name.IsName
  | typed _ op operand => op.IsFormed host operand
  | call _ f args => host.bind? f.name args.length = .ok (some f) ∧ f.name.IsName ∧
      (f.kind = .constructor .qname → args.head?.bind stringLiteral? = none)
  | sequence _ items => 2 ≤ items.length
  | contextItem _ | root _ | parent _ | filter _ _ _ | path _ _ _ | reverse _ _ | binary _ _ _ _
  | unary _ _ _ | conditional _ _ _ _ | raise _ _ => True

/-- An expression as it is read. Nothing is said of what is put back into the order of the
document. -/
inductive Expr.Formed (host : Resolver) : Expr → Prop
  | reverse {n : Nat} {e : Expr} : Formed host (.reverse n e)
  | node {e : Expr} : e.IsFormed host → (∀ c ∈ e.children, Formed host c) → Formed host e

namespace Parse

variable {α β : Type} {σ : Setting} {nested : Parse Expr}

/-- Whatever the action gives has a property. -/
def Gives (P : α → Prop) (p : Parse α) : Prop :=
  ∀ s a t, p s = .ok a t → P a

namespace Gives

variable {P : α → Prop} {Q : β → Prop}

theorem any {p : Parse α} : Gives (fun _ => True) p :=
  fun _ _ _ _ => trivial

theorem mono {P' : α → Prop} {p : Parse α} (hp : Gives P' p) (h : ∀ a, P' a → P a) : Gives P p :=
  fun s a t ha => h a (hp s a t ha)

theorem pure {a : α} (h : P a) : Gives P (pure a) := by
  intro s b t hb
  obtain ⟨rfl, -⟩ := pure_ok.mp hb
  exact h

/-- What comes of actions in a row comes of the last one, on a value of the first. -/
theorem bind {p : Parse α} {q : α → Parse β} (hp : Gives P p) (hq : ∀ a, P a → Gives Q (q a)) :
    Gives Q (p >>= q) := by
  intro s b u h
  obtain ⟨a, t, ha, hb⟩ := bind_ok.mp h
  exact hq a (hp s a t ha) t b u hb

/-- Nothing is asked of what the first action gives. -/
theorem after {p : Parse α} {q : α → Parse β} (hq : ∀ a, Gives Q (q a)) : Gives Q (p >>= q) :=
  .bind .any fun a _ => hq a

theorem reject {f : Fault} : Gives P (reject σ f) :=
  fun _ _ _ h => absurd h reject_ne_ok

/-- Nothing comes after a failure. -/
theorem reject_bind {f : Fault} {q : α → Parse β} : Gives Q (Parse.reject σ f >>= q) :=
  .bind (P := fun _ => False) .reject fun _ h => h.elim

theorem nesting {p : Parse α} (hp : Gives P p) : Gives P (nesting p) := by
  intro s a t h
  obtain ⟨u, hu, -⟩ := nesting_ok h
  exact hp s a u hu

/-- A property that each round passes on holds at the end of a repetition. -/
theorem repeatWhile {go : Token → Bool} {part : α → Parse α}
    (hpart : ∀ a, P a → Gives P (part a)) {a : α} (ha : P a) :
    Gives P (repeatWhile go part a) := by
  intro s b t h
  exact repeatWhile_ok (I := fun a _ => P a) (fun a s b t ha _ hb => hpart a ha s b t hb) ha h

end Gives

/-! ### Names -/

namespace Gives

/-- A name that is expanded has a local part without colons. -/
theorem expandName {lexical : String} {b : Bool} :
    Gives ExpandedName.IsName (expandName σ lexical b) := by
  unfold Parse.expandName
  split
  · exact .reject
  · next n hparse =>
      have hname := (parse?_spec hparse).1
      split
      · exact .pure hname
      · exact .after fun uri => .pure hname

theorem functionName {lexical : String} :
    Gives ExpandedName.IsName (functionName σ lexical) := by
  unfold Parse.functionName
  split
  · exact .reject
  · next n hparse =>
      have hname := (parse?_spec hparse).1
      split
      · exact .pure hname
      · exact .after fun uri => .pure hname

/-! ### Node tests and types -/

/-- The type in a test is known to the host under its own name. -/
theorem contentTest (hσ : σ.host.NamesTypes) {k : NodeKind} :
    Gives (fun test => ∃ type nillable, test = .content k type nillable ∧
      type.IsKnown σ.host ∧ (nillable = true → k = .element)) (contentTest σ k) := by
  unfold Parse.contentTest
  refine .after fun token => ?_
  split
  · exact .reject
  · exact .reject
  · refine .after fun lexical => ?_
    refine .bind .expandName fun name hname => ?_
    split
    · exact .reject
    · next type htype =>
        have hknown : type.IsKnown σ.host := by
          have heq := hσ name type htype
          exact ⟨by rw [heq]; exact htype, by rw [heq]; exact hname⟩
        have hrest : Gives (fun test => ∃ type nillable, test = .content k type nillable ∧
            type.IsKnown σ.host ∧ (nillable = true → k = .element)) (do
              Parse.advance σ
              let nillable := k = .element && (← Parse.token) = .questionMark
              if nillable then Parse.advance σ
              return NodeTest.content k type nillable) := by
          refine .after fun _ => ?_
          refine .after fun next => ?_
          have hpure : Gives (fun test => ∃ type nillable, test = .content k type nillable ∧
              type.IsKnown σ.host ∧ (nillable = true → k = .element))
              (Pure.pure (.content k type (k = .element && next = .questionMark)) :
                Parse NodeTest) := by
            refine .pure ⟨type, _, rfl, hknown, fun hnillable => ?_⟩
            rw [Bool.and_eq_true] at hnillable
            exact of_decide_eq_true hnillable.1
          dsimp only
          split
          · exact .after fun _ => hpure
          · exact hpure
        dsimp only
        split
        · exact .after fun _ => hrest
        · exact hrest
  · exact .reject

theorem testName {k : NodeKind} {bySchema : Bool} :
    Gives (fun name? => ∀ name ∈ name?, name.IsName) (testName σ k bySchema) := by
  have hstar : Gives (fun name? : Option ExpandedName => ∀ name ∈ name?, name.IsName)
      (if bySchema then Parse.reject σ .schemaTestStar else Pure.pure none) := by
    split
    · exact .reject
    · exact .pure fun name h => by cases h
  unfold Parse.testName
  refine .after fun token => ?_
  split
  · exact hstar
  · exact hstar
  · refine .after fun lexical => ?_
    refine .bind .expandName fun name hname => ?_
    refine .pure fun name' h => ?_
    cases h
    exact hname
  · exact .reject

/-- A test for elements or attributes has a name, a type that is known, or both. -/
theorem namedTest (hσ : σ.host.NamesTypes) {k : NodeKind} {bySchema : Bool} :
    Gives (NodeTest.IsNamedTest σ.host k) (namedTest σ k bySchema) := by
  unfold Parse.namedTest
  refine .after fun lexical => ?_
  refine .bind .testName fun name? hname => ?_
  refine .after fun _ => ?_
  refine .after fun next => ?_
  split
  · refine .after fun _ => ?_
    split
    · exact .pure .kind
    · next name =>
        split
        · exact .pure (.name (hname name rfl))
        · split
          · exact .reject
          · exact .reject
  · have hcontent : ∀ q : NodeTest → Parse NodeTest,
        (∀ type nillable, type.IsKnown σ.host → (nillable = true → k = .element) →
          Gives (NodeTest.IsNamedTest σ.host k) (q (.content k type nillable))) →
        Gives (NodeTest.IsNamedTest σ.host k) (do
          if bySchema then Parse.reject σ .schemaTestContent
          Parse.advance σ
          let content ← Parse.contentTest σ k
          skip σ .rightParen
          q content) := by
      intro q hq
      have hrest : Gives (NodeTest.IsNamedTest σ.host k) (do
          Parse.advance σ
          let content ← Parse.contentTest σ k
          skip σ .rightParen
          q content) := by
        refine .after fun _ => ?_
        refine .bind (.contentTest hσ) fun content hcontent => ?_
        refine .after fun _ => ?_
        obtain ⟨type, nillable, rfl, hknown, hnillable⟩ := hcontent
        exact hq type nillable hknown hnillable
      dsimp only
      split
      · exact .after fun _ => hrest
      · exact hrest
    refine hcontent _ fun type nillable hknown hnillable => ?_
    split
    · exact .pure (.content hknown hnillable)
    · next name => exact .pure (.both (hname name rfl) hknown hnillable)
  · exact .reject

theorem elementTest (hσ : σ.host.NamesTypes) {k : NodeKind} {bySchema : Bool} :
    Gives (NodeTest.IsNamedTest σ.host k) (elementTest σ k bySchema) := by
  unfold Parse.elementTest
  refine .after fun _ => ?_
  refine .after fun next => ?_
  split
  · dsimp only
    split
    · exact .after fun _ => .after fun _ => .pure .kind
    · exact .after fun _ => .pure .kind
  · exact .namedTest hσ

theorem plainTest {word : String} {test : NodeTest} (h : test.IsKindTest σ.host) :
    Gives (NodeTest.IsKindTest σ.host) (plainTest σ word test) := by
  refine .after fun empty => ?_
  split
  · exact .pure h
  · exact .reject

theorem namespaceTest : Gives (NodeTest.IsKindTest σ.host) (namespaceTest σ) := by
  refine .after fun empty => ?_
  split
  · split
    · next h => exact .pure (.namespaceNode h)
    · exact .reject
  · exact .reject

theorem documentTest (hσ : σ.host.NamesTypes) :
    Gives (NodeTest.IsKindTest σ.host) (documentTest σ) := by
  refine .after fun empty => ?_
  split
  · exact .pure .document
  · refine .after fun word => ?_
    refine .after fun next => ?_
    split
    · exact .bind (.elementTest hσ) fun inner hinner => .after fun _ => .pure (.documentOf hinner)
    · exact .reject

theorem instructionTest : Gives (NodeTest.IsKindTest σ.host) (instructionTest σ) := by
  have htarget : Gives (fun target => isNCName target.toList = true) (instructionTarget σ) := by
    refine .after fun text => ?_
    refine .after fun token => ?_
    split
    · dsimp only
      split
      · next h => exact .pure h
      · exact .reject
    · split
      · exact .reject
      · next n hparse =>
          split
          · exact .pure (parse?_spec hparse).1
          · exact .reject
    · exact .reject
  refine .after fun empty => ?_
  split
  · exact .pure .instruction
  · refine .bind htarget fun target h => ?_
    refine .after fun _ => ?_
    exact .after fun _ => .pure (.instructionOf h)

/-- A test that starts with a keyword is one of the kind tests. -/
theorem kindTest (hσ : σ.host.NamesTypes) : Gives (NodeTest.IsKindTest σ.host) (kindTest σ) := by
  refine .after fun word => ?_
  split
  · exact .plainTest .anyNode
  · exact .plainTest .text
  · exact .plainTest .comment
  · exact .namespaceTest
  · exact .documentTest hσ
  · exact .instructionTest
  · exact .mono (.elementTest hσ) fun _ => .elements
  · exact .mono (.elementTest hσ) fun _ => .elements
  · exact .mono (.elementTest hσ) fun _ => .attributes
  · exact .mono (.elementTest hσ) fun _ => .attributes
  · exact .after fun _ => .reject
  · exact .reject

theorem plainType {type : ItemType} (h : type.IsFormed σ.host ∨ type = .empty) :
    Gives (fun type => type.IsFormed σ.host ∨ type = .empty) (plainType σ type) := by
  refine .after fun _ => ?_
  exact .after fun _ => .pure h

theorem itemType (hσ : σ.host.NamesTypes) :
    Gives (fun type => type.IsFormed σ.host ∨ type = .empty) (itemType σ) := by
  refine .after fun token => ?_
  split
  · refine .after fun lexical => ?_
    refine .after fun type => ?_
    exact .after fun _ => .pure (.inl (.atomic type))
  · refine .after fun word => ?_
    split
    · exact .plainType (.inl .anyItem)
    · exact .plainType (.inr rfl)
    · exact .bind (.kindTest hσ) fun test h => .pure (.inl (.node h))
  · exact .reject

/-- A sequence type has the empty type alone, or a mark that goes with its items. -/
theorem sequenceType (hσ : σ.host.NamesTypes) :
    Gives (SequenceType.IsFormed σ.host) (sequenceType σ) := by
  refine .bind (.itemType hσ) fun item hitem => ?_
  split
  · exact .pure .empty
  · next hne =>
      have hitem := hitem.resolve_right hne
      refine .after fun mark => ?_
      split
      · exact .pure (.items hitem (by simp))
      · next occurrence hmark =>
          refine .after fun _ => .pure (.items hitem ?_)
          rintro rfl
          unfold occurrenceMark? at hmark
          split at hmark <;> cases hmark

/-- The target of a cast is no abstract type. -/
theorem singleType : Gives (fun t : SingleType => t.atomic.isAbstract = false) (singleType σ) := by
  refine .after fun _ => ?_
  refine .after fun lexical => ?_
  refine .after fun type => ?_
  dsimp only
  split
  · exact .reject_bind
  · next habstract =>
      have hvalues : type.isAbstract = false := Bool.eq_false_iff.mpr habstract
      refine .after fun _ => ?_
      refine .after fun next => ?_
      split
      · exact .after fun _ => .pure hvalues
      · exact .pure hvalues

/-! ### Steps -/

/-- The test of a step goes with the axis of the step. -/
theorem nodeTest (hσ : σ.host.NamesTypes) (axis : Axis) :
    Gives (NodeTest.IsStepTest σ.host axis) (nodeTest σ axis.principalKind) := by
  unfold Parse.nodeTest
  refine .after fun token => ?_
  split
  · refine .after fun lexical => ?_
    refine .bind .expandName fun name hname => ?_
    refine .after fun _ => ?_
    exact .pure (.name hname)
  · refine .after fun qualifier => ?_
    refine .after fun uri => ?_
    exact .after fun _ => .pure .inNamespace
  · refine .after fun _ => ?_
    refine .after fun localName => ?_
    refine .after fun _ => ?_
    dsimp only
    split
    · exact .reject_bind
    · next hname =>
        refine .after fun _ => .pure (.localName ?_)
        simpa using hname
  · exact .after fun _ => .pure .star
  · exact .mono (.kindTest hσ) fun _ => .kindTest
  · exact .reject

end Gives

end Parse

/-! ### All expressions -/

section Formed

variable {σ : Setting} {c : Cursor} (hσ : σ.host.IsUsual)

theorem Literal.IsRead.isFormed {n : Nat} {value : Literal} (h : value.IsRead σ c n) :
    value.IsFormed σ.host := by
  cases h with
  | string text => trivial
  | number hnumber => exact isFormed_ofNumber? hnumber
  | qname hliteral => exact isFormed_qnameLiteral hliteral
  | boolean hasked => trivial
  | emptySequence => trivial

/-- What a part gave is as everything is that it gives. -/
theorem Parse.Gives.of_gave {α : Type} {P : α → Prop} {p : Parse α} {a : α} (hp : Gives P p)
    (h : Gave c p a) : P a := by
  obtain ⟨s, t, -, h⟩ := h
  exact hp s a t h

theorem Parse.CallAt.isName {n arity : Nat} {name : ExpandedName} (h : CallAt σ c n name arity) :
    name.IsName := by
  obtain ⟨levels, args, s, t, -, -, -, h, -⟩ := h
  have hhead : Gives (fun head => head.1.IsName) (callHead σ (singleWithin σ levels)) := by
    refine .after fun lexical => ?_
    refine .bind .functionName fun name hname => ?_
    refine .after fun _ => ?_
    exact .after fun args => .pure hname
  exact hhead s (name, args) t h

theorem SingleType.IsRead.isAbstract {operand : Expr} {type : SingleType}
    (h : type.IsRead σ c operand) : type.atomic.isAbstract = false := by
  have hsingle : Gives (fun t : SingleType => t.atomic.isAbstract = false) (singleType σ) :=
    .singleType
  exact hsingle.of_gave h.gave

/-- A test in a tree goes with the axis of its step, wherever it has been read. -/
theorem NodeTest.IsRead.isStepTest {n : Nat} {axis : Axis} {test : NodeTest}
    (htypes : σ.host.NamesTypes) (h : test.IsRead σ c n axis) : test.IsStepTest σ.host axis := by
  cases h with
  | ofAxis _ h => exact Gives.of_gave (.nodeTest htypes axis) h
  | bare h =>
      rcases h.gave with hkind | htest
      · exact .kindTest (Gives.of_gave (.kindTest htypes) hkind)
      · exact Gives.of_gave (.nodeTest htypes axis) htest
  | descendants haxis htest =>
      rw [htest]
      exact .kindTest .anyNode

include hσ in
/-- A node as a reader makes it is formed, unless it is a step against the order of the document. -/
theorem Expr.IsRead.isFormed {e : Expr} (h : e.IsRead σ c) (hbare : e.isBare = false) :
    e.IsFormed σ.host := by
  cases e with
  | literal n value => exact Literal.IsRead.isFormed h
  | varRef n ref =>
      obtain ⟨lexical, h⟩ := h
      show ref.name.IsName
      exact Gives.of_gave .expandName h
  | axisStep n axis test => exact ⟨hbare, NodeTest.IsRead.isStepTest hσ.namesTypes h⟩
  | binding n kind v domain action =>
      obtain ⟨lexical, h⟩ := h
      show v.name.IsName
      exact Gives.of_gave .expandName h
  | typed n op operand =>
      cases op with
      | instanceOf type =>
          show type.IsFormed σ.host
          exact Gives.of_gave (.sequenceType hσ.namesTypes) h
      | treatAs type code =>
          refine ⟨?_, h.2⟩
          exact Gives.of_gave (.sequenceType hσ.namesTypes) h.1
      | castableAs type | castAs type => exact ⟨h.isAbstract, h.qname⟩
  | call n f args =>
      obtain ⟨name, hat, hbind⟩ := h.bound
      have heq : f.name = name := by
        rw [hσ.library] at hbind
        exact FunctionLibrary.bind?_name (Except.ok.inj hbind)
      subst heq
      exact ⟨hbind, hat.isName, h.qname⟩
  | sequence n items => exact h
  | _ => trivial

include hσ in
/-- What is assembled is formed, wherever it is no step against the order of the document. -/
theorem Expr.Assembled.formed {e : Expr} (h : e.Assembled σ c) (hbare : e.isBare = false) :
    e.Formed σ.host := by
  induction e using parts_induction with
  | step e ih =>
      obtain ⟨hread, hordered⟩ := h [] e (.here e)
      by_cases hreverse : ∃ n inner, e = .reverse n inner
      · obtain ⟨n, inner, rfl⟩ := hreverse
        exact .reverse
      · refine .node (hread.isFormed hσ hbare) fun part hpart => ih part hpart (h.part hpart) ?_
        cases e with
        | reverse n inner => exact absurd ⟨n, inner, rfl⟩ hreverse
        | filter n base predicate =>
            simp only [children, List.mem_cons, List.not_mem_nil, or_false] at hpart
            rcases hpart with rfl | rfl
            · exact hbare
            · exact hordered
        | _ => exact hordered part hpart

include hσ in
/-- An expression that is read is formed as expressions are. -/
theorem Parse.complete_formed {terminator : Token} :
    Gives (Expr.Formed σ.host) (complete σ terminator) := by
  intro s e t h
  have hwhole := complete_assembled h
  exact hwhole.assembled.formed hσ hwhole.ordered

end Formed

end XPath
