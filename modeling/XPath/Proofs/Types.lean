import XPath.Proofs.Attempt
import XPath.Proofs.Written

/-!
# Types as text

Names, node tests and sequence types are read as what they were written for, where the host takes
names without a qualifier to be in no namespace, and binds the qualifiers that the others are
written with to their namespaces (`Resolver.Binds`). A usual host does so for all names that are
in no namespace, and for the built-in types.
-/

namespace XPath

open Lexeme Parse

/-! ### Names -/

/-- The name is in no namespace, or in a well-known one to which the host binds its conventional
qualifier. -/
def ExpandedName.IsBound (host : Resolver) (n : ExpandedName) : Prop :=
  n.uri = "" ∨ ∃ q, Namespace.qualifier? n.uri = some q ∧ host.namespaceOf q = .ok n.uri

theorem ExpandedName.IsBound.isPlain {host : Resolver} {n : ExpandedName} (h : n.IsBound host) :
    n.IsPlain :=
  h.imp_right fun ⟨q, hq, _⟩ => ⟨q, hq⟩

/-- The names in a test. -/
def NodeTest.names : NodeTest → List ExpandedName
  | anyNode | kind _ | inNamespace _ _ | localName _ _ => []
  | name _ n => [n]
  | document inner => inner.names
  | content _ type _ => [type.name]
  | both left right => left.names ++ right.names

/-- The names in a type of items. -/
def ItemType.names : ItemType → List ExpandedName
  | anyItem | empty => []
  | atomic type => [type.expandedName]
  | node test => test.names

/-- The names in a type. -/
def SequenceType.names (type : SequenceType) : List ExpandedName :=
  type.item.names

/-- A host to which these names mean what they are written for. -/
structure Resolver.Binds (host : Resolver) (names : List ExpandedName) : Prop where
  elements : host.elementNamespace = none
  bound : ∀ n ∈ names, n.IsBound host

namespace Resolver.Binds

variable {host : Resolver} {names : List ExpandedName}

theorem mono {names' : List ExpandedName} (h : host.Binds names)
    (hsub : ∀ n ∈ names', n ∈ names) : host.Binds names' :=
  ⟨h.elements, fun n hn => h.bound n (hsub n hn)⟩

theorem single {n : ExpandedName} (h : host.Binds [n]) : n.IsBound host :=
  h.bound n (List.mem_singleton.mpr rfl)

theorem left {names' : List ExpandedName} (h : host.Binds (names ++ names')) : host.Binds names :=
  h.mono fun _ => List.mem_append_left _

theorem right (names : List ExpandedName) {names' : List ExpandedName}
    (h : host.Binds (names ++ names')) :
    host.Binds names' :=
  h.mono fun _ => List.mem_append_right _

end Resolver.Binds

/-! ### What can be written -/

/-- The type is built in, or its name is in no namespace. -/
def SchemaType.isLegible : SchemaType → Bool
  | user name _ => name.uri = ""
  | _ => true

/-- No name in the test needs a qualifier. -/
def NodeTest.isLegible : NodeTest → Bool
  | anyNode | kind _ | localName _ _ => true
  | inNamespace _ _ => false
  | name _ n => n.uri = ""
  | document inner => inner.isLegible
  | content _ type _ => type.isLegible
  | both left right => left.isLegible && right.isLegible

/-- No name in the type needs a qualifier. -/
def ItemType.isLegible : ItemType → Bool
  | node test => test.isLegible
  | _ => true

/-- The keyword of a test. -/
def NodeTest.word : NodeTest → String
  | anyNode => "node"
  | kind k | name k _ | content k _ _ | inNamespace k _ | localName k _ => k.keyword
  | document _ => "document-node"
  | both left _ => left.word

/-- What stands in the parentheses of a test behind its keyword. -/
def NodeTest.argumentText : NodeTest → String
  | name _ n => n.render
  | content _ type nillable => "*, " ++ renderContent type nillable
  | both (name _ n) (content _ type nillable) => n.render ++ ", " ++ renderContent type nillable
  | document inner => inner.word ++ "(" ++ inner.argumentText ++ ")"
  | _ => ""

theorem NodeTest.IsNamedTest.word_eq {host : Resolver} {k : NodeKind} {test : NodeTest}
    (h : test.IsNamedTest host k) : test.word = k.keyword := by
  cases h <;> rfl

theorem NodeTest.IsNamedTest.argumentText_head {host : Resolver} {k : NodeKind} {test : NodeTest}
    (h : test.IsNamedTest host k) (hbinds : host.Binds test.names) (cs : List Char) :
    (test.argumentText.toList ++ ')' :: cs).head? ≠ some ':' := by
  have hname : ∀ {n : ExpandedName} (more : List Char), n.IsName → host.Binds [n] →
      (n.render.toList ++ more).head? ≠ some ':' := fun more hn hbinds =>
    (ExpandedName.isWord_render hn hbinds.single.isPlain).head?_ne rfl more
  cases h with
  | kind => simp [argumentText]
  | name hn => exact hname _ hn hbinds
  | content _ _ => simp [argumentText]
  | @both n _ _ hn _ _ =>
      have hnamed : host.Binds [n] := Resolver.Binds.left hbinds
      rw [argumentText, String.toList_append, List.append_assoc, String.toList_append,
        List.append_assoc]
      exact hname _ hn hnamed

/-- The keywords of tests are keywords of kind tests, but not those of types. -/
theorem NodeTest.IsKindTest.word_mem {host : Resolver} {test : NodeTest}
    (h : test.IsKindTest host) :
    test.word ∈ ["node", "text", "comment", "processing-instruction", "namespace-node",
      "document-node", "element", "attribute"] := by
  cases h with
  | elements h => rw [h.word_eq]; decide
  | attributes h => rw [h.word_eq]; decide
  | _ => simp [word, NodeKind.keyword]

/-- A test for elements or attributes as a type is written with its keyword. -/
theorem NodeTest.IsNamedTest.render_node {host : Resolver} {k : NodeKind} {test : NodeTest}
    (h : test.IsNamedTest host k) (hk : k = .element ∨ k = .attribute) :
    (ItemType.node test).render = test.word ++ "(" ++ test.argumentText ++ ")" := by
  cases h with
  | kind => rcases hk with rfl | rfl <;> rfl
  | name _ => rcases hk with rfl | rfl <;> rfl
  | content _ _ =>
      show _ ++ "(*, " ++ _ ++ ")" = _ ++ "(" ++ ("*, " ++ _) ++ ")"
      simp [← String.toList_inj, word]
  | both _ _ _ =>
      show _ ++ "(" ++ _ ++ ", " ++ _ ++ ")" = _ ++ "(" ++ (_ ++ ", " ++ _) ++ ")"
      simp only [String.append_assoc, word]

/-- The element test inside a test for documents is written as it is alone. -/
theorem NodeTest.IsNamedTest.render_document {host : Resolver} {test : NodeTest}
    (h : test.IsNamedTest host .element) :
    (NodeTest.document test).render = "document-node(" ++ (ItemType.node test).render ++ ")" := by
  cases h with
  | name _ =>
      show "document-node(element(" ++ _ ++ "))" =
        "document-node(" ++ ("element(" ++ _ ++ ")") ++ ")"
      simp [← String.toList_inj]
  | _ => rfl

/-- So is every kind test. -/
theorem NodeTest.IsKindTest.render_node {host : Resolver} {test : NodeTest}
    (h : test.IsKindTest host) :
    (ItemType.node test).render = test.word ++ "(" ++ test.argumentText ++ ")" := by
  cases h with
  | elements h => exact h.render_node (.inl rfl)
  | attributes h => exact h.render_node (.inr rfl)
  | documentOf h =>
      show NodeTest.render _ = _
      rw [h.render_document, h.render_node (.inl rfl)]
      simp [word, argumentText]
  | _ => rfl

/-- A kind test in a step is written likewise, unless it is the test of a name. -/
theorem NodeTest.IsKindTest.render_eq {host : Resolver} {test : NodeTest}
    (h : test.IsKindTest host)
    (hname : ∀ k n, test = .name k n → k ≠ .element ∧ k ≠ .attribute) :
    test.render = test.word ++ "(" ++ test.argumentText ++ ")" := by
  rw [← h.render_node, ItemType.render]
  · rintro n rfl
    exact (hname _ n rfl).1 rfl
  · rintro n rfl
    exact (hname _ n rfl).2 rfl

/-- The keyword of a test is called, and is not that of another type. -/
theorem NodeTest.isPlainKeyword {word : String}
    (h : word ∈ ["node", "text", "comment", "processing-instruction", "namespace-node",
      "document-node", "element", "attribute"]) :
    isNCName word.toList = true ∧ Token.ofCallWord word = .nodeKind ∧ word ≠ "item" ∧
      word ≠ "empty-sequence" := by
  revert word
  decide

/-- What stands in the parentheses of a test does not start with a colon. -/
theorem NodeTest.IsKindTest.argumentText_head {host : Resolver} {test : NodeTest}
    (h : test.IsKindTest host) (hbinds : host.Binds test.names) (cs : List Char) :
    (test.argumentText.toList ++ ')' :: cs).head? ≠ some ':' := by
  cases h with
  | documentOf h =>
      rw [argumentText, h.word_eq]
      simp [NodeKind.keyword]
  | @instructionOf target htarget =>
      exact (IsWord.simple htarget).head?_ne rfl _
  | elements h => exact h.argumentText_head hbinds cs
  | attributes h => exact h.argumentText_head hbinds cs
  | _ => simp [argumentText]

namespace Resolver.IsUsual

variable {host : Resolver}

theorem isBound_schema (hhost : host.IsUsual) (localName : String) :
    ExpandedName.IsBound host ⟨Namespace.schema, localName⟩ :=
  .inr ⟨"xs", rfl, hhost.schema⟩

theorem isBound_type (hhost : host.IsUsual) {type : SchemaType} (h : type.isLegible = true) :
    type.name.IsBound host := by
  cases type with
  | user name isAtomic => exact .inl (of_decide_eq_true h)
  | _ => exact hhost.isBound_schema _

theorem binds_test (hhost : host.IsUsual) {test : NodeTest} (h : test.isLegible = true) :
    host.Binds test.names := by
  refine ⟨hhost.elements, ?_⟩
  induction test with
  | anyNode | kind | localName | inNamespace => exact fun n hn => absurd hn List.not_mem_nil
  | name k n =>
      intro n' hn
      rw [List.mem_singleton.mp hn]
      exact .inl (of_decide_eq_true h)
  | document inner ih => exact ih h
  | content k type nillable =>
      intro n hn
      rw [List.mem_singleton.mp hn]
      exact hhost.isBound_type h
  | both left right ihleft ihright =>
      obtain ⟨hleft, hright⟩ := (Bool.and_eq_true _ _).mp h
      intro n hn
      rcases List.mem_append.mp hn with hn | hn
      · exact ihleft hleft n hn
      · exact ihright hright n hn

theorem binds_item (hhost : host.IsUsual) {type : ItemType} (h : type.isLegible = true) :
    host.Binds type.names := by
  cases type with
  | anyItem | empty => exact ⟨hhost.elements, fun n hn => absurd hn List.not_mem_nil⟩
  | atomic type =>
      refine ⟨hhost.elements, fun n hn => ?_⟩
      rw [List.mem_singleton.mp hn]
      exact hhost.isBound_schema _
  | node test => exact hhost.binds_test h

end Resolver.IsUsual

namespace Parse

variable {σ : Setting} {F : Fault → Prop} {s : ParseState} {scope : List RangeVariable} {next : Nat}
  {t : Token} {gap tail rest : List Char}

/-! ### Places -/

/-- The reader is at a token before a text, with these variables in scope. -/
structure At (t : Token) (rest : List Char) (scope : List RangeVariable) (next : Nat)
    (s : ParseState) : Prop where
  token : s.cursor.token = t
  rest : s.cursor.rest = rest
  scope : s.scope = scope
  nextId : s.nextId = next

/-! ### Names -/

theorem expandName_render (helements : σ.host.elementNamespace = none) {n : ExpandedName}
    (hn : n.IsName) (h : n.IsBound σ.host) (takesElementNamespace : Bool) (s : ParseState) :
    expandName σ n.render takesElementNamespace s = .ok n s := by
  unfold expandName
  rcases h with huri | ⟨q, hq, hbound⟩
  · rw [ExpandedName.render_unqualified huri, parse?_unqualified hn]
    dsimp only
    rw [if_pos rfl, helements, ite_self]
    show EStateM.Result.ok (ExpandedName.mk "" n.localName) s = _
    rw [← huri]
  · have hname := Namespace.isNCName_of_qualifier? hq
    have hne : q ≠ "" := by
      rintro rfl
      cases hname
    rw [ExpandedName.render_qualified hq, parse?_qualified hname hn]
    dsimp only
    rw [if_neg hne, hbound]
    rfl

theorem functionName_render {n : ExpandedName} {q : String} (hn : n.IsName)
    (hq : Namespace.qualifier? n.uri = some q) (hbound : σ.host.namespaceOf q = .ok n.uri)
    (s : ParseState) : functionName σ n.render s = .ok n s := by
  have hname := Namespace.isNCName_of_qualifier? hq
  have hne : q ≠ "" := by
    rintro rfl
    cases hname
  unfold functionName declaredNamespace
  rw [ExpandedName.render_qualified hq, parse?_qualified hname hn]
  dsimp only
  rw [if_neg hne, hbound]
  rfl

/-- The name of a function of the library, or of a constructor. -/
theorem functionName_usual (hσ : σ.host.IsUsual) {n : ExpandedName} (hn : n.IsName)
    (h : n.uri = Namespace.functions ∨ n.uri = Namespace.schema) (s : ParseState) :
    functionName σ n.render s = .ok n s := by
  obtain ⟨uri, localName⟩ := n
  rcases h with rfl | rfl
  · exact functionName_render hn (q := "fn") rfl hσ.functions s
  · exact functionName_render hn (q := "xs") rfl hσ.schema s

/-! ### Kind tests -/

/-- What is behind the type in a test: a question mark, or nothing. -/
theorem nillable_ends {k : NodeKind} {type : SchemaType} {nillable : Bool}
    (hnillable : nillable = true → k = .element)
    (hrest : s.cursor.rest = (if nillable then ['?'] else []) ++ ')' :: tail) :
    Ends σ F (do
      advance σ
      let nillable := k = .element && (← token) = .questionMark
      if nillable then advance σ
      return NodeTest.content k type nillable) s fun test u =>
        test = .content k type nillable ∧ At .rightParen tail s.scope s.nextId u := by
  cases nillable with
  | true =>
      obtain ⟨d, hd, hmark, -, hbehind⟩ := Cursor.finds_mark hrest
      obtain ⟨e, he, hclose, -, htail⟩ := Cursor.finds_close hbehind
      refine .advance hd (.token hmark ?_)
      simp only [hnillable rfl, decide_true, Bool.and_self, if_true]
      exact .advance he (.pure ⟨rfl, hclose, htail, rfl, rfl⟩)
  | false =>
      obtain ⟨d, hd, hclose, -, htail⟩ := Cursor.finds_close hrest
      refine .advance hd (.token hclose ?_)
      simp only [reduceCtorEq, decide_false, Bool.and_false, Bool.false_eq_true, if_false]
      exact .pure ⟨rfl, hclose, htail, rfl, rfl⟩

/-- A content type in a test, with its question mark if it has one. -/
theorem contentTest_ends {k : NodeKind} {type : SchemaType} {nillable : Bool}
    (hbinds : σ.host.Binds [type.name]) (hknown : type.IsKnown σ.host)
    (hnillable : nillable = true → k = .element) (htoken : s.cursor.token = .name)
    (hvalue : s.cursor.value = type.name.render)
    (hrest : s.cursor.rest = (if nillable then ['?'] else []) ++ ')' :: tail) :
    Ends σ F (contentTest σ k) s fun test u =>
      test = .content k type nillable ∧ At .rightParen tail s.scope s.nextId u := by
  unfold contentTest
  refine .token htoken ?_
  refine .value hvalue ?_
  refine .run (expandName_render hbinds.elements hknown.name hbinds.single true s) ?_
  rw [hknown.known]
  dsimp only
  split
  · exact .run (a := ⟨⟩) (t := { s with warnings := _ }) rfl (nillable_ends hnillable hrest)
  · exact nillable_ends hnillable hrest

theorem toList_renderContent (type : SchemaType) (nillable : Bool) :
    (NodeTest.renderContent type nillable).toList =
      type.name.render.toList ++ (if nillable then ['?'] else []) := by
  rw [NodeTest.renderContent, String.toList_append]
  cases nillable <;> rfl

/-- The part of a test behind its name or star, if there is one. -/
theorem namedContent_ends (name? : Option ExpandedName) {k : NodeKind} {type : SchemaType}
    {nillable : Bool} (hbinds : σ.host.Binds [type.name]) (hknown : type.IsKnown σ.host)
    (hnillable : nillable = true → k = .element)
    (hrest : s.cursor.rest =
      ' ' :: ((NodeTest.renderContent type nillable).toList ++ ')' :: tail))
    (htoken : s.cursor.token = .comma) (htail : Follows tail t rest) :
    Ends σ F (do
      advance σ
      let content ← contentTest σ k
      skip σ .rightParen
      match name? with
      | none => return content
      | some name => return .both (.name k name) content) s fun test u =>
        test = (match name? with
          | none => .content k type nillable
          | some name => .both (.name k name) (.content k type nillable)) ∧
        At t rest s.scope s.nextId u := by
  let more := (if nillable then ['?'] else []) ++ ')' :: tail
  have hmore : EndsWord more ∧ LeavesName more := by
    cases nillable with
    | true => exact ⟨(Follows.mark _).word, (Follows.mark _).name⟩
    | false => exact ⟨(Follows.close _).word, (Follows.close _).name⟩
  rw [toList_renderContent, List.append_assoc] at hrest
  have hprecedes : PrecedesOperand s.cursor.token := by
    rw [htoken]
    decide
  obtain ⟨c, hc, hname, hvalue, hbehind⟩ := Cursor.finds_name (.inr rfl) hrest
    (ExpandedName.isWord_render hknown.name hbinds.single.isPlain) (.inl hprecedes)
    hmore.1 hmore.2
  refine .advance hc
    (.bind (contentTest_ends hbinds hknown hnillable hname hvalue hbehind) ?_)
  rintro test u ⟨rfl, hclose, htail', hscope, hnextId⟩
  obtain ⟨d, hd, htoken', hrest'⟩ := htail.next u.cursor (by rw [hclose]; rfl) htail'
  refine .skip hclose hd ?_
  cases name? with
  | none => exact .pure ⟨rfl, htoken', hrest', hscope, hnextId⟩
  | some name => exact .pure ⟨rfl, htoken', hrest', hscope, hnextId⟩

theorem testName_render {k : NodeKind} {n : ExpandedName} (hbinds : σ.host.Binds [n])
    (hn : n.IsName) (htoken : s.cursor.token = .name) (hvalue : s.cursor.value = n.render) :
    testName σ k false s = .ok (some n) s := by
  unfold testName
  rw [token_bind, htoken]
  dsimp only
  rw [value_bind, hvalue, bind_run (expandName_render hbinds.elements hn hbinds.single _ s)]
  rfl

theorem testName_star {k : NodeKind} (htoken : s.cursor.token = .star) :
    testName σ k false s = .ok none s := by
  unfold testName
  rw [token_bind, htoken]
  rfl

/-- A test for elements or attributes, from its keyword on. -/
theorem elementTest_ends {k : NodeKind} {test : NodeTest}
    (htest : test.IsNamedTest σ.host k) (hbinds : σ.host.Binds test.names)
    (htoken : s.cursor.token = .nodeKind)
    (hrest : s.cursor.rest = test.argumentText.toList ++ ')' :: tail)
    (htail : Follows tail t rest) :
    Ends σ F (elementTest σ k false) s fun test' u =>
      test' = test ∧ At t rest s.scope s.nextId u := by
  have hprecedes : PrecedesOperand s.cursor.token := by
    rw [htoken]
    decide
  have hends : s.cursor.token.endsOperand = false := hprecedes.1
  have hname : ∀ {n : ExpandedName} {more : List Char}, n.IsName → σ.host.Binds [n] →
      s.cursor.rest = n.render.toList ++ more → EndsWord more → LeavesName more →
      s.cursor.Finds .name n.render more := by
    intro n more hn hbinds hrest hword hleaves
    exact Cursor.finds_name (.inl rfl) hrest
      (ExpandedName.isWord_render hn hbinds.single.isPlain) (.inl hprecedes) hword hleaves
  unfold elementTest
  cases htest with
  | kind =>
      obtain ⟨c, d, hc, hclose, hd, htoken', hrest'⟩ := htail.closing hrest
      refine .advance hc (.token hclose ?_)
      exact .advance hd (.pure ⟨rfl, htoken', hrest', rfl, rfl⟩)
  | @name n hn =>
      obtain ⟨c, hc, hword, hvalue, hbehind⟩ :=
        hname hn hbinds hrest (Follows.close tail).word (Follows.close tail).name
      obtain ⟨d, e, hd, hclose, he, htoken', hrest'⟩ := htail.closing hbehind
      refine .advance hc (.token hword ?_)
      rw [if_neg (by simp)]
      unfold namedTest
      refine .value hvalue (.run (testName_render hbinds hn hword hvalue) ?_)
      refine .advance hd ?_
      refine .token hclose ?_
      refine .advance he ?_
      exact .pure ⟨rfl, htoken', hrest', rfl, rfl⟩
  | @content type nillable hknown hnillable =>
      have hstar : s.cursor.rest = '*' :: (',' :: (' ' ::
          ((NodeTest.renderContent type nillable).toList ++ ')' :: tail))) := by
        rw [hrest, NodeTest.argumentText, String.toList_append]
        rfl
      obtain ⟨c, hc, hstar, hvalue, hbehind⟩ := Cursor.finds_star hstar hends (by simp)
      obtain ⟨d, hd, hcomma, -, hbehind'⟩ := Cursor.finds_comma hbehind
      refine .advance hc (.token hstar ?_)
      rw [if_neg (by simp)]
      unfold namedTest
      refine .value hvalue ?_
      refine .run (testName_star hstar) ?_
      refine .advance hd ?_
      refine .token hcomma ?_
      exact namedContent_ends none hbinds hknown hnillable hbehind' hcomma htail
  | @both n type nillable hn hknown hnillable =>
      have hnamed : σ.host.Binds [n] := Resolver.Binds.left hbinds
      have htyped : σ.host.Binds [type.name] := Resolver.Binds.right [n] hbinds
      have hsplit : s.cursor.rest = n.render.toList ++
          (',' :: (' ' :: ((NodeTest.renderContent type nillable).toList ++ ')' :: tail))) := by
        rw [hrest, NodeTest.argumentText, String.toList_append, String.toList_append,
          List.append_assoc, List.append_assoc]
        rfl
      obtain ⟨c, hc, hword, hvalue, hbehind⟩ :=
        hname hn hnamed hsplit (Follows.comma _).word (Follows.comma _).name
      obtain ⟨d, hd, hcomma, -, hbehind'⟩ := Cursor.finds_comma hbehind
      refine .advance hc (.token hword ?_)
      rw [if_neg (by simp)]
      unfold namedTest
      refine .value hvalue ?_
      refine .run (testName_render hnamed hn hword hvalue) ?_
      refine .advance hd ?_
      refine .token hcomma ?_
      exact namedContent_ends (some n) htyped hknown hnillable hbehind' hcomma htail

/-- The parenthesis behind a keyword that takes no arguments. -/
theorem emptyArguments_close (hrest : s.cursor.rest = ')' :: tail) (htail : Follows tail t rest) :
    Ends σ F (emptyArguments σ) s fun empty u =>
      empty = true ∧ At t rest s.scope s.nextId u := by
  obtain ⟨c, d, hc, hclose, hd, htoken', hrest'⟩ := htail.closing hrest
  unfold emptyArguments
  refine .advance hc (.token hclose ?_)
  exact .advance hd (.pure ⟨rfl, htoken', hrest', rfl, rfl⟩)

/-- A keyword with something else than a parenthesis behind it. -/
theorem emptyArguments_other {c : Cursor} (hc : s.cursor.advance = (.ok (), c))
    (htoken : c.token ≠ .rightParen) :
    emptyArguments σ s = .ok false { s with cursor := c } := by
  unfold emptyArguments
  rw [bind_run (advance_run hc), token_bind, if_neg htoken]
  rfl

theorem plainTest_ends {word : String} {test : NodeTest} (hrest : s.cursor.rest = ')' :: tail)
    (htail : Follows tail t rest) :
    Ends σ F (plainTest σ word test) s fun test' u =>
      test' = test ∧ At t rest s.scope s.nextId u := by
  refine .bind (emptyArguments_close hrest htail) ?_
  rintro empty u ⟨rfl, hu⟩
  exact .pure ⟨rfl, hu⟩

/-- An element test within a test for documents. -/
theorem documentTest_ends {inner : NodeTest} (htest : inner.IsNamedTest σ.host .element)
    (hbinds : σ.host.Binds inner.names) (htoken : s.cursor.token = .nodeKind)
    (hrest : s.cursor.rest = inner.word.toList ++ '(' ::
      (inner.argumentText.toList ++ ')' :: ')' :: tail)) (htail : Follows tail t rest) :
    Ends σ F (documentTest σ) s fun test u =>
      test = .document inner ∧ At t rest s.scope s.nextId u := by
  have hprecedes : PrecedesOperand s.cursor.token := by
    rw [htoken]
    decide
  have hplain := NodeTest.isPlainKeyword (NodeTest.IsKindTest.elements htest).word_mem
  obtain ⟨c, hc, hkeyword, hvalue, hbehind⟩ := Cursor.finds_testKeyword (.inl rfl) hrest hplain.1
    hplain.2.1 hprecedes (htest.argumentText_head hbinds _)
  rw [htest.word_eq] at hvalue
  unfold documentTest
  refine .run (emptyArguments_other hc (by rw [hkeyword]; decide)) ?_
  refine .value hvalue (.token hkeyword ?_)
  refine .bind (elementTest_ends htest hbinds hkeyword hbehind (.close _)) ?_
  rintro test u ⟨rfl, hu⟩
  obtain ⟨d, hd, htoken', hrest'⟩ := htail.next u.cursor (by rw [hu.token]; rfl) hu.rest
  exact .skip hu.token hd (.pure ⟨rfl, htoken', hrest', hu.scope, hu.nextId⟩)

/-- A target within a test for processing instructions. -/
theorem instructionTest_ends {target : String} (htarget : isNCName target.toList = true)
    (htoken : s.cursor.token = .nodeKind) (hrest : s.cursor.rest = target.toList ++ ')' :: tail)
    (htail : Follows tail t rest) :
    Ends σ F (instructionTest σ) s fun test u =>
      test = .name .processingInstruction (.unqualified target) ∧
        At t rest s.scope s.nextId u := by
  have hprecedes : PrecedesOperand s.cursor.token := by
    rw [htoken]
    decide
  obtain ⟨c, hc, hword, hvalue, hbehind⟩ := Cursor.finds_name (.inl rfl) hrest
    (.simple htarget) (.inl hprecedes) (Follows.close tail).word (Follows.close tail).name
  obtain ⟨d, e, hd, hclose, he, htoken', hrest'⟩ := htail.closing hbehind
  have htarget' : instructionTarget σ { s with cursor := c } =
      .ok target { s with cursor := c } := by
    unfold instructionTarget
    rw [value_bind, token_bind]
    simp only [hword, hvalue, parse?_unqualified htarget]
    rfl
  unfold instructionTest
  refine .run (emptyArguments_other hc (by rw [hword]; decide)) (.run htarget' ?_)
  refine .advance hd ?_
  refine .skip hclose he ?_
  exact .pure ⟨rfl, htoken', hrest', rfl, rfl⟩

/-- A kind test, from its keyword on. -/
theorem kindTest_ends {test : NodeTest} (htest : test.IsKindTest σ.host)
    (hbinds : σ.host.Binds test.names) (htoken : s.cursor.token = .nodeKind)
    (hvalue : s.cursor.value = test.word)
    (hrest : s.cursor.rest = test.argumentText.toList ++ ')' :: tail)
    (htail : Follows tail t rest) :
    Ends σ F (kindTest σ) s fun test' u => test' = test ∧ At t rest s.scope s.nextId u := by
  unfold kindTest
  refine .value hvalue ?_
  cases htest with
  | anyNode => exact plainTest_ends hrest htail
  | text => exact plainTest_ends hrest htail
  | comment => exact plainTest_ends hrest htail
  | instruction =>
      refine .bind (emptyArguments_close hrest htail) ?_
      rintro empty u ⟨rfl, hu⟩
      exact .pure ⟨rfl, hu⟩
  | namespaceNode h =>
      refine .bind (emptyArguments_close hrest htail) ?_
      rintro empty u ⟨rfl, hu⟩
      simp only [h, if_true]
      exact .pure ⟨rfl, hu⟩
  | document =>
      refine .bind (emptyArguments_close hrest htail) ?_
      rintro empty u ⟨rfl, hu⟩
      exact .pure ⟨rfl, hu⟩
  | documentOf htest =>
      refine documentTest_ends htest hbinds htoken ?_ htail
      simp [hrest, NodeTest.argumentText]
  | instructionOf htarget => exact instructionTest_ends htarget htoken hrest htail
  | elements htest =>
      rw [htest.word_eq]
      exact elementTest_ends htest hbinds htoken hrest htail
  | attributes htest =>
      rw [htest.word_eq]
      exact elementTest_ends htest hbinds htoken hrest htail

/-! ### Sequence types -/

theorem plainType_ends {type : ItemType} (hrest : s.cursor.rest = ')' :: tail)
    (htail : Follows tail t rest) :
    Ends σ F (plainType σ type) s fun type' u =>
      type' = type ∧ At t rest s.scope s.nextId u := by
  obtain ⟨c, d, hc, hclose, hd, htoken, hrest'⟩ := htail.closing hrest
  unfold plainType
  refine .advance hc ?_
  refine .skip hclose hd ?_
  exact .pure ⟨rfl, htoken, hrest', rfl, rfl⟩

/-- A type of items before what may follow it. -/
theorem itemType_ends {type : ItemType} (htype : type.IsFormed σ.host)
    (hbinds : σ.host.Binds type.names) {c : Cursor} (hc : PrecedesOperand c.token)
    (hgap : gap = [] ∨ gap = [' ']) (hrest : c.rest = gap ++ (type.render.toList ++ tail))
    (htail : Follows tail t rest) :
    ∃ d, c.advance = (.ok (), d) ∧ ∀ s, s.cursor = d → Ends σ F (itemType σ) s fun type' u =>
      type' = type ∧ At t rest s.scope s.nextId u := by
  cases htype with
  | anyItem =>
      have htext : c.rest = gap ++ ("item".toList ++ '(' :: (')' :: tail)) := hrest
      obtain ⟨d, hd, hkind, hvalue, hbehind⟩ :=
        Cursor.finds_testKeyword hgap htext (by decide) (by decide) hc (by simp)
      refine ⟨d, hd, ?_⟩
      rintro s rfl
      unfold itemType
      exact .token hkind (.value hvalue (plainType_ends hbehind htail))
  | atomic type =>
      have hxs : σ.host.namespaceOf "xs" = .ok Namespace.schema := by
        rcases hbinds.single with huri | ⟨q, hq, hbound⟩
        · exact absurd (show Namespace.schema = "" from huri) (by decide)
        · obtain rfl : q = "xs" := Option.some.inj (hq.symm.trans rfl)
          exact hbound
      have hword : IsWord type.render.toList := ExpandedName.isWord_render (n := type.expandedName)
        (isNCName_localName type) hbinds.single.isPlain
      obtain ⟨d, hd, hname, hvalue, hbehind⟩ := Cursor.finds_name hgap hrest
        hword (.inl hc) htail.word htail.name
      refine ⟨d, hd, ?_⟩
      rintro s rfl
      obtain ⟨e, he, htoken', hrest'⟩ := htail.next s.cursor (by rw [hname]; rfl) hbehind
      unfold itemType
      refine .token hname ?_
      refine .value hvalue ?_
      refine .run (atomicType_run hxs type s) ?_
      exact .advance he (.pure ⟨rfl, htoken', hrest', rfl, rfl⟩)
  | @node test htest =>
      have htext : c.rest = gap ++ (test.word.toList ++ '(' ::
          (test.argumentText.toList ++ ')' :: tail)) := by
        rw [hrest, htest.render_node]
        simp
      have hplain := NodeTest.isPlainKeyword htest.word_mem
      obtain ⟨d, hd, hkind, hvalue, hbehind⟩ := Cursor.finds_testKeyword hgap htext hplain.1
        hplain.2.1 hc (htest.argumentText_head hbinds _)
      refine ⟨d, hd, ?_⟩
      rintro s rfl
      unfold itemType
      refine .token hkind (.value hvalue ?_)
      split
      · next hitem => exact absurd hitem hplain.2.2.1
      · next hempty => exact absurd hempty hplain.2.2.2
      · refine .bind (kindTest_ends htest hbinds hkind hvalue hbehind htail) ?_
        rintro test' u ⟨rfl, hu⟩
        exact .pure ⟨rfl, hu⟩

/-- What is read from the mark of an occurrence behind a type. -/
theorem follows_indicator {o : Occurrence} (ho : o.indicator ≠ "") (tail : List Char) :
    ∃ mark, occurrenceMark? mark = some o ∧
      Follows (o.indicator.toList ++ tail) mark tail := by
  cases o with
  | zeroOrOne => exact ⟨_, rfl, .mark _⟩
  | zeroOrMore => exact ⟨_, rfl, .star _⟩
  | oneOrMore => exact ⟨_, rfl, .plus _⟩
  | exactlyOne => exact absurd rfl ho
  | empty => exact absurd rfl ho

/-- A mark is read as the end of an operand, and then what follows it. -/
theorem skipMark_follows (hrest : s.cursor.rest = tail) (htail : Follows tail t rest) :
    ∃ c, skipMark σ s = .ok () { s with cursor := c } ∧ c.token = t ∧ c.rest = rest := by
  obtain ⟨c, hc, htoken, hbehind⟩ := htail.next s.cursor.endOperand rfl hrest
  exact ⟨c, skipMark_run hc, htoken, hbehind⟩

/-- A sequence type before what may follow it, which is no mark of an occurrence. -/
theorem sequenceType_ends {type : SequenceType} (htype : type.IsFormed σ.host)
    (hbinds : σ.host.Binds type.names) {c : Cursor} (hc : PrecedesOperand c.token)
    (hgap : gap = [] ∨ gap = [' ']) (hrest : c.rest = gap ++ (type.render.toList ++ tail))
    (htail : Follows tail t rest) (hmark : occurrenceMark? t = none) :
    ∃ d, c.advance = (.ok (), d) ∧ ∀ s, s.cursor = d → Ends σ F (sequenceType σ) s fun type' u =>
      type' = type ∧ At t rest s.scope s.nextId u := by
  cases htype with
  | empty =>
      have htext : c.rest = gap ++ ("empty-sequence".toList ++ '(' :: (')' :: tail)) := hrest
      obtain ⟨d, hd, hkind, hvalue, hbehind⟩ :=
        Cursor.finds_testKeyword hgap htext (by decide) (by decide) hc (by simp)
      refine ⟨d, hd, ?_⟩
      rintro s rfl
      have hempty : Ends σ F (itemType σ) s fun type u =>
          type = .empty ∧ At t rest s.scope s.nextId u := by
        unfold itemType
        exact .token hkind (.value hvalue (plainType_ends hbehind htail))
      unfold sequenceType
      refine .bind hempty ?_
      rintro item u ⟨rfl, hu⟩
      rw [if_pos rfl]
      exact .pure ⟨rfl, hu⟩
  | @items item occurrence hitem hoccurrence =>
      have hne : item ≠ .empty := by
        rintro rfl
        cases hitem
      unfold sequenceType
      by_cases hplain : occurrence.indicator = ""
      · have heq : occurrence = .exactlyOne := by
          cases occurrence with
          | exactlyOne => rfl
          | empty => exact absurd rfl hoccurrence
          | zeroOrOne | zeroOrMore | oneOrMore => exact absurd hplain (by decide)
        subst heq
        have htext : c.rest = gap ++ (item.render.toList ++ tail) := by
          rw [hrest, SequenceType.render, String.toList_append, List.append_assoc]
          rfl
        obtain ⟨d, hd, hread⟩ := itemType_ends hitem hbinds hc hgap htext htail
        refine ⟨d, hd, fun s hs => .bind (hread s hs) ?_⟩
        rintro item' u ⟨rfl, hu⟩
        rw [if_neg hne]
        refine .token hu.token ?_
        rw [hmark]
        exact .pure ⟨rfl, hu⟩
      · have htext : c.rest =
            gap ++ (item.render.toList ++ (occurrence.indicator.toList ++ tail)) := by
          rw [hrest, SequenceType.render, String.toList_append, List.append_assoc]
        obtain ⟨mark, hoccurs, hfollows⟩ := follows_indicator hplain tail
        obtain ⟨d, hd, hread⟩ := itemType_ends hitem hbinds hc hgap htext hfollows
        refine ⟨d, hd, fun s hs => .bind (hread s hs) ?_⟩
        rintro item' u ⟨rfl, hu⟩
        rw [if_neg hne]
        refine .token hu.token ?_
        rw [hoccurs]
        obtain ⟨e, he, htoken, hbehind⟩ := skipMark_follows (σ := σ) hu.rest htail
        exact .run he (.pure ⟨rfl, htoken, hbehind, hu.scope, hu.nextId⟩)

/-- The name of the target of a cast before what may follow it. -/
theorem singleType_name (hxs : σ.host.namespaceOf "xs" = .ok Namespace.schema)
    {atomic : AtomicType} (hvalues : atomic.isAbstract = false) {c : Cursor}
    (hc : PrecedesOperand c.token) (hgap : gap = [] ∨ gap = [' '])
    (hrest : c.rest = gap ++ (atomic.render.toList ++ tail)) (htail : Follows tail t rest) :
    ∃ d, c.advance = (.ok (), d) ∧ ∀ s, s.cursor = d →
      ∃ e : Cursor, e.token = t ∧ e.rest = rest ∧
        singleType σ s = (do
          let optional := (← token) = .questionMark
          if optional then skipMark σ
          return SingleType.mk atomic optional : Parse SingleType) { s with cursor := e } := by
  have hword : IsWord atomic.render.toList := ExpandedName.isWord_render (n := atomic.expandedName)
    (isNCName_localName atomic) (.inr ⟨"xs", rfl⟩)
  obtain ⟨d, hd, hname, hvalue, hbehind⟩ :=
    Cursor.finds_name hgap hrest hword (.inl hc) htail.word htail.name
  refine ⟨d, hd, ?_⟩
  rintro s rfl
  obtain ⟨e, he, htoken, hrest'⟩ := htail.next s.cursor (by rw [hname]; rfl) hbehind
  refine ⟨e, htoken, hrest', ?_⟩
  unfold singleType
  rw [bind_run (expect_run hname), value_bind, hvalue, bind_run (atomicType_run hxs atomic s)]
  dsimp only
  rw [if_neg (by simp [hvalues]), bind_run (advance_run he)]

/-- The target of a cast before what may follow it, which is no question mark. -/
theorem singleType_written (hxs : σ.host.namespaceOf "xs" = .ok Namespace.schema)
    {type : SingleType} (hvalues : type.atomic.isAbstract = false) {c : Cursor}
    (hc : PrecedesOperand c.token) (hgap : gap = [] ∨ gap = [' '])
    (hrest : c.rest = gap ++ (type.render.toList ++ tail)) (htail : Follows tail t rest)
    (hmark : t ≠ .questionMark) :
    ∃ d, c.advance = (.ok (), d) ∧ ∀ s, s.cursor = d →
      ∃ e, singleType σ s = .ok type { s with cursor := e } ∧ e.token = t ∧ e.rest = rest := by
  obtain ⟨atomic, optional⟩ := type
  cases optional with
  | true =>
      have htext : c.rest = gap ++ (atomic.render.toList ++ '?' :: tail) := by
        rw [hrest, SingleType.render, String.toList_append, List.append_assoc, if_pos rfl]
        rfl
      obtain ⟨d, hd, hread⟩ := singleType_name hxs hvalues hc hgap htext (.mark tail)
      refine ⟨d, hd, fun s hs => ?_⟩
      obtain ⟨e, htoken, hbehind, heq⟩ := hread s hs
      obtain ⟨f, hf, hfollows⟩ :=
        skipMark_follows (σ := σ) (s := { s with cursor := e }) hbehind htail
      refine ⟨f, ?_, hfollows⟩
      rw [heq, token_bind, htoken]
      show (skipMark σ >>= fun _ => pure (SingleType.mk atomic true) : Parse SingleType) _ = _
      rw [bind_run hf]
      rfl
  | false =>
      have htext : c.rest = gap ++ (atomic.render.toList ++ tail) := by
        rw [hrest, SingleType.render, String.toList_append, List.append_assoc,
          if_neg Bool.false_ne_true]
        rfl
      obtain ⟨d, hd, hread⟩ := singleType_name hxs hvalues hc hgap htext htail
      refine ⟨d, hd, fun s hs => ?_⟩
      obtain ⟨e, htoken, hbehind, heq⟩ := hread s hs
      refine ⟨e, ?_, htoken, hbehind⟩
      rw [heq, token_bind, htoken]
      dsimp only
      rw [if_neg hmark, decide_eq_false hmark]
      rfl

end Parse

end XPath
