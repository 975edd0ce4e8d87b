import XPath.Proofs.Alone
import XPath.Proofs.Roundtrip
import XPath.Proofs.Tree

/-!
# Steps and their texts

A step is rendered as its axis and its test, and the text of a test does not always say of which
kind its nodes are. A name of elements or attributes is written bare, and is read as a name of what
the axis leads to; a name of namespace nodes is written with a keyword that takes no name
(`Axis.reread?`). Every other test that is read in a step is read again from its text behind the
axis, whatever the axis is, and whatever names, types and tests it holds
(`readExpression_axisStep`).
-/

namespace XPath

open Lexeme Parse

variable {host : Resolver} {source : String} {warnings : List String} {e : Expr} {n : Nat}
  {axis : Axis} {test test' : NodeTest}

/-! ### Tests told by their texts -/

/-- The text of the test tells, behind the axis, of which kind the nodes of its name are. -/
def Axis.Tells (axis : Axis) (test : NodeTest) : Prop :=
  ∀ k name, test = .name k name →
    k ≠ .namespaceNode ∧ (k = .element ∨ k = .attribute → k = axis.principalKind)

theorem Axis.reread?_eq_some_self_iff : axis.reread? test = some test ↔ axis.Tells test := by
  constructor
  · rintro h k name rfl
    cases k with
    | namespaceNode => cases h
    | element | «attribute» =>
      exact ⟨nofun, fun _ => (NodeTest.name.inj (Option.some.inj h)).1.symm⟩
    | _ => exact ⟨nofun, by simp⟩
  · intro h
    unfold reread?
    split
    · next name => rw [← (h _ name rfl).2 (.inl rfl)]
    · next name => rw [← (h _ name rfl).2 (.inr rfl)]
    · next name => exact absurd rfl (h _ name rfl).1
    · rfl

theorem Axis.eq_name_of_reread?_eq_none (h : axis.reread? test = none) :
    ∃ name, test = .name .namespaceNode name := by
  unfold reread? at h
  split at h
  · cases h
  · cases h
  · exact ⟨_, rfl⟩
  · cases h

theorem NodeTest.IsStepTest.isName {name : ExpandedName} {k : NodeKind}
    (h : test.IsStepTest host axis) (hname : test = .name k name) : name.IsName := by
  subst hname
  cases h with
  | name hn => exact hn
  | kindTest h =>
      cases h with
      | elements h | attributes h =>
          cases h
          assumption
      | instructionOf htarget => exact htarget

/-- A test in a step that is read. -/
theorem isStepTest_of_mem_nodes (htypes : host.NamesTypes)
    (h : (readExpression source host warnings).outcome = .ok e)
    (hstep : .axisStep n axis test ∈ e.nodes) : test.IsStepTest host axis := by
  cases hrun : complete host.reader .eof
      (Parser.ofSource source 0 .expression host warnings).state with
  | ok e' t =>
      rw [readExpression_run hrun] at h
      cases h
      obtain ⟨bs, hocc⟩ := Expr.mem_nodes.mp hstep
      exact NodeTest.IsRead.isStepTest htypes ((complete_assembled hrun).assembled bs _ hocc).1
  | error e' t =>
      rw [readExpression_fails hrun] at h
      cases h

/-- The offset, axis and test of a step. -/
def Expr.axisStep? : Expr → Option (Nat × Axis × NodeTest)
  | axisStep n axis test => some (n, axis, test)
  | _ => none

theorem Expr.eq_of_axisStep? (h : e.axisStep? = some (n, axis, test)) :
    e = .axisStep n axis test := by
  cases e with
  | axisStep => cases h; rfl
  | _ => cases h

theorem Expr.mem_nodes_of_axisStep?
    (h : e.nodes.any (·.axisStep? = some (n, axis, test)) = true) :
    .axisStep n axis test ∈ e.nodes := by
  obtain ⟨step, hmem, hstep⟩ := List.any_eq_true.mp h
  rw [← eq_of_axisStep? (of_decide_eq_true hstep)]
  exact hmem

/-! ### The text of a step as a source -/

/-- The axis is the first token of the text. -/
theorem advance_axis (n : Nat) (axis : Axis) (test : NodeTest) :
    ∃ d, (Cursor.ofSource (Expr.axisStep n axis test).render 0).advance = (.ok (), d) ∧
      d.token = .axis ∧ d.value = axis.name ∧ d.offset = 0 ∧ d.rest = test.render.toList := by
  have hrest : (Cursor.ofSource (Expr.axisStep n axis test).render 0).rest =
      axis.name.toList ++ ':' :: ':' :: test.render.toList := by
    rw [ofSource_zero]
    show (axis.name ++ "::" ++ test.render).toList = _
    simp
  have hgap : Token.trivia (Cursor.ofSource (Expr.axisStep n axis test).render 0).rest =
      some ([], axis.name.toList ++ ':' :: ':' :: test.render.toList) := by
    rw [hrest]
    exact Token.trivia_solid ((IsWord.simple (Expr.isNCName_axis axis)).isSolid _)
  have hread := read_axis (Cursor.ofSource (Expr.axisStep n axis test).render 0).token
    (Expr.isNCName_axis axis) test.render.toList
  refine ⟨_, Cursor.advance_eq hgap hread, rfl, String.ofList_toList, ?_, rfl⟩
  rw [ofSource_zero]
  rfl

/-- A step whose test is read again from its text, perhaps as another one. -/
theorem readExpression_reread (hbinds : host.Binds test.names) (htest : test.IsStepTest host axis)
    (hstar : axis = .namespaces → host.namespaceTests = true)
    (hnamespace : ∀ k uri?, test ≠ .inNamespace k uri?) (hreread : axis.reread? test = some test')
    (n : Nat) (warnings : List String) :
    (readExpression (Expr.axisStep n axis test).render host warnings).outcome =
      .ok (inOrder (.axisStep 0 axis test')) := by
  obtain ⟨d, hd, htoken, hvalue, hoffset, hbehind⟩ := advance_axis n axis test
  have hrest : d.rest = test.render.toList ++ [] := by rw [hbehind, List.append_nil]
  obtain ⟨f, hf, hstarts, hread⟩ := Expr.nodeTest_ends (F := fun _ => False) hbinds htest hstar
    hnamespace hreread htoken hrest .nil
  have hprimary : ∀ nested (s : ParseState), s.cursor = d → s.warnings = warnings →
      Ends host.reader (fun _ => False) (primary host.reader nested false) s fun e u =>
        e = .axisStep 0 axis test' ∧ u.cursor.token = .eof := by
    rintro nested s rfl -
    refine (Expr.primary_axis htoken hvalue hf hstarts (hread _ rfl)).mono ?_
    rintro e u ⟨_, rfl, rfl, hu⟩
    exact ⟨by rw [hoffset], hu.token⟩
  rcases readExpression_step hd (by rw [htoken]; rfl) (fun _ _ _ h => h) hprimary
    (fun _ _ h => h.2) with ⟨_, _, hread, rfl, -⟩ | ⟨_, _, hfalse, -⟩
  · rw [hread]
  · exact hfalse.elim

/-- The test of a name of namespace nodes is written with an argument that it may not have. -/
theorem readExpression_namespaceName {name : ExpandedName} (hname : name.IsName)
    (hbound : name.IsBound host) (n : Nat) (axis : Axis) (warnings : List String) :
    ∃ location, (readExpression (Expr.axisStep n axis (.name .namespaceNode name)).render host
      warnings).outcome = .error { (Fault.noArguments "namespace-node").error .expression with
        location := some location } := by
  obtain ⟨d, hd, htoken, hvalue, hoffset, hbehind⟩ :=
    advance_axis n axis (.name .namespaceNode name)
  have hword := ExpandedName.isWord_render hname hbound.isPlain
  have htext : d.rest =
      [] ++ ("namespace-node".toList ++ '(' :: (name.render.toList ++ [')'])) := by
    rw [hbehind]
    show ("namespace-node" ++ "(" ++ name.render ++ ")").toList = _
    simp
  obtain ⟨f, hf, hkind, hvalue', hbehind'⟩ := Cursor.finds_testKeyword (.inl rfl) htext
    (by decide) (by decide) (by rw [htoken]; decide) (hword.head?_ne rfl _)
  -- The name is the token behind the keyword, where only a closing parenthesis may stand.
  obtain ⟨g, hg, hargument, -, -⟩ := Cursor.finds_name (.inl rfl) hbehind' hword
    (.inl (by rw [hkind]; decide)) (Follows.close []).word (Follows.close []).name
  have hprimary : ∀ nested (s : ParseState), s.cursor = d → s.warnings = warnings →
      Ends host.reader (· = .noArguments "namespace-node") (primary host.reader nested false) s
        fun _ _ => False := by
    rintro nested s rfl -
    have htest : Ends host.reader (· = .noArguments "namespace-node")
        (nodeTest host.reader axis.principalKind) { s with cursor := f } fun _ _ => False := by
      refine .token hkind ?_
      refine .value hvalue' ?_
      refine .run (emptyArguments_other hg ?_) (.reject rfl)
      rw [hargument]
      decide
    refine (Expr.primary_axis htoken hvalue hf (by rw [hkind]; rfl) htest).mono ?_
    rintro e u ⟨_, -, hfalse⟩
    exact hfalse
  rcases readExpression_step hd (by rw [htoken]; rfl) (fun _ _ _ h => h) hprimary
    (fun _ _ h => h.elim) with ⟨_, _, -, hfalse⟩ | ⟨_, location, rfl, herror⟩
  · exact hfalse.elim
  · exact ⟨location, herror⟩

theorem inOrder_axisStep_inj {m : Nat} :
    inOrder (.axisStep m axis test) = inOrder (.axisStep m axis test') ↔ test = test' := by
  refine ⟨fun h => ?_, fun h => h ▸ rfl⟩
  cases hreverse : axis.isReverse <;> simpa [inOrder, isReverseStep, Expr.offset, hreverse] using h

/-- A step and its text. Take a step of a tree that has been read in a context without an element
namespace, where tests of namespace nodes are allowed: no wildcard for a namespace, and with names
in no namespace or in one whose conventional qualifier the context binds to it. Its text is read
there as the same step, put into document order where the axis runs against it, exactly if the test
is no name of a namespace node, nor of an element or attribute where the axis leads to others
(`Axis.Tells`). Such a name of an element or attribute is read as a name of what the axis leads to
instead, and a text with a name of a namespace node is not read. -/
theorem readExpression_axisStep {context : StaticContext} (hlevel : context.level = .xpath30)
    (helements : context.elementNamespace = none) (htypes : context.NamesTypes)
    (h : (readExpression source context.resolver warnings).outcome = .ok e)
    (hstep : .axisStep n axis test ∈ e.nodes)
    (hnames : ∀ m ∈ test.names, m.IsBound context.resolver)
    (hnamespace : ∀ k uri?, test ≠ .inNamespace k uri?) (warnings' : List String) :
    let outcome :=
      (readExpression (Expr.axisStep n axis test).render context.resolver warnings').outcome
    (outcome = .ok (inOrder (.axisStep 0 axis test)) ↔ axis.Tells test) ∧
      (∀ test', axis.reread? test = some test' →
        outcome = .ok (inOrder (.axisStep 0 axis test'))) ∧
      (axis.reread? test = none → ∃ location, outcome =
        .error { (Fault.noArguments "namespace-node").error .expression with
          location := some location }) := by
  intro outcome
  have htest : test.IsStepTest context.resolver axis :=
    isStepTest_of_mem_nodes htypes.resolver h hstep
  have hbinds : context.resolver.Binds test.names := ⟨helements, hnames⟩
  have hreread : ∀ test', axis.reread? test = some test' →
      outcome = .ok (inOrder (.axisStep 0 axis test')) := fun test' hsome =>
    readExpression_reread hbinds htest (fun _ => decide_eq_true hlevel) hnamespace hsome n warnings'
  have hfails : axis.reread? test = none → ∃ location, outcome =
      .error { (Fault.noArguments "namespace-node").error .expression with
        location := some location } := by
    intro hnone
    obtain ⟨name, rfl⟩ := Axis.eq_name_of_reread?_eq_none hnone
    exact readExpression_namespaceName (htest.isName rfl) hbinds.single n axis warnings'
  refine ⟨?_, hreread, hfails⟩
  rw [← Axis.reread?_eq_some_self_iff]
  cases hcase : axis.reread? test with
  | none =>
      obtain ⟨location, herror⟩ := hfails hcase
      rw [herror]
      exact ⟨nofun, nofun⟩
  | some test' =>
      rw [hreread test' hcase, Except.ok.injEq, inOrder_axisStep_inj, Option.some.injEq]

/-- A step in a predicate, against the order of the document and with a type of nillable content. -/
theorem readExpression_axisStep_of_ancestor :
    let context : StaticContext := { level := .xpath30 }
    ∃ e test, (readExpression "a[ancestor::element(b, xs:integer?)]" context.resolver []).outcome =
        .ok e ∧ .axisStep 2 .ancestor test ∈ e.nodes ∧
      test.render = "element(b, xs:integer?)" ∧
      (readExpression (Expr.axisStep 2 .ancestor test).render context.resolver []).outcome =
        .ok (.reverse 0 (.axisStep 0 .ancestor test)) := by
  intro context
  let test : NodeTest :=
    .both (.name .element (.unqualified "b")) (.content .element (.atomic .integer) true)
  obtain ⟨e, he, hnodes⟩ := exists_of_any
    (r := (readExpression "a[ancestor::element(b, xs:integer?)]" context.resolver []).outcome)
    (c := fun e => e.nodes.any (·.axisStep? = some (2, .ancestor, test))) (by decide +kernel)
  have hstep : .axisStep 2 .ancestor test ∈ e.nodes := Expr.mem_nodes_of_axisStep? hnodes
  have hnames : ∀ m ∈ test.names, m.IsBound context.resolver := by
    intro m hm
    rcases List.mem_cons.mp hm with rfl | hm
    · exact .inl rfl
    · rw [List.mem_singleton.mp hm]
      exact .inr ⟨"xs", rfl, rfl⟩
  have hlevel : context.level = .xpath30 := rfl
  have htypes : context.NamesTypes := StaticContext.namesTypes_default
  have hread := readExpression_axisStep hlevel rfl htypes he hstep hnames nofun []
  exact ⟨e, test, he, hstep, by decide +kernel, hread.1.mpr nofun⟩

/-- The test of an attribute is rendered as a bare name, which behind the axis of children is read
as the test of an element. -/
theorem readExpression_axisStep_ne_of_attribute :
    let context : StaticContext := { level := .xpath30 }
    let test : NodeTest := .name .attribute (.unqualified "x")
    context.namespaceOf "xs" = .ok Namespace.schema ∧ context.NamesTypes ∧
      ∃ e, (readExpression "child::attribute(x)" context.resolver []).outcome = .ok e ∧
        .axisStep 0 .child test ∈ e.nodes ∧ (∀ m ∈ test.names, m.uri = "") ∧
        (Expr.axisStep 0 .child test).render = "child::x" ∧
        (readExpression "child::x" context.resolver []).outcome =
          .ok (.axisStep 0 .child (.name .element (.unqualified "x"))) ∧
        (readExpression "child::x" context.resolver []).outcome ≠
          .ok (inOrder (.axisStep 0 .child test)) := by
  intro context test
  obtain ⟨e, he, hnodes⟩ := exists_of_any
    (r := (readExpression "child::attribute(x)" context.resolver []).outcome)
    (c := fun e => e.nodes.any (·.axisStep? = some (0, .child, test))) (by decide +kernel)
  obtain ⟨e', he', hstep'⟩ := exists_of_any
    (r := (readExpression "child::x" context.resolver []).outcome)
    (c := fun e => e.axisStep? = some (0, .child, .name .element (.unqualified "x")))
    (by decide +kernel)
  obtain rfl := Expr.eq_of_axisStep? (of_decide_eq_true hstep')
  refine ⟨rfl, StaticContext.namesTypes_default, e, he, Expr.mem_nodes_of_axisStep? hnodes, ?_,
    by decide, he', ?_⟩
  · intro m hm
    rw [List.mem_singleton.mp hm]
    rfl
  · rw [he']
    intro heq
    have hstep : Expr.axisStep 0 .child (.name .element (.unqualified "x")) =
        .axisStep 0 .child (.name .attribute (.unqualified "x")) := Except.ok.inj heq
    cases hstep

end XPath
