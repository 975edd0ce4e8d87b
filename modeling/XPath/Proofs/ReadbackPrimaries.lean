import XPath.Proofs.Readback

/-!
# Primary expressions read back

Literals, references, steps and calls, and expressions with a predicate. A name that is a value is
written as a call on a string, which is carried out when it is read.
-/

namespace XPath

open Lexeme Parse

/-! ### What can be written -/

/-- The literal is not written as something else: as a call, or as an integer. -/
def Literal.isLegible : Literal → Bool
  | boolean _ | double _ => false
  | decimal x => x.scale ≠ 0
  | _ => true

/-- A name of an element or attribute is the name of what the axis leads to, and nothing is said
of namespaces. -/
def Axis.isLegible (axis : Axis) (test : NodeTest) : Bool :=
  axis ≠ .namespaces && test.isLegible &&
    match test with
    | .name .element _ => axis.principalKind = .element
    | .name .attribute _ => axis.principalKind = .attribute
    | _ => true

/-- The test that is read behind an axis from the text of a test. A bare name is read as a name of
what the axis leads to, and no test of a name can be written for namespace nodes. -/
def Axis.reread? (axis : Axis) : NodeTest → Option NodeTest
  | .name .element n | .name .attribute n => some (.name axis.principalKind n)
  | .name .namespaceNode _ => none
  | test => some test

/-- The name of a function is in one of the two namespaces whose qualifiers are known. -/
def FunctionBinding.isLegible (f : FunctionBinding) : Bool :=
  f.name.uri = Namespace.functions || f.name.uri = Namespace.schema

namespace Expr

attribute [local simp] render

variable {host : Resolver} {ids : Nat → Nat} {scope : List RangeVariable} {next n : Nat}
  {c d : Cursor} {t : Token} {gap tail rest : List Char} {e : Expr}

/-! ### Tokens that are expressions -/

/-- An expression that is written as one token and binds nothing. -/
theorem Rereads.of_leaf (k : Token) (value : String) (make : Nat → Expr)
    (hstarts : startsStep k = true) (hends : k.endsOperand = true)
    (hfinds : ∀ {c : Cursor} {gap tail : List Char}, gap = [] ∨ gap = [' '] →
      c.rest = gap ++ (e.render.toList ++ tail) → EndsWord tail → tail.head? ≠ some '"' →
      c.Finds k value tail)
    (hprimary : ∀ nested s, s.cursor.token = k → s.cursor.value = value →
      primary host.reader nested false s = leaf host.reader make s)
    (hmake : ∀ n ids, (make n).outline id = e.outline ids) (hids : e.readIds = [])
    (hhead : ∀ more, EndsSymbol (e.render.toList ++ more))
    (hforward : isReverseStep e = false) : e.Rereads host := by
  refine .of_primary ?_ hhead hforward
  intro ids scope next hfits c gap tail rest t hc hgap hrest htail _
  obtain ⟨d, hd, htoken, hvalue, hbehind⟩ := hfinds hgap hrest htail.word htail.quote
  refine ⟨d, hd, by rw [htoken]; exact hstarts, fun n s hs => ?_⟩
  obtain rfl := hs.cursor
  obtain ⟨f, hf, htoken', hrest'⟩ := htail.next s.cursor (by rw [htoken]; exact hends) hbehind
  refine .congr ?_ (hprimary _ s htoken hvalue)
  refine .offset ?_
  refine .advance hf ?_
  refine .pure ⟨hmake _ _, htoken', hrest', hs.scope, ?_⟩
  rw [hids]
  exact hs.nextId

theorem rereads_contextItem : (contextItem n).Rereads host :=
  .of_leaf .dot "" contextItem rfl rfl
    (fun hgap hrest hword _ => Cursor.finds_dot hgap (by simpa using hrest) hword)
    (fun _ _ htoken _ => by rw [primary, token_bind, htoken]) (fun _ _ => rfl) rfl
    (by simp [EndsSymbol]) rfl

theorem rereads_parent : (parent n).Rereads host :=
  .of_leaf .dotDot "" parent rfl rfl
    (fun hgap hrest _ _ => Cursor.finds_dotDot hgap (by simpa using hrest))
    (fun _ _ htoken _ => by rw [primary, token_bind, htoken]) (fun _ _ => rfl) rfl
    (by simp [EndsSymbol]) rfl

/-! ### Literals -/

theorem rereads_number {value : Literal} (h : value.IsFormed host) (hnumber : value.IsNumber) :
    (literal n value).Rereads host := by
  obtain ⟨numeral, hwritten, hwhole, hexponent, hrender, hvalue⟩ := Literal.exists_numeral h hnumber
  have htext : (literal n value).render.toList = numeral.text := by
    rw [render, hrender, String.toList_ofList]
  have hread : Literal.ofNumber? (String.ofList numeral.text) = some value := by
    have hnil : EndsWord [] := by rintro c ⟨⟩
    have hall := Number.Numeral.read_append hwritten (Cursor.numeral_endsAt hexponent hnil)
    rw [List.append_nil] at hall
    rw [Literal.ofNumber?, String.toList_ofList, hall, hvalue]
  refine .of_leaf .number (String.ofList numeral.text) (literal · value) rfl rfl ?_ ?_
    (fun _ _ => rfl) rfl ?_ rfl
  · intro c gap tail hgap hrest hword _
    rw [htext] at hrest
    exact Cursor.finds_numeral hgap hrest hwritten hwhole hexponent hword
  · intro nested s htoken hvalue
    rw [primary, token_bind, htoken]
    show numericLiteral _ s = _
    rw [numericLiteral, value_bind, hvalue, hread]
  · intro more
    obtain ⟨d, ds, hd⟩ := List.exists_cons_of_ne_nil hwhole
    have hname := Cursor.isNameChar_of_isDigit (hwritten.whole d (by simp [hd]))
    rw [htext, Number.Numeral.text, hd, List.append_assoc, List.append_assoc, List.cons_append]
    constructor <;> rintro ⟨⟩ <;> cases hname

theorem toList_renderString (text : String) :
    (Literal.renderString text).toList = quoted '"' text.toList := by
  have hdoubled : ∀ cs : List Char,
      cs.flatMap (fun c => if c = '"' then ['"', '"'] else [c]) = doubled '"' cs := by
    intro cs
    induction cs with
    | nil => rfl
    | cons c cs ih =>
        rw [List.flatMap_cons, ih, doubled]
        split
        · next h => rw [h]; rfl
        · rfl
  rw [Literal.renderString, hdoubled, quoted]
  simp

theorem rereads_string {text : String} : (literal n (.string text)).Rereads host := by
  have htext : (literal n (.string text)).render.toList = quoted '"' text.toList :=
    toList_renderString text
  refine .of_leaf .stringLiteral text (literal · (.string text)) rfl rfl ?_ ?_ (fun _ _ => rfl) rfl
    ?_ rfl
  · intro c gap tail hgap hrest _ hquote
    rw [htext] at hrest
    have := Cursor.finds_string (.inl rfl) hgap hrest hquote
    rwa [String.ofList_toList] at this
  · intro nested s htoken hvalue
    rw [primary, token_bind, htoken]
    show stringLiteral _ s = _
    rw [stringLiteral, value_bind, hvalue]
  · intro more
    rw [htext]
    simp [quoted, EndsSymbol]

theorem rereads_emptySequence : (literal n .emptySequence).Rereads host := by
  refine .of_primary ?_ (by simp [Literal.render, EndsSymbol]) rfl
  intro ids scope next hfits c gap tail rest t hc hgap hrest htail _
  have htext : c.rest = gap ++ '(' :: (')' :: tail) := by
    simpa [Literal.render] using hrest
  obtain ⟨d, hd, hopen, -, hbehind⟩ := Cursor.finds_leftParen hgap htext (by simp)
  obtain ⟨f, g, hf, hclose, hg, htoken, hrest'⟩ := htail.closing hbehind
  refine ⟨d, hd, by rw [hopen]; rfl, fun n s hs => ?_⟩
  obtain rfl := hs.cursor
  refine .token hopen ?_
  refine .offset ?_
  refine .advance hf ?_
  refine .token hclose ?_
  exact .advance hg (.pure ⟨rfl, htoken, hrest', hs.scope, hs.nextId⟩)

/-! ### References -/

theorem find?_outline (ids : Nat → Nat) (scope : List RangeVariable) (name : ExpandedName) :
    (scope.map (RangeVariable.outline ids)).find? (·.name = name) =
      (scope.find? (·.name = name)).map (RangeVariable.outline ids) := by
  rw [List.find?_map]
  rfl

theorem rereads_varRef (hhost : host.IsUsual) {ref : VariableRef} (hname : ref.name.IsName)
    (huri : ref.name.uri = "") : (varRef n ref).Rereads host := by
  have htext : (varRef n ref).render.toList = '$' :: ref.name.render.toList := by
    simp
  refine .of_primary ?_ (by simp [EndsSymbol]) rfl
  intro ids scope next hfits c gap tail rest t hc hgap hrest htail _
  rw [htext] at hrest
  obtain ⟨d, hd, hdollar, -, hbehind⟩ := Cursor.finds_dollar hgap hrest
  obtain ⟨f, hf, hword, hvalue, hbehind'⟩ := Cursor.finds_name (.inl rfl) hbehind
    (ExpandedName.isWord_render hname (.inl huri)) (.inr (.inl hdollar)) htail.word htail.name
  obtain ⟨g, hg, htoken, hrest'⟩ := htail.next f (by rw [hword]; rfl) hbehind'
  refine ⟨d, hd, by rw [hdollar]; rfl, fun n s hs => ?_⟩
  obtain rfl := hs.cursor
  refine .token hdollar ?_
  refine .offset ?_
  refine .advance hf ?_
  refine .expect hword ?_
  refine .value hvalue ?_
  refine .advance hg ?_
  refine .run (expandName_render hhost.elements hname (.inl huri) false _) (.run rfl ?_)
  have hlookup : s.scope.find? (·.name = ref.name) =
      (scope.find? (·.name = ref.name)).map (RangeVariable.outline ids) := by
    rw [hs.scope, find?_outline]
  dsimp only
  rw [hlookup]
  have hresolves := hfits.resolves.resolves
  cases ref with
  | range v =>
      have hfind : scope.find? (·.name = v.name) = some v := hresolves
      rw [show (VariableRef.range v).name = v.name from rfl, hfind]
      exact .pure ⟨rfl, htoken, hrest', hs.scope, hs.nextId⟩
  | declared name type =>
      obtain ⟨hfind, htype⟩ := hresolves
      rw [show (VariableRef.declared name type).name = name from rfl, hfind, htype]
      exact .pure ⟨rfl, htoken, hrest', hs.scope, hs.nextId⟩

/-! ### Steps -/

theorem isNCName_axis (axis : Axis) : isNCName axis.name.toList = true := by
  cases axis <;> decide

theorem ofName?_name (axis : Axis) : Axis.ofName? axis.name = some axis := by
  cases axis <;> decide

/-- Only bare names and names of namespace nodes are read as something else. -/
theorem reread?_of_ne {axis : Axis} {test : NodeTest}
    (h : ∀ k n, test = .name k n → k ≠ .element ∧ k ≠ .attribute ∧ k ≠ .namespaceNode) :
    axis.reread? test = some test := by
  unfold Axis.reread?
  split
  · next n => exact absurd rfl (h _ n rfl).1
  · next n => exact absurd rfl (h _ n rfl).2.1
  · next n => exact absurd rfl (h _ n rfl).2.2
  · rfl

theorem reread?_of_isLegible {axis : Axis} {test : NodeTest} (h : test.IsStepTest host axis)
    (hlegible : axis.isLegible test = true) : axis.reread? test = some test := by
  unfold Axis.isLegible at hlegible
  rw [Bool.and_eq_true, Bool.and_eq_true] at hlegible
  obtain ⟨⟨haxis, -⟩, hkind⟩ := hlegible
  unfold Axis.reread?
  split
  · rw [of_decide_eq_true hkind]
  · rw [of_decide_eq_true hkind]
  · -- only the axis of namespaces leads to such names
    have hprincipal : axis.principalKind = .namespaceNode := by
      generalize hname : NodeTest.name NodeKind.namespaceNode _ = test' at h
      cases h with
      | name => exact (NodeTest.name.inj hname).1.symm
      | kindTest h =>
          subst hname
          cases h with
          | elements h | attributes h => cases h
      | _ => cases hname
    cases axis with
    | namespaces => exact absurd rfl (of_decide_eq_true haxis)
    | _ => cases hprincipal
  · rfl

/-- A test that is read behind an axis starts with a keyword, or it is a name or a local name. -/
theorem isStepTest_written {axis : Axis} {test test' : NodeTest} (h : test.IsStepTest host axis)
    (hstar : axis = .namespaces → host.namespaceTests = true)
    (hnamespace : ∀ k uri?, test ≠ .inNamespace k uri?)
    (hreread : axis.reread? test = some test') :
    (test.IsKindTest host ∧ test' = test ∧
      test.render = test.word ++ "(" ++ test.argumentText ++ ")") ∨
      (∃ k n, n.IsName ∧ test = .name k n ∧ test' = .name axis.principalKind n ∧
        test.render = n.render) ∨
      ∃ l : String, isNCName l.toList = true ∧ test = .localName axis.principalKind l ∧
        test' = test := by
  have hbare : ∀ {k n}, n.IsName → test = .name k n → k = .element ∨ k = .attribute →
      ∃ k n, n.IsName ∧ test = .name k n ∧ test' = .name axis.principalKind n ∧
        test.render = n.render := by
    rintro k n hn rfl hk
    refine ⟨k, n, hn, rfl, ?_⟩
    rcases hk with rfl | rfl <;> exact ⟨(Option.some.inj hreread).symm, rfl⟩
  have hsame : (∀ k n, test = .name k n → k ≠ .element ∧ k ≠ .attribute ∧ k ≠ .namespaceNode) →
      test' = test := fun h => Option.some.inj (hreread.symm.trans (reread?_of_ne h))
  cases h with
  | star =>
      refine .inl ⟨?_, hsame nofun, ?_⟩
      · cases axis with
        | «attribute» => exact .attributes .kind
        | namespaces => exact .namespaceNode (hstar rfl)
        | _ => exact .elements .kind
      · cases axis <;> rfl
  | @name n hn =>
      cases axis with
      | namespaces => cases hreread
      | «attribute» => exact .inr (.inl (hbare hn rfl (.inr rfl)))
      | _ => exact .inr (.inl (hbare hn rfl (.inl rfl)))
  | localName hl => exact .inr (.inr ⟨_, hl, rfl, hsame nofun⟩)
  | inNamespace => exact absurd rfl (hnamespace _ _)
  | kindTest h =>
      -- the test of a name is written without its keyword
      by_cases hname : ∃ k n, test = .name k n ∧ (k = .element ∨ k = .attribute)
      · obtain ⟨k, n, rfl, hk⟩ := hname
        have hn : n.IsName := by
          cases h with
          | elements h => cases h; assumption
          | attributes h => cases h; assumption
          | instructionOf _ => rcases hk with hk | hk <;> cases hk
        exact .inr (.inl (hbare hn rfl hk))
      · have hne : ∀ k n, test = .name k n → k ≠ .element ∧ k ≠ .attribute := by
          rintro k n rfl
          exact ⟨fun hk => hname ⟨k, n, rfl, .inl hk⟩, fun hk => hname ⟨k, n, rfl, .inr hk⟩⟩
        refine .inl
          ⟨h, hsame fun k n heq => ⟨(hne k n heq).1, (hne k n heq).2, ?_⟩, h.render_eq hne⟩
        rintro rfl
        subst heq
        cases h with
        | elements h | attributes h => cases h

/-- The test of a step behind its axis. -/
theorem nodeTest_ends {F : Fault → Prop} {axis : Axis} {test test' : NodeTest}
    (hbinds : host.Binds test.names) (htest : test.IsStepTest host axis)
    (hstar : axis = .namespaces → host.namespaceTests = true)
    (hnamespace : ∀ k uri?, test ≠ .inNamespace k uri?)
    (hreread : axis.reread? test = some test')
    (hc : c.token = .axis) (hrest : c.rest = test.render.toList ++ tail)
    (htail : Follows tail t rest) :
    ∃ d, c.advance = (.ok (), d) ∧ startsTest d.token = true ∧ ∀ s, s.cursor = d →
      Ends host.reader F (nodeTest host.reader axis.principalKind) s fun test'' u =>
        test'' = test' ∧ At t rest s.scope s.nextId u := by
  have hprecedes : PrecedesOperand c.token := by
    rw [hc]
    decide
  obtain ⟨hkind, rfl, hrender⟩ | ⟨k, n, hn, rfl, rfl, hrender⟩ | ⟨l, hl, rfl, rfl⟩ :=
    isStepTest_written htest hstar hnamespace hreread
  · have htext : c.rest = test'.word.toList ++ '(' ::
        (test'.argumentText.toList ++ ')' :: tail) := by
      rw [hrest, hrender]
      simp
    obtain ⟨hword, hcall, -, -⟩ := NodeTest.isPlainKeyword hkind.word_mem
    obtain ⟨d, hd, htoken, hvalue, hbehind⟩ := Cursor.finds_testKeyword (.inl rfl) htext hword
      hcall hprecedes (hkind.argumentText_head hbinds _)
    refine ⟨d, hd, by rw [htoken]; rfl, ?_⟩
    rintro s rfl
    exact .token htoken (kindTest_ends hkind hbinds htoken hvalue hbehind htail)
  · have hbound : n.IsBound host := hbinds.single
    rw [hrender] at hrest
    obtain ⟨d, hd, htoken, hvalue, hbehind⟩ := Cursor.finds_name (.inl rfl) hrest
      (ExpandedName.isWord_render hn hbound.isPlain) (.inl hprecedes) htail.word htail.name
    obtain ⟨f, hf, htoken', hrest'⟩ := htail.next d (by rw [htoken]; rfl) hbehind
    refine ⟨d, hd, by rw [htoken]; rfl, ?_⟩
    rintro s rfl
    refine .token htoken ?_
    refine .value hvalue ?_
    refine .run (expandName_render hbinds.elements hn hbound _ s) ?_
    exact .advance hf (.pure ⟨rfl, htoken', hrest', rfl, rfl⟩)
  · have htext : c.rest = [] ++ '*' :: ':' :: (l.toList ++ tail) := by
      rw [hrest, show (NodeTest.localName axis.principalKind l).render = "*:" ++ l from rfl]
      simp
    obtain ⟨d, hd, htoken, -, hbehind⟩ :=
      Cursor.finds_localWildcard (.inl rfl) htext hprecedes.1 hl
    obtain ⟨f, hf, hword, hvalue, hbehind'⟩ := Cursor.finds_name (.inl rfl) hbehind (.simple hl)
      (.inr (.inr htoken)) htail.word htail.name
    obtain ⟨g, hg, htoken', hrest'⟩ := htail.next f (by rw [hword]; rfl) hbehind'
    refine ⟨d, hd, by rw [htoken]; rfl, ?_⟩
    rintro s rfl
    refine .token htoken ?_
    refine .advance hf ?_
    refine .value hvalue ?_
    refine .expect hword ?_
    simp only [hl, Bool.not_true, Bool.false_eq_true, if_false]
    exact .advance hg (.pure ⟨rfl, htoken', hrest', rfl, rfl⟩)

/-- A step from its axis on, with whatever comes of the test behind it. -/
theorem primary_axis {F : Fault → Prop} {axis : Axis} {nested : Parse Expr} {b : Bool}
    {s : ParseState} {Q : NodeTest → ParseState → Prop} (htoken : s.cursor.token = .axis)
    (hvalue : s.cursor.value = axis.name) (hd : s.cursor.advance = (.ok (), d))
    (hstarts : startsTest d.token = true)
    (hread : Ends host.reader F (nodeTest host.reader axis.principalKind)
      { s with cursor := d } Q) :
    Ends host.reader F (primary host.reader nested b) s fun e u =>
      ∃ test, e = axisStep s.cursor.offset axis test ∧ Q test u := by
  refine .token htoken ?_
  refine .offset ?_
  refine .value hvalue ?_
  rw [ofName?_name]
  refine .advance hd (.token rfl ?_)
  simp only [hstarts, Bool.not_true, Bool.false_eq_true, if_false]
  exact .bind hread fun test u hQ => .pure ⟨test, rfl, hQ⟩

theorem rereads_axisStep (hhost : host.IsUsual) {axis : Axis} {test : NodeTest}
    (hforward : axis.isReverse = false) (htest : test.IsStepTest host axis)
    (hlegible : axis.isLegible test = true) : (axisStep n axis test).Rereads host := by
  have htext : (axisStep n axis test).render.toList =
      axis.name.toList ++ ':' :: ':' :: test.render.toList := by
    simp
  have hword : IsWord axis.name.toList := .simple (isNCName_axis axis)
  have hreread := reread?_of_isLegible htest hlegible
  unfold Axis.isLegible at hlegible
  rw [Bool.and_eq_true, Bool.and_eq_true] at hlegible
  obtain ⟨⟨haxis, hnames⟩, -⟩ := hlegible
  have hnamespace : ∀ k uri?, test ≠ .inNamespace k uri? := by
    rintro k uri? rfl
    cases hnames
  refine .of_primary ?_ (fun more => ?_) hforward
  · intro ids scope next hfits c gap tail rest t hc hgap hrest htail _
    rw [htext, List.append_assoc] at hrest
    obtain ⟨d, hd, htoken, hvalue, hbehind⟩ :=
      Cursor.finds_axis hgap hrest (isNCName_axis axis)
    obtain ⟨f, hf, hstarts, hread⟩ := nodeTest_ends (hhost.binds_test hnames) htest
      (fun h => absurd h (of_decide_eq_true haxis)) hnamespace hreread htoken hbehind htail
    refine ⟨d, hd, by rw [htoken]; rfl, fun n s hs => ?_⟩
    obtain rfl := hs.cursor
    refine (primary_axis htoken hvalue hf hstarts (hread _ rfl)).mono ?_
    rintro e u ⟨test', rfl, rfl, hu⟩
    exact ⟨rfl, hu.token, hu.rest, hu.scope.trans hs.scope, hu.nextId.trans hs.nextId⟩
  · rw [htext, List.append_assoc]
    exact hword.endsSymbol _

/-! ### Predicates -/

theorem Fits.two {e a b : Expr} (h : e.Fits host ids scope next) (hplain : e.isPlain = true)
    (hparts : e.children = [a, b]) :
    a.Fits host ids scope next ∧ b.Fits host ids scope (next + a.readIds.length) ∧
      e.readIds.length = a.readIds.length + b.readIds.length := by
  have hids : e.readIds = a.readIds ++ b.readIds := by
    simp [readIds_of_isPlain hplain, hparts]
  have hnumbered := h.numbered
  rw [hids] at hnumbered
  obtain ⟨ha, hb⟩ := numbered_append.mp hnumbered
  refine ⟨⟨h.resolves.child hplain (by simp [hparts]), ha⟩,
    ⟨h.resolves.child hplain (by simp [hparts]), hb⟩, ?_⟩
  rw [hids, List.length_append]

theorem rereads_filter {base condition : Expr} (hbase : base.Rereads host)
    (hcondition : condition.Rereads host) : (filter n base condition).Rereads host := by
  have htext : ∀ tail : List Char, (filter n base condition).render.toList ++ tail =
      base.render.toList ++ '[' :: (condition.render.toList ++ ']' :: tail) := by
    simp
  refine ⟨fun more => by rw [htext]; exact hbase.head _, ?_⟩
  intro ids scope next hfits c gap tail rest t hc hgap hrest htail
  rw [htext] at hrest
  obtain ⟨hfitBase, hfitCondition, hlength⟩ := hfits.two rfl rfl
  obtain ⟨d, hd, hstarts, hread⟩ :=
    hbase.reads hfitBase hc hgap hrest (.openBracket _)
  refine ⟨d, hd, hstarts, fun n s hs Q hQ => hread n s hs Q fun base' u hback => ?_⟩
  have hopen : StartsOperand u.cursor.token := by
    rw [hback.place.token]
    decide
  obtain ⟨f, hf, -, hinside⟩ := hcondition.expression hfitCondition hopen (.inl rfl)
    hback.place.rest (.closeBracket tail) (by decide)
  refine .round (by rw [hback.place.token]; rfl) ?_
  refine .offset ?_
  refine .descend ?_
  refine .advance hf ?_
  refine .bind (hinside n _ ((hback.place.depth _).move f)) ?_
  intro condition' v hback'
  obtain ⟨g, hg, htoken, hrest'⟩ :=
    htail.next v.cursor (by rw [hback'.place.token]; rfl) hback'.place.rest
  refine .skip hback'.place.token hg (.pure ⟨?_, hQ _ _ ⟨?_, htoken, hrest', ?_, ?_⟩⟩)
  · have := htail.length_le
    rw [hrest', hback.place.rest]
    simp only [List.length_append, List.length_cons]
    omega
  · simp [outline, hback.outline, hback'.outline]
  · exact hback'.place.scope
  · rw [hlength, ← Nat.add_assoc]
    exact hback'.place.nextId

/-! ### Calls -/

theorem head?_stringLiteral?_of_outline {es es' : List Expr}
    (h : es'.map (outline id) = es.map (outline ids)) :
    es'.head?.bind stringLiteral? = es.head?.bind stringLiteral? := by
  cases es' with
  | nil => rw [List.map_eq_nil_iff.mp h.symm]
  | cons e' es' =>
      cases es with
      | nil => cases h
      | cons e es => exact stringLiteral?_of_outline (List.head_eq_of_cons_eq h)

/-- A function is written with a qualifier. -/
theorem render_functionName {name : ExpandedName}
    (h : name.uri = Namespace.functions ∨ name.uri = Namespace.schema) :
    ∃ q, name.render = q ++ ":" ++ name.localName := by
  obtain ⟨uri, localName⟩ := name
  rcases h with rfl | rfl
  · exact ⟨"fn", rfl⟩
  · exact ⟨"xs", rfl⟩

theorem isPlain_functionName {name : ExpandedName}
    (h : name.uri = Namespace.functions ∨ name.uri = Namespace.schema) : name.IsPlain := by
  rcases h with h | h
  · exact .inr ⟨"fn", h ▸ rfl⟩
  · exact .inr ⟨"xs", h ▸ rfl⟩

/-- A word with a qualifier is no keyword. -/
theorem notKeyword {word : String} (h : ':' ∈ word.toList) :
    Token.ofCallWord word = .function ∧ Token.typeWord? word = none := by
  have hne : ∀ keyword ∈ "if" :: "instance" :: "treat" :: "cast" :: "castable" :: Token.kindWords,
      word ≠ keyword := by
    rintro keyword hkeyword rfl
    exact absurd h ((by decide : ∀ k ∈ "if" :: "instance" :: "treat" :: "cast" :: "castable" ::
      Token.kindWords, ':' ∉ k.toList) word hkeyword)
  constructor
  · rw [Token.ofCallWord, if_neg (hne "if" (by simp)), if_neg]
    exact fun hmem => hne word (by simp [hmem]) rfl
  · unfold Token.typeWord?
    split
    · exact absurd rfl (hne "instance" (by simp))
    · exact absurd rfl (hne "treat" (by simp))
    · exact absurd rfl (hne "cast" (by simp))
    · exact absurd rfl (hne "castable" (by simp))
    · rfl

/-- The arguments of a call and the parenthesis behind them. -/
theorem arguments_meets {args : List Expr} (hargs : ∀ a ∈ args, a.Rereads host)
    (hfits : FitAll host ids scope next args) (hc : c.token = .function)
    (hrest : c.rest = (renderList args).toList ++ ')' :: tail) (htail : Follows tail t rest) :
    ∃ d, c.advance = (.ok (), d) ∧ ∀ n s,
      StandsAt d (scope.map (RangeVariable.outline ids)) next s →
        Meets host.reader (arguments host.reader (singleWithin host.reader n)) s
          (BackAll ids scope next args t rest) := by
  cases args with
  | nil =>
      have htext : c.rest = ')' :: tail := by simpa [renderList] using hrest
      obtain ⟨d, f, hd, hclose, hf, htoken, hrest'⟩ := htail.closing htext
      refine ⟨d, hd, fun n s hs => ?_⟩
      obtain rfl := hs.cursor
      refine .token hclose ?_
      exact .advance hf (.pure ⟨rfl, htoken, hrest', hs.scope, hs.nextId⟩)
  | cons a args =>
      have hstarts : StartsOperand c.token := by
        rw [hc]
        decide
      obtain ⟨d, hd, hfirst, hread⟩ := readRow hargs hfits hstarts (.inl rfl) hrest (.close tail)
        (by decide)
      refine ⟨d, hd, fun n s hs => ?_⟩
      obtain rfl := hs.cursor
      refine .token rfl ?_
      rw [if_neg (by rintro hclose; rw [hclose] at hfirst; cases hfirst)]
      refine .bind (hread n s hs) fun args' u hback => ?_
      obtain ⟨f, hf, htoken, hrest'⟩ :=
        htail.next u.cursor (by rw [hback.place.token]; rfl) hback.place.rest
      exact .skip hback.place.token hf
        (.pure ⟨hback.outline, htoken, hrest', hback.place.scope, hback.place.nextId⟩)

/-- A call up to the choice of the function. -/
theorem functionCall_meets (hhost : host.IsUsual) {name : ExpandedName} {args : List Expr}
    (hname : name.IsName) (huri : name.uri = Namespace.functions ∨ name.uri = Namespace.schema)
    (hargs : ∀ a ∈ args, a.Rereads host) (hfits : FitAll host ids scope next args)
    (hc : StartsOperand c.token) (hgap : gap = [] ∨ gap = [' '])
    (hrest : c.rest = gap ++ (name.render.toList ++ '(' :: ((renderList args).toList ++
      ')' :: tail)))
    (htail : Follows tail t rest) :
    ∃ d, c.advance = (.ok (), d) ∧ d.token = .function ∧ ∀ n s,
      StandsAt d (scope.map (RangeVariable.outline ids)) next s → ∀ Q : Expr → ParseState → Prop,
        (∀ start args' u, BackAll ids scope next args t rest args' u →
          Meets host.reader (do
            match ← ask host.reader (host.bind? name args'.length) with
            | none => unknownCall host.reader start name args'.length
            | some function => knownCall host.reader start function args') u Q) →
        Meets host.reader (primary host.reader (singleWithin host.reader n) false) s Q := by
  have hhead : ((renderList args).toList ++ ')' :: tail).head? ≠ some ':' := by
    cases args with
    | nil => simp [renderList]
    | cons a args =>
        rw [renderList, String.toList_append, List.append_assoc]
        exact ((hargs a List.mem_cons_self).head _).1
  have hcolon : ':' ∈ name.render.toList := by
    obtain ⟨q, hq⟩ := render_functionName huri
    simp [hq]
  have hplain := isPlain_functionName huri
  obtain ⟨hcall, htype⟩ := notKeyword hcolon
  obtain ⟨d, hd, htoken, hvalue, hbehind⟩ := Cursor.finds_call hgap (.inl rfl) hrest
    (ExpandedName.isWord_render hname hplain) hc
    (fun _ => htype) hhead
  rw [hcall] at htoken
  obtain ⟨f, hf, hread⟩ := arguments_meets hargs hfits htoken hbehind htail
  refine ⟨d, hd, htoken, fun n s hs Q hQ => ?_⟩
  obtain rfl := hs.cursor
  refine .token htoken ?_
  refine .offset ?_
  refine .value hvalue ?_
  refine .run (functionName_usual hhost hname huri s) (.advance hf ?_)
  exact .bind (hread n _ (hs.move f)) fun args' u hback => hQ _ args' u hback

theorem rereads_call (hhost : host.IsUsual) {f : FunctionBinding} {args : List Expr}
    (hformed : (call n f args).IsFormed host) (hlegible : f.isLegible = true)
    (hargs : ∀ a ∈ args, a.Rereads host) : (call n f args).Rereads host := by
  obtain ⟨hbind, hname, hqname⟩ := hformed
  have huri : f.name.uri = Namespace.functions ∨ f.name.uri = Namespace.schema := by
    simpa [FunctionBinding.isLegible] using hlegible
  have htext : ∀ tail : List Char, (call n f args).render.toList ++ tail =
      f.name.render.toList ++ '(' :: ((renderList args).toList ++ ')' :: tail) := by
    simp
  refine .of_primary ?_ (fun more => ?_) rfl
  · intro ids scope next hfits c gap tail rest t hc hgap hrest htail _
    rw [htext] at hrest
    have hall : FitAll host ids scope next args :=
      ⟨fun a ha => hfits.resolves.child rfl ha, hfits.numbered⟩
    obtain ⟨d, hd, htoken, hread⟩ :=
      functionCall_meets hhost hname huri hargs hall hc hgap hrest htail
    refine ⟨d, hd, by rw [htoken]; rfl, fun n s hs => hread n s hs _ ?_⟩
    intro start args' u hback
    have hlength : args'.length = args.length := by
      simpa using congrArg List.length hback.outline
    have hask : ask host.reader (host.bind? f.name args'.length) u = .ok (some f) u := by
      rw [hlength, hbind]
      rfl
    have hliteral := head?_stringLiteral?_of_outline hback.outline
    have hknown : knownCall host.reader start f args' = pure (.call start f args') := by
      have hin : callIn host.reader start f args' = pure (.call start f args') := by
        unfold callIn
        split <;> first | rfl | contradiction
      unfold knownCall
      split
      · next hkind htext =>
          rw [hliteral, hqname hkind] at htext
          cases htext
      · exact hin
    refine .run hask ?_
    dsimp only
    rw [hknown]
    refine .pure ⟨?_, hback.place⟩
    rw [outline, outline, outlineAll_eq_map, outlineAll_eq_map, hback.outline]
  · rw [htext]
    exact (ExpandedName.isWord_render hname (isPlain_functionName huri)).endsSymbol _

/-- The constructor of names. -/
def qnameConstructor : FunctionBinding where
  name := ⟨Namespace.schema, "QName"⟩
  arity := 1
  kind := .constructor .qname
  result := ⟨.atomic .qname, .zeroOrOne⟩

theorem bind?_qname :
    FunctionLibrary.standard.bind? qnameConstructor.name 1 = some qnameConstructor :=
  rfl

/-- A name as a value is written as a call of the constructor of names. -/
theorem rereads_qname (hhost : host.IsUsual) {qualifier : Option String} {name : ExpandedName}
    (h : (Literal.qname qualifier name).IsFormed host) :
    (literal n (.qname qualifier name)).Rereads host := by
  let text := qnameText qualifier name
  let args := [literal 0 (.string text)]
  have hname : qnameConstructor.name.IsName := isNCName_localName .qname
  have htext : ∀ tail : List Char, (literal n (.qname qualifier name)).render.toList ++ tail =
      qnameConstructor.name.render.toList ++ '(' :: ((renderList args).toList ++ ')' :: tail) := by
    intro tail
    have hrender : (literal n (.qname qualifier name)).render =
        "xs:QName(" ++ Literal.renderString text ++ ")" := by
      cases qualifier <;> rfl
    have hargs : renderList args = Literal.renderString text ++ "" := rfl
    rw [hrender, hargs, show qnameConstructor.name.render = "xs:QName" from rfl]
    simp
  have hargs : ∀ a ∈ args, a.Rereads host := by
    intro a ha
    rw [List.mem_singleton.mp ha]
    exact rereads_string
  refine .of_primary ?_ (fun more => ?_) rfl
  · intro ids scope next hfits c gap tail rest t hc hgap hrest htail _
    rw [htext] at hrest
    have hall : FitAll host ids scope next args := by
      refine ⟨fun a ha => ?_, rfl⟩
      rw [List.mem_singleton.mp ha]
      exact scoped_of_isPlain rfl fun part hpart => absurd hpart List.not_mem_nil
    obtain ⟨d, hd, htoken, hread⟩ :=
      functionCall_meets hhost hname (.inr rfl) hargs hall hc hgap hrest htail
    refine ⟨d, hd, by rw [htoken]; rfl, fun n s hs => hread n s hs _ ?_⟩
    intro start args' u hback
    have hlength : args'.length = 1 := by
      simpa [args] using congrArg List.length hback.outline
    have hask : ask host.reader (host.bind? qnameConstructor.name args'.length) u =
        .ok (some qnameConstructor) u := by
      rw [hlength, hhost.library, bind?_qname]
      rfl
    have hliteral : args'.head?.bind stringLiteral? = some text :=
      head?_stringLiteral?_of_outline hback.outline
    have hknown : knownCall host.reader start qnameConstructor args' =
        pure (.literal start (.qname qualifier name)) := by
      unfold knownCall
      rw [hliteral]
      dsimp only [qnameConstructor]
      rw [show qnameLiteral host text = .ok (.qname qualifier name) from h]
    refine .run hask ?_
    dsimp only
    rw [hknown]
    exact .pure ⟨rfl, hback.place⟩
  · rw [htext]
    exact (ExpandedName.isWord_render hname (isPlain_functionName (.inr rfl))).endsSymbol _

end Expr

end XPath
