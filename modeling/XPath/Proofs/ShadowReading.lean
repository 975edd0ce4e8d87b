import XPath.Proofs.Enclosing
import XPath.Proofs.Outline
import XPath.Proofs.Shadowing

/-!
# Productions along a track

Every production reads along a track what another reader reads on it (`singleWithin_followed`):
the expressions are the same but for their offsets and for the types of range variables. At the
end of the track, where one reader is at the word before an action and the other one at a comma,
both stop, or the first one fails. Only a list in parentheses or in brackets and the clauses of a
binding go on behind a comma, and these the first reader cannot end there.
-/

namespace XPath.Parse

variable {α β γ : Type} {σ : Setting} {k : Track} {s s' t t' : ParseState}

/-- The expressions are the same but for offsets and the types of range variables. -/
abbrev ShadowsExpr (k : Track) (p p' : Parse Expr) (s s' : ParseState) : Prop :=
  Shadows k (Expr.outline id) p p' s s'

namespace Shadows

variable {w : α → γ}

/-! ### Kind tests -/

/-- The type in a test is read alike, and warned of alike. -/
theorem contentTest {kind : NodeKind} :
    ShadowsSame k (contentTest σ kind) (contentTest σ kind) s s' := by
  unfold Parse.contentTest
  refine .token ?_ .reject .reject
  split
  · exact .reject
  · exact .reject
  · next hname =>
      have hinner : s.cursor.token.isInner = true := by
        rw [hname]
        rfl
      refine .value hinner ?_
      refine .stateless (.expandName _ _) fun name => ?_
      split
      · exact .reject
      · next type _ =>
          have rest : ∀ u u', ShadowsSame k (do
              Parse.advance σ
              let nillable := kind = .element && (← Parse.token) = .questionMark
              if nillable then Parse.advance σ
              return NodeTest.content kind type nillable) (do
              Parse.advance σ
              let nillable := kind = .element && (← Parse.token) = .questionMark
              if nillable then Parse.advance σ
              return NodeTest.content kind type nillable) u u' := by
            intro u u'
            refine .bind_same .advance fun _ v v' => ?_
            refine .token ?_ ?_ ?_
            · dsimp only
              split
              · exact .bind_same .advance fun _ _ _ => .pure rfl
              · exact .pure rfl
            · simp only [reduceCtorEq, decide_false, Bool.and_false]
              exact .pure rfl
            · simp only [reduceCtorEq, decide_false, Bool.and_false]
              exact .pure rfl
          dsimp only
          split
          · exact .bind_same .warn fun _ u u' => rest u u'
          · exact rest s s'
  · exact .reject

/-- The name of a test is looked at before it is read. -/
theorem testName {kind : NodeKind} {bySchema : Bool} {q q' : Option ExpandedName → Parse α}
    (hq : ∀ name?, Shadows k w (q name?) (q' name?) s s') :
    Shadows k w (testName σ kind bySchema >>= q) (Parse.testName σ kind bySchema >>= q') s s' := by
  have star : Shadows k w
      ((if bySchema then Parse.reject σ .schemaTestStar else Pure.pure none) >>= q)
      ((if bySchema then Parse.reject σ .schemaTestStar else Pure.pure none) >>= q') s s' := by
    split
    · exact .reject_bind
    · exact hq none
  unfold Parse.testName
  simp only [bind_assoc]
  refine .token ?_ .reject_bind .reject_bind
  split
  · exact star
  · exact star
  · next hname =>
      have hinner : s.cursor.token.isInner = true := by
        rw [hname]
        rfl
      simp only [bind_assoc, pure_bind]
      refine .value hinner ?_
      exact .stateless (.expandName _ _) fun name => hq (some name)
  · exact .reject_bind

/-- A test for elements or attributes is read alike from its argument on. -/
theorem namedTest {kind : NodeKind} {bySchema : Bool} :
    ShadowsSame k (namedTest σ kind bySchema) (namedTest σ kind bySchema) s s' := by
  unfold Parse.namedTest
  refine .any_value fun lexical lexical' => ?_
  refine .testName fun name? => ?_
  refine .bind_same .advance fun _ u u' => ?_
  refine .token ?_ .reject .reject
  split
  · refine .bind_same .advance fun _ _ _ => ?_
    split
    · exact .pure rfl
    · split
      · exact .pure rfl
      · split
        · exact .reject
        · exact .reject
  · dsimp only
    split
    · exact .reject_bind
    · refine .bind_same .advance fun _ _ _ => ?_
      refine .bind_same .contentTest fun _ _ _ => ?_
      refine .bind_same .skip fun _ _ _ => ?_
      split
      · exact .pure rfl
      · exact .pure rfl
  · exact .reject

theorem elementTest {kind : NodeKind} {bySchema : Bool} :
    ShadowsSame k (elementTest σ kind bySchema) (elementTest σ kind bySchema) s s' := by
  unfold Parse.elementTest
  refine .bind_same .advance fun _ t t' => ?_
  refine .token ?_ .namedTest .namedTest
  split
  · dsimp only
    split
    · exact .reject_bind
    · exact .bind_same .advance fun _ _ _ => .pure rfl
  · exact .namedTest

/-- A keyword and a closing parenthesis, or an argument. -/
theorem emptyArguments {q q' : Bool → Parse α} (hq : ∀ b t t', Shadows k w (q b) (q' b) t t') :
    Shadows k w (emptyArguments σ >>= q) (Parse.emptyArguments σ >>= q') s s' := by
  unfold Parse.emptyArguments
  simp only [bind_assoc]
  have no : ∀ t t', Shadows k w (Pure.pure false >>= q) (Pure.pure false >>= q') t t' :=
    fun t t' => by simpa using hq false t t'
  refine .bind_same .advance fun _ t t' => ?_
  refine .token ?_ (no t t') (no t t')
  split
  · simp only [bind_assoc, pure_bind]
    exact .bind_same .advance fun _ u u' => hq true u u'
  · exact no t t'

theorem plainTest {word : String} {test : NodeTest} :
    ShadowsSame k (plainTest σ word test) (plainTest σ word test) s s' := by
  unfold Parse.plainTest
  refine .emptyArguments fun b t t' => ?_
  split
  · exact .pure rfl
  · exact .reject

theorem namespaceTest : ShadowsSame k (namespaceTest σ) (namespaceTest σ) s s' := by
  unfold Parse.namespaceTest
  refine .emptyArguments fun b t t' => ?_
  split
  · split
    · exact .pure rfl
    · exact .reject
  · exact .reject

theorem documentTest : ShadowsSame k (documentTest σ) (documentTest σ) s s' := by
  unfold Parse.documentTest
  refine .emptyArguments fun b t t' => ?_
  split
  · exact .pure rfl
  · refine .value_token ?_ (fun _ _ => .reject) fun _ _ => .reject
    split
    · refine .bind_same .elementTest fun inner _ _ => ?_
      exact .bind_same .skip fun _ _ _ => .pure rfl
    · exact .reject

/-- The target of a test is looked at before it is read. -/
theorem instructionTarget {q q' : String → Parse α}
    (hq : ∀ target, Shadows k w (q target) (q' target) s s') :
    Shadows k w (instructionTarget σ >>= q) (Parse.instructionTarget σ >>= q') s s' := by
  unfold Parse.instructionTarget
  simp only [bind_assoc]
  refine .value_token ?_ (fun _ _ => .reject_bind) fun _ _ => .reject_bind
  split
  · split
    · exact hq _
    · exact .reject_bind
  · split
    · exact .reject_bind
    · split
      · exact hq _
      · exact .reject_bind
  · exact .reject_bind

theorem instructionTest : ShadowsSame k (instructionTest σ) (instructionTest σ) s s' := by
  unfold Parse.instructionTest
  refine .emptyArguments fun b t t' => ?_
  split
  · exact .pure rfl
  · refine .instructionTarget fun target => ?_
    refine .bind_same .advance fun _ _ _ => ?_
    exact .bind_same .skip fun _ _ _ => .pure rfl

/-- A test that starts with a keyword is read alike, case by case on the keyword. -/
theorem kindTest (hs : s.cursor.token.isInner = true) :
    ShadowsSame k (kindTest σ) (kindTest σ) s s' := by
  unfold Parse.kindTest
  refine .value hs ?_
  split
  · exact .plainTest
  · exact .plainTest
  · exact .plainTest
  · exact .namespaceTest
  · exact .documentTest
  · exact .instructionTest
  · exact .elementTest
  · exact .elementTest
  · exact .elementTest
  · exact .elementTest
  · refine .fails fun a t h => ?_
    obtain ⟨_, _, -, hfail⟩ := bind_ok.mp h
    exact reject_ne_ok hfail
  · exact .reject

/-! ### Sequence types -/

theorem plainType {type : ItemType} :
    ShadowsSame k (plainType σ type) (plainType σ type) s s' := by
  refine .bind_same .advance fun _ _ _ => ?_
  exact .bind_same .skip fun _ _ _ => .pure rfl

theorem itemType : ShadowsSame k (itemType σ) (itemType σ) s s' := by
  unfold Parse.itemType
  refine .token ?_ .reject .reject
  split
  · next hname =>
      have hs : s.cursor.token.isInner = true := by
        rw [hname]
        rfl
      refine .value hs ?_
      refine .stateless (.atomicType _) fun type => ?_
      exact .bind_same .advance fun _ _ _ => .pure rfl
  · next hkind =>
      have hs : s.cursor.token.isInner = true := by
        rw [hkind]
        rfl
      refine .value hs ?_
      split
      · exact .plainType
      · exact .plainType
      · exact .bind_same (.kindTest hs) fun _ _ _ => .pure rfl
  · exact .reject

theorem occurrenceMark?_isInner {t : Token} {o : Occurrence} (h : occurrenceMark? t = some o) :
    t.isInner = true := by
  cases t with
  | returnWord => cases h
  | satisfiesWord => cases h
  | _ => rfl

/-- A type is read alike, and its mark is none of the tokens at which a track ends. -/
theorem sequenceType : ShadowsSame k (sequenceType σ) (sequenceType σ) s s' := by
  unfold Parse.sequenceType
  refine .bind_same .itemType fun item t t' => ?_
  split
  · exact .pure rfl
  · refine .token ?_ (.pure rfl) (.pure rfl)
    split
    · exact .pure rfl
    · next hmark =>
        exact .bind_same (.skipMark (occurrenceMark?_isInner hmark)) fun _ _ _ => .pure rfl

theorem singleType : ShadowsSame k (singleType σ) (singleType σ) s s' := by
  unfold Parse.singleType
  refine .expect rfl fun hname => ?_
  have hinner : s.cursor.token.isInner = true := by
    rw [hname]
    rfl
  refine .value hinner ?_
  refine .stateless (.atomicType _) fun type => ?_
  dsimp only
  split
  · exact .reject_bind
  · refine .bind_same .advance fun _ u u' => ?_
    refine .token ?_ ?_ ?_
    · split
      · next hmark =>
          refine .bind_same (.skipMark ?_) fun _ _ _ => .pure rfl
          rw [hmark]
          rfl
      · exact .pure rfl
    · simp only [reduceCtorEq, decide_false, if_false]
      exact .pure rfl
    · simp only [reduceCtorEq, decide_false, if_false]
      exact .pure rfl

/-! ### Node tests and axis steps -/

/-- The test of a step is read alike, whether it is a name or a kind test. -/
theorem nodeTest {kind : NodeKind} : ShadowsSame k (nodeTest σ kind) (nodeTest σ kind) s s' := by
  unfold Parse.nodeTest
  refine .token ?_ .reject .reject
  split
  · next hname =>
      have hinner : s.cursor.token.isInner = true := by
        rw [hname]
        rfl
      refine .value hinner ?_
      refine .stateless (.expandName _ _) fun name => ?_
      exact .bind_same .advance fun _ _ _ => .pure rfl
  · next hwildcard =>
      have hinner : s.cursor.token.isInner = true := by
        rw [hwildcard]
        rfl
      refine .value hinner ?_
      refine .stateless (.declaredNamespace _) fun uri => ?_
      exact .bind_same .advance fun _ _ _ => .pure rfl
  · refine .bind_same .advance fun _ t t' => ?_
    refine .value_expect rfl fun hname => ?_
    dsimp only
    split
    · exact .reject_bind
    · exact .bind_same .advance fun _ _ _ => .pure rfl
  · exact .bind_same .advance fun _ _ _ => .pure rfl
  · next hkind => exact .kindTest (by rw [hkind]; rfl)
  · exact .reject

end Shadows

/-! ### Expressions that are alike -/

theorem isReverseStep_alike {e e' : Expr} (h : e'.outline id = e.outline id) :
    isReverseStep e' = isReverseStep e := by
  have houtline := congrArg isReverseStep h
  simpa only [Expr.isReverseStep_outline] using houtline

theorem stringLiteral?_alike {e e' : Expr} (h : e'.outline id = e.outline id) :
    e'.stringLiteral? = e.stringLiteral? := by
  have houtline := congrArg Expr.stringLiteral? h
  simpa only [Expr.stringLiteral?_outline] using houtline

/-! ### Expressions within others -/

/-- Expressions within another one that are read alike along a track, by readers that read on. -/
structure Followed (σ : Setting) (k : Track) (nested nested' : Parse Expr) : Prop where
  shadows : ∀ s s', ShadowsExpr k nested nested' s s'
  within : Within σ nested nested
  within' : Within σ nested' nested'

variable {nested nested' : Parse Expr} {q q' : Expr → Parse α} {w : α → γ}

/-- What several expressions with commas between them are: one stands for itself. -/
def gathered (n : Nat) : List Expr → Expr
  | [single] => single
  | items => .sequence n items

theorem expression_bind (f : Expr → Parse α) : (expression σ nested >>= f) =
    offset >>= fun n => commaSeparated σ nested >>= fun items => f (gathered n items) := by
  unfold expression
  simp only [bind_assoc]
  congr
  funext n
  congr
  funext items
  rcases items with _ | ⟨e, _ | ⟨e', es⟩⟩ <;> simp [gathered]

/-- Alike members make alike rows. -/
theorem outline_gathered {items items' : List Expr}
    (h : items'.map (Expr.outline id) = items.map (Expr.outline id)) (n n' : Nat) :
    (gathered n' items').outline id = (gathered n items).outline id := by
  match items, items' with
  | [], [] => rfl
  | [], e' :: es' => simp at h
  | e :: es, [] => simp at h
  | [e], [e'] => simpa [gathered] using h
  | [e], e' :: f' :: es' => simp at h
  | e :: f :: es, [e'] => simp at h
  | e :: f :: es, e' :: f' :: es' =>
      simp only [gathered, Expr.outline, Expr.outlineAll_eq_map, h]

namespace Shadows

/-- Expressions and a token behind them that is read, too. -/
theorem expression {t : Token} (hn : Followed σ k nested nested')
    (hq : ∀ e e' t t', e'.outline id = e.outline id → Shadows k w (q e) (q' e') t t') :
    Shadows k w (expression σ nested >>= fun e => Parse.skip σ t >>= fun _ => q e)
      (Parse.expression σ nested' >>= fun e => Parse.skip σ t >>= fun _ => q' e) s s' := by
  rw [expression_bind, expression_bind]
  refine .offset fun n n' => ?_
  refine .commaSeparated hn.shadows (fun h => (hn.within'.mirrors (d := 0) _ _ h).1) ?_
  exact fun items items' t t' hitems => hq _ _ t t' (outline_gathered hitems n n')

/-! ### Literals and variables -/

theorem leaf {make : Nat → Expr} (hmake : ∀ n n', (make n').outline id = (make n).outline id) :
    ShadowsExpr k (leaf σ make) (leaf σ make) s s' := by
  refine .offset fun n n' => ?_
  exact .bind_same .advance fun _ _ _ => .pure (hmake n n')

theorem stringLiteral (hs : s.cursor.token.isInner = true) :
    ShadowsExpr k (stringLiteral σ) (stringLiteral σ) s s' :=
  .value hs (.leaf fun _ _ => rfl)

theorem numericLiteral (hs : s.cursor.token.isInner = true) :
    ShadowsExpr k (numericLiteral σ) (numericLiteral σ) s s' := by
  unfold Parse.numericLiteral
  refine .value hs ?_
  split
  · exact .reject
  · exact .leaf fun _ _ => rfl

/-- A reference is read alike, since the same variables are in scope but for their types. -/
theorem variableReference : ShadowsExpr k (variableReference σ) (variableReference σ) s s' := by
  unfold Parse.variableReference
  refine .offset fun n n' => ?_
  refine .bind_same .advance fun _ t t' => ?_
  refine .expect rfl fun hname => ?_
  have hinner : t.cursor.token.isInner = true := by
    rw [hname]
    rfl
  refine .value hinner ?_
  refine .bind_same .advance fun _ u u' => ?_
  refine .stateless (.expandName _ _) fun name => ?_
  refine .get fun r hr => ?_
  simp only [hr]
  split
  · exact .pure rfl
  · split
    · exact .pure rfl
    · split
      · exact .reject
      · exact .fails fun _ _ => fail_ne_ok

/-! ### Calls -/

theorem unknownCall {n n' arity : Nat} {name : ExpandedName} :
    ShadowsExpr k (unknownCall σ n name arity) (unknownCall σ n' name arity) s s' := by
  unfold Parse.unknownCall
  dsimp only
  split
  · exact .pure rfl
  · exact .reject

theorem callIn {n n' : Nat} {function : FunctionBinding} {args args' : List Expr}
    (hargs : args'.map (Expr.outline id) = args.map (Expr.outline id)) :
    ShadowsExpr k (callIn σ n function args) (callIn σ n' function args') s s' := by
  unfold Parse.callIn
  split
  · exact .pure rfl
  · exact .reject
  · exact .reject
  · exact .pure (by simp [Expr.outline, Expr.outlineAll_eq_map, hargs])

/-- A call with alike arguments has alike strings to make names of. -/
theorem knownCall {n n' : Nat} {function : FunctionBinding} {args args' : List Expr}
    (hargs : args'.map (Expr.outline id) = args.map (Expr.outline id)) :
    ShadowsExpr k (knownCall σ n function args) (knownCall σ n' function args') s s' := by
  have hliteral : args'.head?.bind Expr.stringLiteral? = args.head?.bind Expr.stringLiteral? := by
    have hhead := congrArg List.head? hargs
    rw [List.head?_map, List.head?_map] at hhead
    cases args with
    | nil => simp_all
    | cons e es =>
        cases args' with
        | nil => simp at hargs
        | cons e' es' =>
            have he : e'.outline id = e.outline id := by simpa using hhead
            exact stringLiteral?_alike he
  unfold Parse.knownCall
  simp only [hliteral]
  split
  · split
    · exact .pure rfl
    · exact .reject
  · exact .callIn hargs

theorem arguments (hn : Followed σ k nested nested') :
    Shadows k (List.map (Expr.outline id)) (arguments σ nested) (arguments σ nested') s s' := by
  unfold Parse.arguments
  have list : ∀ t t', Shadows k (List.map (Expr.outline id))
      (Parse.commaSeparated σ nested >>= fun args => Parse.skip σ .rightParen >>= fun _ =>
        Pure.pure args)
      (Parse.commaSeparated σ nested' >>= fun args => Parse.skip σ .rightParen >>= fun _ =>
        Pure.pure args) t t' := by
    intro t t'
    refine .commaSeparated hn.shadows (fun h => (hn.within'.mirrors (d := 0) _ _ h).1) ?_
    exact fun args args' _ _ hargs => .pure hargs
  refine .token ?_ (list s s') (list s s')
  split
  · exact .bind_same .advance fun _ _ _ => .pure rfl
  · exact list s s'

/-- A call is read alike, with as many arguments and so with the same function. -/
theorem functionCall (hn : Followed σ k nested nested') (hs : s.cursor.token.isInner = true) :
    ShadowsExpr k (functionCall σ nested) (functionCall σ nested') s s' := by
  unfold Parse.functionCall
  refine .offset fun n n' => ?_
  refine .value hs ?_
  refine .stateless (.functionName _) fun name => ?_
  refine .bind_same .advance fun _ _ _ => ?_
  refine .bind (.arguments hn) fun args args' t t' hargs => ?_
  have hlength : args'.length = args.length := by
    simpa using congrArg List.length hargs
  rw [hlength]
  refine .stateless (.ask _) fun function? => ?_
  split
  · exact .unknownCall
  · exact .knownCall hargs

/-! ### Parentheses -/

/-- An expression in parentheses is read alike, and the track does not end in it. -/
theorem parenthesized (hn : Followed σ k nested nested') :
    ShadowsExpr k (parenthesized σ nested) (parenthesized σ nested') s s' := by
  unfold Parse.parenthesized
  have inner : ∀ t t', ShadowsExpr k
      (Parse.expression σ nested >>= fun e => Parse.skip σ .rightParen >>= fun _ => Pure.pure e)
      (Parse.expression σ nested' >>= fun e => Parse.skip σ .rightParen >>= fun _ =>
        Pure.pure e) t t' :=
    fun t t' => .expression hn fun _ _ _ _ he => .pure he
  refine .offset fun n n' => ?_
  refine .bind_same .advance fun _ t t' => ?_
  refine .token ?_ (inner t t') (inner t t')
  split
  · exact .bind_same .advance fun _ _ _ => .pure rfl
  · exact inner t t'

/-! ### Steps -/

theorem bareStep {startsPattern : Bool} (hs : s.cursor.token.isInner = true) :
    ShadowsExpr k (bareStep σ startsPattern) (bareStep σ startsPattern) s s' := by
  refine .offset fun n n' => ?_
  refine .inner_token hs ?_
  refine .value hs ?_
  exact .bind_same .nodeTest fun _ _ _ => .pure rfl

theorem axisTest {n n' : Nat} {axis : Axis} {kind : NodeKind} {fault : Fault} :
    ShadowsExpr k (do
        if !startsTest (← Parse.token) then Parse.reject σ fault
        return .axisStep n axis (← Parse.nodeTest σ kind)) (do
        if !startsTest (← Parse.token) then Parse.reject σ fault
        return .axisStep n' axis (← Parse.nodeTest σ kind)) s s' := by
  refine .token ?_ .reject_bind .reject_bind
  dsimp only
  split
  · exact .reject_bind
  · exact .bind_same .nodeTest fun _ _ _ => .pure rfl

theorem attributeStep : ShadowsExpr k (attributeStep σ) (attributeStep σ) s s' := by
  refine .offset fun n n' => ?_
  exact .bind_same .advance fun _ _ _ => .axisTest

theorem axisStep (hs : s.cursor.token.isInner = true) :
    ShadowsExpr k (axisStep σ) (axisStep σ) s s' := by
  unfold Parse.axisStep
  refine .offset fun n n' => ?_
  refine .value hs ?_
  split
  · exact .reject
  · refine .bind_same .advance fun _ t t' => ?_
    refine .token ?_ (.found fun _ _ _ => Mirrors.reject_bind_ne_ok)
      (.found fun _ _ _ => Mirrors.reject_bind_ne_ok)
    dsimp only
    split
    · exact .found fun _ _ _ => Mirrors.reject_bind_ne_ok
    · exact .bind_same .nodeTest fun _ _ _ => .pure rfl

/-- What a path starts with is read alike, whichever token of the track it starts with. -/
theorem primary (hn : Followed σ k nested nested') {startsPattern : Bool} :
    ShadowsExpr k (primary σ nested startsPattern) (primary σ nested' startsPattern) s s' := by
  unfold Parse.primary
  refine .token ?_ (.found fun _ _ _ => reject_ne_ok) (.found fun _ _ _ => reject_ne_ok)
  cases htoken : s.cursor.token
  case dollar => exact .variableReference
  case leftParen => exact .parenthesized hn
  case stringLiteral => exact .stringLiteral (by rw [htoken]; rfl)
  case number => exact .numericLiteral (by rw [htoken]; rfl)
  case function => exact .functionCall hn (by rw [htoken]; rfl)
  case dot => exact .leaf fun _ _ => rfl
  case dotDot => exact .leaf fun _ _ => rfl
  case atSign => exact .attributeStep
  case axis => exact .axisStep (by rw [htoken]; rfl)
  case nodeKind | name | namespaceWildcard | localWildcard | star =>
    exact .bareStep (by rw [htoken]; rfl)
  all_goals exact .found fun _ _ _ => reject_ne_ok

end Shadows

/-! ### Steps with predicates -/

theorem advances_predicate (hw : Within σ nested nested) :
    Advances (· = .leftBracket) (predicate σ nested) := by
  intro base s e t hgo h
  have hs : s.cursor.token ≠ .eof := by
    rw [of_decide_eq_true hgo]
    simp
  exact (MirrorsOn.predicate (d := 0) hw hs).2 e t h

/-- Alike steps are joined to alike paths. -/
theorem outline_joinStep {n n' : Nat} {separator : Token} {before before' next next' : Expr}
    (hbefore : before'.outline id = before.outline id)
    (hnext : next'.outline id = next.outline id) :
    (joinStep n' separator before' next').outline id =
      (joinStep n separator before next).outline id := by
  unfold joinStep
  split
  · simp only [Expr.outline, anyDescendant, hbefore, hnext]
  · simp only [Expr.outline, hbefore, hnext]

theorem advances_furtherStep (hw : Within σ nested nested) :
    Advances isSeparator (furtherStep σ nested) :=
  fun _ _ _ _ hgo h => (MirrorsOn.furtherStep (d := 0) hw (ne_eof_of_go rfl hgo)).2 _ _ h

theorem advances_furtherStepFromRoot (hw : Within σ nested nested) :
    Advances isSeparator (furtherStepFromRoot σ nested) :=
  fun _ _ _ _ hgo h => (MirrorsOn.furtherStepFromRoot (d := 0) hw (ne_eof_of_go rfl hgo)).2 _ _ h

namespace Shadows

theorem predicate (hn : Followed σ k nested nested') {base base' : Expr}
    (hbase : base'.outline id = base.outline id) :
    ShadowsExpr k (predicate σ nested base) (predicate σ nested' base') s s' := by
  unfold Parse.predicate
  refine .offset fun n n' => ?_
  refine .bind_same .descend fun _ _ _ => ?_
  refine .bind_same .advance fun _ _ _ => ?_
  refine .expression hn fun condition condition' _ _ hcondition => ?_
  exact .pure (by simp only [Expr.outline, hbase, hcondition])

/-- A step is read alike with its predicates, and put back into order alike. -/
theorem step (hn : Followed σ k nested nested') {startsPattern : Bool} :
    ShadowsExpr k (step σ nested startsPattern) (step σ nested' startsPattern) s s' := by
  unfold Parse.step
  refine .nesting ?_
  refine .bind (.primary hn) fun base base' t t' hbase => ?_
  have hfiltered : ShadowsExpr k
      (Parse.repeatWhile (· = .leftBracket) (Parse.predicate σ nested) base)
      (Parse.repeatWhile (· = .leftBracket) (Parse.predicate σ nested') base') t t' :=
    .repeatWhile (by rfl) rfl (fun _ _ _ _ _ he => .predicate hn he)
      (advances_predicate hn.within) (advances_predicate hn.within') hbase
  refine .bind hfiltered fun e e' u u' he => ?_
  rw [isReverseStep_alike hbase]
  split
  · exact .pure (by simp only [Expr.outline, he])
  · exact .pure he

/-! ### Paths -/

theorem furtherStep (hn : Followed σ k nested nested') {before before' : Expr}
    (hs : s.cursor.token.isInner = true) (hbefore : before'.outline id = before.outline id) :
    ShadowsExpr k (furtherStep σ nested before) (furtherStep σ nested' before') s s' := by
  unfold Parse.furtherStep
  refine .inner_token hs ?_
  refine .offset fun n n' => ?_
  refine .bind_same .descend fun _ _ _ => ?_
  refine .bind_same .advance fun _ _ _ => ?_
  refine .bind (.step hn) fun next next' _ _ hnext => ?_
  exact .pure (outline_joinStep hbefore hnext)

theorem furtherStepFromRoot (hn : Followed σ k nested nested') {before before' : Expr}
    (hs : s.cursor.token.isInner = true) (hbefore : before'.outline id = before.outline id) :
    ShadowsExpr k (furtherStepFromRoot σ nested before) (furtherStepFromRoot σ nested' before')
      s s' := by
  unfold Parse.furtherStepFromRoot
  refine .inner_token hs ?_
  refine .offset fun n n' => ?_
  refine .bind_same .advance fun _ _ _ => ?_
  refine .bind_same .descend fun _ _ _ => ?_
  refine .bind (.step hn) fun next next' _ _ hnext => ?_
  exact .pure (outline_joinStep hbefore hnext)

theorem isInner_of_isSeparator {t : Token} (h : isSeparator t = true) : t.isInner = true :=
  Halts.isInner (by rfl) h

theorem relativePath (hn : Followed σ k nested nested') :
    ShadowsExpr k (relativePath σ nested) (relativePath σ nested') s s' := by
  unfold Parse.relativePath
  refine .nesting ?_
  refine .bind (.step hn) fun first first' _ _ hfirst => ?_
  exact .repeatWhile (by rfl) rfl
    (fun _ _ _ _ hgo he => .furtherStep hn (isInner_of_isSeparator hgo) he)
    (advances_furtherStep hn.within) (advances_furtherStep hn.within') hfirst

theorem pathFrom (hn : Followed σ k nested nested') {n n' : Nat} {origin origin' : Expr}
    (horigin : origin'.outline id = origin.outline id) :
    ShadowsExpr k (pathFrom σ nested n origin) (pathFrom σ nested' n' origin') s s' := by
  unfold Parse.pathFrom
  refine .nesting ?_
  refine .bind_same .descend fun _ _ _ => ?_
  refine .bind (.step hn) fun first first' _ _ hfirst => ?_
  have hpath : (Expr.path n' origin' first').outline id =
      (Expr.path n origin first).outline id := by
    simp only [Expr.outline, horigin, hfirst]
  exact .repeatWhile (by rfl) rfl
    (fun _ _ _ _ hgo he => .furtherStepFromRoot hn (isInner_of_isSeparator hgo) he)
    (advances_furtherStepFromRoot hn.within) (advances_furtherStepFromRoot hn.within') hpath

theorem rootedPath (hn : Followed σ k nested nested') :
    ShadowsExpr k (rootedPath σ nested) (rootedPath σ nested') s s' := by
  unfold Parse.rootedPath
  refine .offset fun n n' => ?_
  refine .bind_same .advance fun _ t t' => ?_
  refine .token ?_ (.pure rfl) (.pure rfl)
  split
  · exact .reject
  · split
    · exact .pathFrom hn rfl
    · exact .pure rfl

theorem descendantPath (hn : Followed σ k nested nested') :
    ShadowsExpr k (descendantPath σ nested) (descendantPath σ nested') s s' := by
  unfold Parse.descendantPath
  refine .offset fun n n' => ?_
  exact .bind_same .advance fun _ _ _ => .pathFrom hn rfl

/-- A path is read alike, from the root or from a step on. -/
theorem pathExpression (hn : Followed σ k nested nested') :
    ShadowsExpr k (pathExpression σ nested) (pathExpression σ nested') s s' := by
  unfold Parse.pathExpression
  refine .token ?_ (.relativePath hn) (.relativePath hn)
  split
  · exact .rootedPath hn
  · exact .descendantPath hn
  · exact .relativePath hn

/-! ### Signs -/

theorem sign {signs signs' : List (Sign × Nat)} (hs : s.cursor.token.isInner = true)
    (hsigns : signs'.map Prod.fst = signs.map Prod.fst) :
    Shadows k (List.map Prod.fst) (sign σ signs) (sign σ signs') s s' := by
  unfold Parse.sign
  refine .inner_token hs ?_
  split
  · exact .pure hsigns
  · refine .bind_same .descend fun _ _ _ => ?_
    refine .offset fun _ _ => ?_
    refine .bind_same .advance fun _ _ _ => ?_
    exact .pure (by simp [hsigns])

end Shadows

theorem outline_applySigns {signs signs' : List (Sign × Nat)} {operand operand' : Expr}
    (hsigns : signs'.map Prod.fst = signs.map Prod.fst)
    (h : operand'.outline id = operand.outline id) :
    (applySigns operand' signs').outline id = (applySigns operand signs).outline id := by
  induction signs generalizing signs' operand operand' with
  | nil =>
      rw [List.map_eq_nil_iff.mp hsigns]
      exact h
  | cons sign signs ih =>
      obtain ⟨sign', signs', rfl⟩ := List.exists_cons_of_length_pos (l := signs')
        (by rw [← List.length_map, hsigns]; simp)
      obtain ⟨hsign, hsigns⟩ := List.cons.inj hsigns
      simp only [applySigns, List.foldl_cons]
      exact ih hsigns (by simp only [Expr.outline, h, hsign])

theorem advances_sign : Advances (fun t => (sign? t).isSome) (sign σ) :=
  fun _ _ _ _ hgo h => (MirrorsOn.sign (d := 0) hgo).2 _ _ h

/-- The signs are the same but for their places, and the operand is read alike. -/
theorem Shadows.signedPath (hn : Followed σ k nested nested') :
    ShadowsExpr k (signedPath σ nested) (signedPath σ nested') s s' := by
  unfold Parse.signedPath
  have hsigns : ∀ t t', Shadows k (List.map Prod.fst)
      (Parse.repeatWhile (fun t => (sign? t).isSome) (Parse.sign σ) [])
      (Parse.repeatWhile (fun t => (sign? t).isSome) (Parse.sign σ) []) t t' := fun t t' =>
    .repeatWhile (by rfl) rfl
      (fun _ _ _ _ hgo hsigns => .sign (Halts.isInner (by rfl) hgo) hsigns) advances_sign
      advances_sign rfl
  refine .nesting ?_
  refine .bind (hsigns _ _) fun signs signs' _ _ hsigns => ?_
  refine .bind (.pathExpression hn) fun operand operand' _ _ he => ?_
  exact .pure (outline_applySigns hsigns he)

/-! ### Type operators -/

namespace Shadows

theorem cast {n n' : Nat} {castable : Bool} {operand operand' : Expr} {type : SingleType}
    (h : operand'.outline id = operand.outline id) :
    ShadowsExpr k (cast σ n castable operand type) (cast σ n' castable operand' type) s s' := by
  unfold Parse.cast
  rw [stringLiteral?_alike h]
  split
  · split
    · exact .pure rfl
    · exact .pure rfl
    · exact .reject
  · exact .pure (by simp only [Expr.outline, h])

theorem endTypeOperation {precedence : Nat} :
    ShadowsSame k (endTypeOperation σ precedence) (endTypeOperation σ precedence) s s' := by
  unfold Parse.endTypeOperation
  refine .token ?_ (.pure rfl) (.pure rfl)
  split
  · exact .reject
  · exact .pure rfl

/-- A type operator is read alike, and applied to alike operands. -/
theorem typeOperation {op : TypeOperator} {n n' : Nat} {operand operand' : Expr}
    (h : operand'.outline id = operand.outline id) :
    ShadowsExpr k (typeOperation σ op n operand) (typeOperation σ op n' operand') s s' := by
  unfold Parse.typeOperation
  refine .bind_same .advance fun _ t t' => ?_
  cases op with
  | instanceOf =>
      exact .bind_same .sequenceType fun _ _ _ => .pure (by simp only [Expr.outline, h])
  | treatAs =>
      exact .bind_same .sequenceType fun _ _ _ => .pure (by simp only [Expr.outline, h])
  | castableAs => exact .bind_same .singleType fun _ _ _ => .cast h
  | castAs => exact .bind_same .singleType fun _ _ _ => .cast h

end Shadows

/-! ### Operators -/

theorem isInner_of_bindsFrom {least : Nat} {t : Token} (h : bindsFrom least t = true) :
    t.isInner = true :=
  Halts.isInner (by rfl) h

theorem advances_tighter (hw : Within σ nested nested) {tiers least : Nat}
    (htiers : 16 ≤ tiers + least) :
    Advances (bindsFrom least) (fun right => do
      match (← token).precedence? with
      | some least => operations σ nested tiers least right
      | none => return right) := by
  intro right s e t hgo h
  obtain ⟨precedence, hprecedence, hleast⟩ := bindsFrom_iff.mp hgo
  simp only [token_bind, hprecedence] at h
  exact ((MirrorsOn.operations (d := 0) hw tiers (by omega)).2
    (bindsFrom_iff.mpr ⟨precedence, hprecedence, Nat.le_refl _⟩)).2 e t h

theorem advances_operation (hw : Within σ nested nested) {tiers least : Nat}
    (htiers : 16 ≤ tiers + 1 + least) :
    Advances (bindsFrom least) (operation σ nested (operations σ nested tiers)) := by
  intro left s e t hgo h
  have hround : MirrorsOn σ Place.expr (operation σ nested (operations σ nested tiers) left)
      (fun k => operation σ nested (operations σ nested tiers) (k.expr left)) s 0 :=
    .operation hw (fun hlt hgo' => (MirrorsOn.operations hw tiers (by omega)).2 hgo') hgo
  exact hround.2 e t h

/-- Only operators that bind tighter are read behind a right operand, alike for both. -/
theorem Shadows.rightOperand (hn : Followed σ k nested nested') {tiers least : Nat}
    {operand operand' : Expr} (htiers : 16 ≤ tiers + least)
    (htighter : ∀ {least right right' s s'}, 16 ≤ tiers + least →
      right'.outline id = right.outline id →
      ShadowsExpr k (operations σ nested tiers least right)
        (operations σ nested' tiers least right') s s')
    (h : operand'.outline id = operand.outline id) :
    ShadowsExpr k (rightOperand (operations σ nested tiers) least operand)
      (rightOperand (operations σ nested' tiers) least operand') s s' := by
  refine .repeatWhile (by rfl) rfl (fun right right' t t' hgo hright => ?_)
    (advances_tighter hn.within htiers) (advances_tighter hn.within' htiers) h
  obtain ⟨precedence, hprecedence, hleast⟩ := bindsFrom_iff.mp hgo
  refine .inner_token (isInner_of_bindsFrom hgo) ?_
  rw [hprecedence]
  exact htighter (by omega) hright

/-- One operator is read alike with its right operand, and reads on. -/
theorem Shadows.operation (hn : Followed σ k nested nested') {tiers least : Nat}
    {left left' : Expr} (hgo : bindsFrom least s.cursor.token = true)
    (htiers : 16 ≤ tiers + 1 + least)
    (htighter : ∀ {least right right' s s'}, 16 ≤ tiers + least →
      right'.outline id = right.outline id →
      ShadowsExpr k (operations σ nested tiers least right)
        (operations σ nested' tiers least right') s s')
    (h : left'.outline id = left.outline id) :
    ShadowsExpr k (operation σ nested (operations σ nested tiers) left)
      (operation σ nested' (operations σ nested' tiers) left') s s' := by
  obtain ⟨precedence, hprecedence, hleast⟩ := bindsFrom_iff.mp hgo
  unfold Parse.operation
  refine .offset fun n n' => ?_
  refine .inner_token (isInner_of_bindsFrom hgo) ?_
  split
  · next op htoken =>
      rw [htoken] at hprecedence
      cases hprecedence
      refine .bind_same .descend fun _ _ _ => ?_
      refine .bind_same .advance fun _ _ _ => ?_
      refine .bind (.signedPath hn) fun operand operand' _ _ hoperand => ?_
      refine .bind (.rightOperand hn (by omega) htighter hoperand) fun right right' _ _ hright => ?_
      exact .pure (by simp only [Expr.outline, h, hright])
  · refine .bind_same .descend fun _ _ _ => ?_
    refine .bind (.typeOperation h) fun typed typed' _ _ htyped => ?_
    exact .bind_same .endTypeOperation fun _ _ _ => .pure htyped
  · exact .pure h

/-- The operators from a least precedence on. There are as many tiers left as precedences. -/
theorem Shadows.operations (hn : Followed σ k nested nested') (tiers : Nat) :
    ∀ {least : Nat} {left left' : Expr} {s s' : ParseState}, 16 ≤ tiers + least →
      left'.outline id = left.outline id →
      ShadowsExpr k (operations σ nested tiers least left) (operations σ nested' tiers least left')
        s s' := by
  induction tiers with
  | zero => exact fun _ h => .pure h
  | succ tiers ih =>
      intro least left left' s s' htiers h
      exact .nesting (.repeatWhile (by rfl) rfl
        (fun _ _ _ _ hgo hleft => .operation hn hgo htiers ih hleft)
        (advances_operation hn.within htiers) (advances_operation hn.within' htiers) h)

theorem Shadows.operatorExpression (hn : Followed σ k nested nested') :
    ShadowsExpr k (operatorExpression σ nested) (operatorExpression σ nested') s s' := by
  unfold Parse.operatorExpression
  exact .bind (.signedPath hn) fun _ _ _ _ h => Shadows.operations hn _ (by decide) h

/-! ### Bindings and conditionals -/

/-- The clause without offsets and types. -/
def Clause.outline (c : Clause) : Clause :=
  ⟨c.bound.outline id, c.domain.outline id⟩

/-- Where the clauses came from and what is known of earlier ones leaves no trace in the tree but
offsets and types. -/
theorem outline_nestClauses {n n' : Nat} {kind : BindingKind} {known known' : List RangeVariable}
    {cs cs' : List Clause} {action action' : Expr}
    (hcs : cs'.map Clause.outline = cs.map Clause.outline)
    (h : action'.outline id = action.outline id) :
    (nestClauses n' kind known' cs' action').outline id =
      (nestClauses n kind known cs action).outline id := by
  induction cs generalizing cs' known known' with
  | nil =>
      rw [List.map_eq_nil_iff.mp hcs, nestClauses, nestClauses, Expr.outline_withTypes,
        Expr.outline_withTypes, h]
  | cons c cs ih =>
      obtain ⟨c', cs', rfl⟩ := List.exists_cons_of_length_pos (l := cs')
        (by rw [← List.length_map, hcs]; simp)
      obtain ⟨hc, hcs⟩ := List.cons.inj hcs
      obtain ⟨hbound, hdomain⟩ := Clause.mk.inj hc
      have hrest : ∀ known known', (nestClauses n' kind known' cs' action').outline id =
          (nestClauses n kind known cs action).outline id := fun _ _ => ih hcs
      simp only [nestClauses, Expr.outline, Expr.outline_withTypes, hdomain]
      rw [hrest]
      exact congrArg (fun v => Expr.binding 0 kind v _ _) hbound

namespace Shadows

theorem clause (hn : Followed σ k nested nested') :
    Shadows k Clause.outline (clause σ nested) (clause σ nested') s s' := by
  unfold Parse.clause
  refine .bind_same .skip fun _ t t' => ?_
  refine .expect rfl fun hname => ?_
  have hinner : t.cursor.token.isInner = true := by
    rw [hname]
    rfl
  refine .value hinner ?_
  refine .stateless (.expandName _ _) fun name => ?_
  refine .bind_same .advance fun _ _ _ => ?_
  refine .bind_same .skip fun _ _ _ => ?_
  refine .bind (hn.shadows _ _) fun domain domain' _ _ hdomain => ?_
  refine .bind_same .declare fun v _ _ => ?_
  exact .pure (by simp only [Clause.outline, hdomain])

/-- A binding is read alike: what stands between its clauses is no end of the track. -/
theorem bindingExpression {kind : BindingKind} (hn : Followed σ k nested nested') :
    ShadowsExpr k (bindingExpression σ nested kind) (bindingExpression σ nested' kind) s s' := by
  have hparts : ∀ t t', Shadows k
      (fun p : List Clause × Expr => (p.1.map Clause.outline, p.2.outline id))
      (Parse.binding do
        Parse.advance σ
        let clauses ← Parse.commaSeparated σ (Parse.clause σ nested)
        Parse.skip σ (actionToken kind)
        return (clauses, ← nested))
      (Parse.binding do
        Parse.advance σ
        let clauses ← Parse.commaSeparated σ (Parse.clause σ nested')
        Parse.skip σ (actionToken kind)
        return (clauses, ← nested')) t t' := by
    intro t t'
    refine .binding ?_
    refine .bind_same .advance fun _ _ _ => ?_
    refine .commaSeparated (fun _ _ => .clause hn)
      (fun h => (Mirrors.clause (d := 0) hn.within' _ _ h).1) fun cs cs' _ _ hcs => ?_
    refine .bind (hn.shadows _ _) fun action action' _ _ haction => ?_
    exact .pure (by simp only [hcs, haction])
  unfold Parse.bindingExpression
  refine .offset fun n n' => ?_
  refine .bind (hparts _ _) fun parts parts' _ _ heq => ?_
  obtain ⟨hcs, haction⟩ := Prod.mk.inj heq
  exact .pure (outline_nestClauses hcs haction)

theorem conditional (hn : Followed σ k nested nested') :
    ShadowsExpr k (conditional σ nested) (conditional σ nested') s s' := by
  unfold Parse.conditional
  refine .offset fun n n' => ?_
  refine .bind_same .advance fun _ _ _ => ?_
  refine .expression hn fun condition condition' _ _ hcondition => ?_
  refine .bind_same .skip fun _ _ _ => ?_
  refine .bind (hn.shadows _ _) fun yes yes' _ _ hyes => ?_
  refine .bind_same .skip fun _ _ _ => ?_
  refine .bind (hn.shadows _ _) fun no no' _ _ hno => ?_
  exact .pure (by simp only [Expr.outline, hcondition, hyes, hno])

/-! ### All expressions -/

/-- A single expression is read alike when the expressions within it are. -/
theorem singleWith (hn : Followed σ k nested nested') :
    ShadowsExpr k (singleWith σ nested) (singleWith σ nested') s s' := by
  unfold Parse.singleWith
  refine .nesting ?_
  refine .bind_same .descend fun _ t t' => ?_
  refine .token ?_ (.operatorExpression hn) (.operatorExpression hn)
  split
  · exact .bindingExpression hn
  · exact .bindingExpression hn
  · exact .bindingExpression hn
  · exact .conditional hn
  · exact .operatorExpression hn

end Shadows

/-- An expression is read along a track by a reader that has as many levels left or more. -/
theorem singleWithin_followed {n n' : Nat} (h : n ≤ n') :
    Followed σ k (singleWithin σ n) (singleWithin σ n') := by
  induction n generalizing n' with
  | zero => exact ⟨fun _ _ => .reject, singleWithin_mirrors 0 0, singleWithin_mirrors n' n'⟩
  | succ n ih =>
      cases n' with
      | zero => exact absurd h (Nat.not_succ_le_zero n)
      | succ n' =>
          exact ⟨fun _ _ => .singleWith (ih (Nat.le_of_succ_le_succ h)), singleWithin_mirrors _ _,
            singleWithin_mirrors _ _⟩

end XPath.Parse
