import XPath.Proofs.Lockstep
import XPath.Proofs.Stages

/-!
# The productions within parentheses

Every production reads within parentheses what it reads by itself (`singleWithin_mirrors`). Where
one reader is at the end of its source and the other one at the closing parenthesis, both stop,
or the first one fails: no production takes the parenthesis for one of its own.
-/

namespace XPath.Parse

variable {α β : Type} {σ : Setting} {s t : ParseState} {d : Nat}

/-! ### Kind tests -/

theorem namedTest_ne_ok {kind : NodeKind} {bySchema : Bool} {test : NodeTest}
    (hs : s.cursor.token = .eof) : namedTest σ kind bySchema s ≠ .ok test t := by
  intro h
  unfold namedTest at h
  rw [value_bind] at h
  obtain ⟨name?, u, hu, -⟩ := bind_ok.mp h
  unfold testName at hu
  rw [token_bind, hs] at hu
  exact reject_ne_ok hu

theorem instructionTarget_ne_ok {target : String} (hs : s.cursor.token = .eof) :
    instructionTarget σ s ≠ .ok target t := by
  intro h
  unfold instructionTarget at h
  rw [value_bind, token_bind, hs] at h
  exact reject_ne_ok h

/-- The same is read at every place. -/
abbrev MirrorsSame (σ : Setting) (p : Parse α) (s : ParseState) (d : Nat) : Prop :=
  Mirrors σ (fun _ a => a) p (fun _ => p) s d

namespace Mirrors

variable {f : Place → α → α}

/-- The type in a test is mirrored, and so is the warning about it. -/
theorem contentTest {kind : NodeKind} : MirrorsSame σ (contentTest σ kind) s d := by
  unfold Parse.contentTest
  refine .token (fun hs => ?_) fun _ => .reject
  split
  · exact .reject
  · exact .reject
  · refine .value (.stateless (.expandName _ _) fun name => ?_)
    split
    · exact .reject
    · next type _ =>
        have rest : ∀ u d', u.cursor.token ≠ .eof → MirrorsSame σ (do
            Parse.advance σ
            let nillable := kind = .element && (← Parse.token) = .questionMark
            if nillable then Parse.advance σ
            return NodeTest.content kind type nillable) u d' := by
          intro u d' hu
          refine .bind (.advance hu) fun _ v d' _ => .token (fun hv => ?_) fun _ => ?_
          · dsimp only
            split
            · exact .bind (.advance hv) fun _ _ _ _ => .pure fun _ => rfl
            · exact .pure fun _ => rfl
          · simp only [reduceCtorEq, decide_false, Bool.and_false]
            exact .pure fun _ => rfl
        dsimp only
        split
        · refine .bind .warn fun _ u d' hu => rest u d' ?_
          cases hu
          exact hs
        · exact rest s d hs
  · exact .reject

/-- The name of a test is looked at before it is read. -/
theorem testName {kind : NodeKind} {bySchema : Bool} {q : Option ExpandedName → Parse α}
    {q' : Place → Option ExpandedName → Parse α}
    (hq : s.cursor.token ≠ .eof → ∀ name?, Mirrors σ f (q name?) (fun k => q' k name?) s d) :
    Mirrors σ f (testName σ kind bySchema >>= q) (fun k => Parse.testName σ kind bySchema >>= q' k)
      s d := by
  have star (hs : s.cursor.token ≠ .eof) :
      Mirrors σ f ((if bySchema then Parse.reject σ .schemaTestStar else Pure.pure none) >>= q)
        (fun k => (if bySchema then Parse.reject σ .schemaTestStar else Pure.pure none) >>= q' k)
        s d := by
    split
    · exact .reject_bind
    · exact hq hs none
  unfold Parse.testName
  simp only [bind_assoc]
  refine .token (fun hs => ?_) fun _ => .reject_bind
  split
  · exact star hs
  · exact star hs
  · simp only [bind_assoc, pure_bind]
    exact .value (.stateless (.expandName _ _) fun name => hq hs (some name))
  · exact .reject_bind

theorem namedTest {kind : NodeKind} {bySchema : Bool} :
    MirrorsSame σ (namedTest σ kind bySchema) s d := by
  unfold Parse.namedTest
  refine .value (.testName fun hs name? => ?_)
  refine .bind (.advance hs) fun _ u d' _ => ?_
  refine .token (fun hu => ?_) fun _ => .reject
  split
  · refine .bind (.advance hu) fun _ _ _ _ => ?_
    split
    · exact .pure fun _ => rfl
    · split
      · exact .pure fun _ => rfl
      · split
        · exact .reject
        · exact .reject
  · dsimp only
    split
    · exact .reject_bind
    · refine .bind (.advance hu) fun _ _ _ _ => ?_
      refine .bind .contentTest fun content _ _ _ => ?_
      refine .bind (.skip (by simp)) fun _ _ _ _ => ?_
      split
      · exact .pure fun _ => rfl
      · exact .pure fun _ => rfl
  · exact .reject

theorem elementTest {kind : NodeKind} {bySchema : Bool} (hs : s.cursor.token ≠ .eof) :
    MirrorsSame σ (elementTest σ kind bySchema) s d := by
  unfold Parse.elementTest
  refine .bind (.advance hs) fun _ t d' _ => .token (fun ht => ?_) fun ht => ?_
  · split
    · dsimp only
      split
      · exact .reject_bind
      · exact .bind (.advance ht) fun _ _ _ _ => .pure fun _ => rfl
    · exact .namedTest
  · exact .fails fun _ _ => namedTest_ne_ok ht

/-- A keyword and a closing parenthesis, or an argument. At the end of a source there is no
argument, and what follows has to fail there. -/
theorem emptyArguments {f : Place → α → α} {q : Bool → Parse α} {q' : Place → Bool → Parse α}
    (hs : s.cursor.token ≠ .eof)
    (hyes : ∀ t d', Mirrors σ f (q true) (fun k => q' k true) t d')
    (hno : ∀ t d', t.cursor.token ≠ .eof → Mirrors σ f (q false) (fun k => q' k false) t d')
    (hend : ∀ a t u, t.cursor.token = .eof → q false t ≠ .ok a u) :
    Mirrors σ f (emptyArguments σ >>= q) (fun k => Parse.emptyArguments σ >>= q' k) s d := by
  unfold Parse.emptyArguments
  simp only [bind_assoc]
  refine .bind (.advance hs) fun _ t d' _ => .token (fun ht => ?_) fun ht => ?_
  · split
    · simp only [bind_assoc, pure_bind]
      exact .bind (.advance ht) fun _ u d' _ => hyes u d'
    · simp only [pure_bind]
      exact hno t d' ht
  · refine .fails fun a u h => hend a t u ht ?_
    simpa using h

theorem plainTest {word : String} {test : NodeTest} (hs : s.cursor.token ≠ .eof) :
    MirrorsSame σ (plainTest σ word test) s d := by
  unfold Parse.plainTest
  exact .emptyArguments hs (fun _ _ => .pure fun _ => rfl) (fun _ _ _ => .reject)
    fun _ _ _ _ => reject_ne_ok

theorem namespaceTest (hs : s.cursor.token ≠ .eof) : MirrorsSame σ (namespaceTest σ) s d := by
  unfold Parse.namespaceTest
  refine .emptyArguments hs (fun _ _ => ?_) (fun _ _ _ => .reject) fun _ _ _ _ => reject_ne_ok
  simp only [if_true]
  split
  · exact .pure fun _ => rfl
  · exact .reject

theorem documentTest (hs : s.cursor.token ≠ .eof) : MirrorsSame σ (documentTest σ) s d := by
  unfold Parse.documentTest
  refine .emptyArguments hs (fun _ _ => .pure fun _ => rfl) (fun t d' ht => ?_)
    fun test t u ht h => ?_
  · refine .value (.token (fun _ => ?_) fun heof => absurd heof ht)
    split
    · refine .bind (.elementTest ht) fun test _ _ _ => ?_
      refine .bind (.skip (by simp)) fun _ _ _ _ => ?_
      exact .pure fun _ => rfl
    · exact .reject
  · simp only [Bool.false_eq_true, if_false, value_bind, token_bind, ht, reduceCtorEq,
      false_and] at h
    exact reject_ne_ok h

/-- The target of a test is looked at before it is read. -/
theorem instructionTarget {q : String → Parse α} {q' : Place → String → Parse α}
    (hq : s.cursor.token ≠ .eof → ∀ target, Mirrors σ f (q target) (fun k => q' k target) s d) :
    Mirrors σ f (instructionTarget σ >>= q) (fun k => Parse.instructionTarget σ >>= q' k) s d := by
  unfold Parse.instructionTarget
  simp only [bind_assoc]
  refine .value (.token (fun hs => ?_) fun _ => .reject_bind)
  split
  · split
    · exact hq hs _
    · exact .reject_bind
  · split
    · exact .reject_bind
    · split
      · exact hq hs _
      · exact .reject_bind
  · exact .reject_bind

theorem instructionTest (hs : s.cursor.token ≠ .eof) : MirrorsSame σ (instructionTest σ) s d := by
  unfold Parse.instructionTest
  refine .emptyArguments hs (fun _ _ => .pure fun _ => rfl) (fun t d' ht => ?_)
    fun test t u ht h => ?_
  · refine .instructionTarget fun _ target => ?_
    refine .bind (.advance ht) fun _ _ _ _ => ?_
    refine .bind (.skip (by simp)) fun _ _ _ _ => ?_
    exact .pure fun _ => rfl
  · simp only [Bool.false_eq_true, if_false] at h
    obtain ⟨target, v, hv, -⟩ := bind_ok.mp h
    exact instructionTarget_ne_ok ht hv

/-- A test that starts with a keyword is mirrored, and reads at least that. -/
theorem kindTest (hs : s.cursor.token ≠ .eof) : MirrorsSame σ (kindTest σ) s d := by
  unfold Parse.kindTest
  refine .value ?_
  split
  · exact .plainTest hs
  · exact .plainTest hs
  · exact .plainTest hs
  · exact .namespaceTest hs
  · exact .documentTest hs
  · exact .instructionTest hs
  · exact .elementTest hs
  · exact .elementTest hs
  · exact .elementTest hs
  · exact .elementTest hs
  · refine .fails fun a t h => ?_
    obtain ⟨_, _, -, hfail⟩ := bind_ok.mp h
    exact reject_ne_ok hfail
  · exact .reject

/-! ### Sequence types -/

theorem plainType {type : ItemType} (hs : s.cursor.token ≠ .eof) :
    MirrorsSame σ (plainType σ type) s d := by
  refine .bind (.advance hs) fun _ _ _ _ => ?_
  refine .bind (.skip (by simp)) fun _ _ _ _ => ?_
  exact .pure fun _ => rfl

theorem itemType : MirrorsSame σ (itemType σ) s d := by
  unfold Parse.itemType
  refine .token (fun hs => ?_) fun _ => .reject
  split
  · refine .value (.stateless (.atomicType _) fun type => ?_)
    exact .bind (.advance hs) fun _ _ _ _ => .pure fun _ => rfl
  · refine .value ?_
    split
    · exact .plainType hs
    · exact .plainType hs
    · exact .bind (.kindTest hs) fun _ _ _ _ => .pure fun _ => rfl
  · exact .reject

/-- Types are mirrored as they are, since they have no place in them. -/
theorem sequenceType : MirrorsSame σ (sequenceType σ) s d := by
  unfold Parse.sequenceType
  refine .bind .itemType fun item t d' _ => ?_
  split
  · exact .pure fun _ => rfl
  · refine .token (fun ht => ?_) fun _ => .pure fun _ => rfl
    split
    · exact .pure fun _ => rfl
    · exact .bind (.skipMark ht) fun _ _ _ _ => .pure fun _ => rfl

theorem singleType : MirrorsSame σ (singleType σ) s d := by
  unfold Parse.singleType
  refine .expect (by simp) fun hname => .value (.stateless (.atomicType _) fun type => ?_)
  have hs : s.cursor.token ≠ .eof := by
    rw [hname]
    simp
  dsimp only
  split
  · exact .reject_bind
  · refine .bind (.advance hs) fun _ u d' _ => .token (fun hu => ?_) fun _ => ?_
    · split
      · exact .bind (.skipMark hu) fun _ _ _ _ => .pure fun _ => rfl
      · exact .pure fun _ => rfl
    · simp only [reduceCtorEq, decide_false, if_false]
      exact .pure fun _ => rfl

/-! ### Node tests and axis steps -/

/-- The test of a step is mirrored as it is. -/
theorem nodeTest {kind : NodeKind} : MirrorsSame σ (nodeTest σ kind) s d := by
  unfold Parse.nodeTest
  refine .token (fun hs => ?_) fun _ => .reject
  split
  · refine .value (.stateless (.expandName _ _) fun name => ?_)
    exact .bind (.advance hs) fun _ _ _ _ => .pure fun _ => rfl
  · refine .value (.stateless (.declaredNamespace _) fun uri => ?_)
    exact .bind (.advance hs) fun _ _ _ _ => .pure fun _ => rfl
  · refine .bind (.advance hs) fun _ t d' _ => ?_
    refine .value (.expect (by simp) fun hname => ?_)
    have ht : t.cursor.token ≠ .eof := by
      rw [hname]
      simp
    dsimp only
    split
    · exact .reject_bind
    · exact .bind (.advance ht) fun _ _ _ _ => .pure fun _ => rfl
  · exact .bind (.advance hs) fun _ _ _ _ => .pure fun _ => rfl
  · exact .kindTest hs
  · exact .reject

end Mirrors

/-! ### Expressions within others -/

/-- Expressions within another one are read alike at every place, and start with a token that
starts an expression. -/
structure Within (σ : Setting) (nested nested' : Parse Expr) : Prop where
  mirrors : ∀ {s d}, Mirrors σ Place.expr nested (fun _ => nested') s d
  ne_ok : ∀ {s e t}, s.cursor.token = .eof ∨ s.cursor.token = .rightParen → nested s ≠ .ok e t

variable {nested nested' : Parse Expr}

theorem commaSeparated_ne_ok {es : List Expr} (hn : Within σ nested nested')
    (hs : s.cursor.token = .eof ∨ s.cursor.token = .rightParen) :
    commaSeparated σ nested s ≠ .ok es t := by
  intro h
  obtain ⟨e, u, hu, -⟩ := bind_ok.mp h
  exact hn.ne_ok hs hu

/-- No expression is read where the source ends or a parenthesis closes. -/
theorem expression_ne_ok {e : Expr} (hn : Within σ nested nested')
    (hs : s.cursor.token = .eof ∨ s.cursor.token = .rightParen) :
    expression σ nested s ≠ .ok e t := by
  intro h
  obtain ⟨items, hitems, -⟩ := expression_ok h
  exact commaSeparated_ne_ok hn hs hitems

namespace Mirrors

/-- Expressions with commas between them are mirrored one by one. -/
theorem expression (hn : Within σ nested nested') :
    Mirrors σ Place.expr (expression σ nested) (fun _ => Parse.expression σ nested') s d := by
  unfold Parse.expression
  refine .offset (.bind (.commaSeparated fun _ _ => hn.mirrors) fun items t d' _ => ?_)
  rcases items with _ | ⟨e, _ | ⟨e', es⟩⟩
  · exact .pure fun _ => rfl
  · exact .pure fun _ => rfl
  · refine .pure fun k => ?_
    simp [Expr.shift, Expr.shiftAll_eq_map]

/-! ### Literals and variables -/

theorem leaf {make : Nat → Expr} (hs : s.cursor.token ≠ .eof)
    (hmake : ∀ (k : Place) n, make (n + k.start) = k.expr (make n)) :
    Mirrors σ Place.expr (leaf σ make) (fun _ => Parse.leaf σ make) s d :=
  .offset (.bind (.advance hs) fun _ _ _ _ => .pure fun k => hmake k _)

theorem stringLiteral (hs : s.cursor.token ≠ .eof) :
    Mirrors σ Place.expr (stringLiteral σ) (fun _ => Parse.stringLiteral σ) s d :=
  .value (.leaf hs fun _ _ => rfl)

theorem numericLiteral (hs : s.cursor.token ≠ .eof) :
    Mirrors σ Place.expr (numericLiteral σ) (fun _ => Parse.numericLiteral σ) s d := by
  unfold Parse.numericLiteral
  refine .value ?_
  split
  · exact .reject
  · exact .leaf hs fun _ _ => rfl

/-- A variable is found in scope by its name, which is not shifted. -/
theorem find?_shift (ids : Nat) (scope : List RangeVariable) (name : ExpandedName) :
    (scope.map (RangeVariable.shift ids)).find? (·.name = name) =
      (scope.find? (·.name = name)).map (RangeVariable.shift ids) :=
  List.find?_map

/-- A reference is mirrored with the id that the variable has in the larger source. -/
theorem variableReference (hs : s.cursor.token ≠ .eof) :
    Mirrors σ Place.expr (variableReference σ) (fun _ => Parse.variableReference σ) s d := by
  unfold Parse.variableReference
  refine .offset (.bind (.advance hs) fun _ t d' _ => ?_)
  refine .expect (by simp) fun hname => ?_
  refine .value ?_
  have ht : t.cursor.token ≠ .eof := by
    rw [hname]
    simp
  refine .bind (.advance ht) fun _ u d' _ => ?_
  refine .stateless (.expandName _ _) fun name => ?_
  cases hfind : u.scope.find? (·.name = name) with
  | some v =>
      have hpure : Mirrors σ Place.expr (Pure.pure (.varRef s.cursor.offset (.range v)))
          (fun k => Pure.pure (.varRef (s.cursor.offset + k.start) (.range (v.shift k.ids))))
          u d' :=
        .pure fun _ => rfl
      refine hpure.congr ?_ fun k s' hs' => ?_
      · rw [get_bind, hfind]
      · rw [get_bind, hs'.scope, find?_shift, hfind]
        rfl
  | none =>
      -- a variable of the host is the same for both
      cases htype : σ.host.variableType name with
      | ok type =>
          have hpure : Mirrors σ Place.expr
              (Pure.pure (.varRef s.cursor.offset (.declared name type)))
              (fun k => Pure.pure (.varRef (s.cursor.offset + k.start) (.declared name type)))
              u d' :=
            .pure fun _ => rfl
          refine hpure.congr ?_ fun k s' hs' => ?_
          · rw [get_bind, hfind]
          · rw [get_bind, hs'.scope, find?_shift, hfind]
            rfl
      | error e =>
          have hfails : Mirrors σ Place.expr
              (if e.standardCode = .XPST0008 then
                Parse.reject σ (.undeclaredVariable t.cursor.value) else fail σ e)
              (fun _ => if e.standardCode = .XPST0008 then
                Parse.reject σ (.undeclaredVariable t.cursor.value) else fail σ e) u d' := by
            split
            · exact .reject
            · exact .fails fun _ _ => fail_ne_ok
          refine hfails.congr ?_ fun k s' hs' => ?_
          · rw [get_bind, hfind]
          · rw [get_bind, hs'.scope, find?_shift, hfind]
            rfl

/-! ### Calls -/

theorem arguments (hn : Within σ nested nested') :
    Mirrors σ (fun k => List.map k.expr) (arguments σ nested)
      (fun _ => Parse.arguments σ nested') s d := by
  unfold Parse.arguments
  refine .token (fun hs => ?_) fun hs => ?_
  · split
    · exact .bind (.advance hs) fun _ _ _ _ => .pure fun _ => rfl
    · refine .bind (.commaSeparated fun _ _ => hn.mirrors) fun args _ _ _ => ?_
      refine .bind (.skip (by simp)) fun _ _ _ _ => ?_
      exact .pure fun _ => rfl
  · refine .fails fun es t h => ?_
    rw [if_neg (by simp)] at h
    obtain ⟨_, _, hes, -⟩ := bind_ok.mp h
    exact commaSeparated_ne_ok hn (.inl hs) hes

theorem unknownCall {start arity : Nat} {name : ExpandedName} :
    Mirrors σ Place.expr (unknownCall σ start name arity)
      (fun k => Parse.unknownCall σ (start + k.start) name arity) s d := by
  unfold Parse.unknownCall
  dsimp only
  split
  · exact .pure fun _ => rfl
  · exact .reject

theorem callIn {start : Nat} {function : FunctionBinding} {args : List Expr} :
    Mirrors σ Place.expr (callIn σ start function args)
      (fun k => Parse.callIn σ (start + k.start) function (args.map k.expr)) s d := by
  unfold Parse.callIn
  split
  · exact .pure fun _ => rfl
  · exact .reject
  · exact .reject
  · exact .pure fun k => by simp [Expr.shift, Expr.shiftAll_eq_map]

theorem knownCall {start : Nat} {function : FunctionBinding} {args : List Expr} :
    Mirrors σ Place.expr (knownCall σ start function args)
      (fun k => Parse.knownCall σ (start + k.start) function (args.map k.expr)) s d := by
  have hliteral : ∀ k : Place, (args.map k.expr).head?.bind Expr.stringLiteral? =
      args.head?.bind Expr.stringLiteral? := by
    intro k
    cases args with
    | nil => rfl
    | cons e es => exact Expr.stringLiteral?_shift k.start k.ids e
  unfold Parse.knownCall
  simp only [hliteral]
  split
  · split
    · exact .pure fun _ => rfl
    · exact .reject
  · exact .callIn

/-- A call is mirrored with its arguments, and has the same function. -/
theorem functionCall (hn : Within σ nested nested') (hs : s.cursor.token ≠ .eof) :
    Mirrors σ Place.expr (functionCall σ nested) (fun _ => Parse.functionCall σ nested') s d := by
  unfold Parse.functionCall
  refine .offset (.value ?_)
  refine .stateless (.functionName _) fun name => ?_
  refine .bind (.advance hs) fun _ _ _ _ => ?_
  refine .bind (.arguments hn) fun args t d' _ => ?_
  simp only [List.length_map]
  refine .stateless (.ask _) fun function? => ?_
  split
  · exact .unknownCall
  · exact .knownCall

/-! ### Parentheses -/

/-- What stands in parentheses is mirrored, and so are empty ones. -/
theorem parenthesized (hn : Within σ nested nested') (hs : s.cursor.token ≠ .eof) :
    Mirrors σ Place.expr (parenthesized σ nested) (fun _ => Parse.parenthesized σ nested')
      s d := by
  unfold Parse.parenthesized
  refine .offset (.bind (.advance hs) fun _ t d' _ => ?_)
  refine .token (fun ht => ?_) fun ht => ?_
  · split
    · exact .bind (.advance ht) fun _ _ _ _ => .pure fun _ => rfl
    · refine .bind (.expression hn) fun inner _ _ _ => ?_
      refine .bind (.skip (by simp)) fun _ _ _ _ => ?_
      exact .pure fun _ => rfl
  · refine .fails fun e u h => ?_
    rw [if_neg (by simp)] at h
    obtain ⟨_, _, he, -⟩ := bind_ok.mp h
    exact expression_ne_ok hn (.inl ht) he

/-! ### Steps -/

theorem bareStep {startsPattern : Bool} (hs : s.cursor.token ≠ .eof) :
    Mirrors σ Place.expr (bareStep σ startsPattern) (fun _ => Parse.bareStep σ startsPattern)
      s d := by
  refine .offset (.token (fun _ => ?_) fun heof => absurd heof hs)
  refine .value ?_
  exact .bind .nodeTest fun test _ _ _ => .pure fun _ => rfl

theorem axisTest {start : Nat} {axis : Axis} {kind : NodeKind} {fault : Fault} :
    Mirrors σ Place.expr (do
        if !startsTest (← Parse.token) then Parse.reject σ fault
        return .axisStep start axis (← Parse.nodeTest σ kind))
      (fun k => do
        if !startsTest (← Parse.token) then Parse.reject σ fault
        return .axisStep (start + k.start) axis (← Parse.nodeTest σ kind)) s d := by
  refine .token (fun hs => ?_) fun _ => .reject_bind
  dsimp only
  split
  · exact .reject_bind
  · exact .bind .nodeTest fun _ _ _ _ => .pure fun _ => rfl

theorem attributeStep (hs : s.cursor.token ≠ .eof) :
    Mirrors σ Place.expr (attributeStep σ) (fun _ => Parse.attributeStep σ) s d :=
  .offset (.bind (.advance hs) fun _ _ _ _ => .axisTest)

theorem axisStep (hs : s.cursor.token ≠ .eof) :
    Mirrors σ Place.expr (axisStep σ) (fun _ => Parse.axisStep σ) s d := by
  unfold Parse.axisStep
  refine .offset (.value ?_)
  split
  · exact .reject
  · refine .bind (.advance hs) fun _ t d' _ => ?_
    refine .token (fun ht => ?_) fun _ => .found fun _ _ _ => reject_bind_ne_ok
    dsimp only
    split
    · exact .found fun _ _ _ => reject_bind_ne_ok
    · exact .bind .nodeTest fun _ _ _ _ => .pure fun _ => rfl

/-- What a path starts with is mirrored, whichever token it starts with. -/
theorem primary (hn : Within σ nested nested') {startsPattern : Bool} :
    Mirrors σ Place.expr (primary σ nested startsPattern)
      (fun _ => Parse.primary σ nested' startsPattern) s d := by
  unfold Parse.primary
  refine .token (fun hs => ?_) fun _ => .found fun _ _ _ => reject_ne_ok
  split
  · exact .variableReference hs
  · exact .parenthesized hn hs
  · exact .stringLiteral hs
  · exact .numericLiteral hs
  · exact .functionCall hn hs
  · exact .leaf hs fun _ _ => rfl
  · exact .leaf hs fun _ _ => rfl
  · exact .bareStep hs
  · exact .bareStep hs
  · exact .bareStep hs
  · exact .bareStep hs
  · exact .bareStep hs
  · exact .attributeStep hs
  · exact .axisStep hs
  · exact .found fun _ _ _ => reject_ne_ok

end Mirrors

end XPath.Parse
