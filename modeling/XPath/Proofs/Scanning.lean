import XPath.Proofs.Run

/-!
# Reading without declaring

Names are resolved without reading (`Stateless`). Node tests and types are read without
declaring a variable or taking a level of nesting: the cursor moves on and all else stays.
`Scanning` says this of a part of a reader, and it holds of a part in several steps when it holds
of every step.
-/

namespace XPath.Parse

variable {α β : Type} {σ : Setting}

/-! ### Actions that need no reading -/

/-- An action that leaves the state as it is and gives the same in every state, if it gives
anything. -/
def Stateless (p : Parse α) : Prop :=
  ∀ s a t, p s = .ok a t → t = s ∧ ∀ s', p s' = .ok a s'

namespace Stateless

theorem pure (a : α) : Stateless (pure a : Parse α) := by
  intro s b t h
  obtain ⟨rfl, rfl⟩ := pure_ok.mp h
  exact ⟨rfl, fun _ => rfl⟩

theorem reject (f : Fault) : Stateless (reject σ f : Parse α) :=
  fun _ _ _ h => absurd h reject_ne_ok

theorem ask (answer : Except Error α) : Stateless (ask σ answer) := by
  cases answer with
  | ok a => exact .pure a
  | error e => exact fun _ _ _ h => absurd h fail_ne_ok

/-- Two actions in a row need no reading when neither of them does. -/
theorem bind {p : Parse α} {q : α → Parse β} (hp : Stateless p) (hq : ∀ a, Stateless (q a)) :
    Stateless (p >>= q) := by
  intro s b u h
  obtain ⟨a, t, ha, hb⟩ := bind_ok.mp h
  obtain ⟨rfl, hall⟩ := hp s a t ha
  obtain ⟨rfl, hall'⟩ := hq a t b u hb
  exact ⟨rfl, fun s' => (bind_run (hall s')).trans (hall' s')⟩

/-- What a name is expanded to depends on the host alone. -/
theorem expandName (lexical : String) (b : Bool) : Stateless (expandName σ lexical b) := by
  unfold Parse.expandName
  split
  · exact .reject _
  · split
    · exact .pure _
    · exact .bind (.ask _) fun _ => .pure _

theorem declaredNamespace (qualifier : String) : Stateless (declaredNamespace σ qualifier) := by
  unfold Parse.declaredNamespace
  split
  · exact .pure _
  · exact .reject _

theorem functionName (lexical : String) : Stateless (functionName σ lexical) := by
  unfold Parse.functionName
  split
  · exact .reject _
  · split
    · exact .pure _
    · exact .bind (.declaredNamespace _) fun _ => .pure _

/-- A name of a type is looked up among the built-in ones and those of the host. -/
theorem atomicType (lexical : String) : Stateless (atomicType σ lexical) := by
  unfold Parse.atomicType
  split
  · exact .reject _
  · dsimp only
    split
    -- what follows the namespace is the same for names without a qualifier and with one
    all_goals
      first
        | refine .bind (.pure _) fun uri => ?_
        | refine .bind (.ask _) fun uri => ?_
      split
      · exact .reject _
      · split
        · split
          · exact .pure _
          · exact .reject _
          · exact .reject _
        · split
          · exact .reject _
          · exact .reject _

end Stateless

/-! ### Actions that read on -/

/-- From one state to the other a reader has only read on. -/
structure Scans (s t : ParseState) : Prop where
  scope : t.scope = s.scope
  nextId : t.nextId = s.nextId
  depth : t.depth = s.depth
  cursor : s.cursor.Reaches t.cursor

theorem Scans.refl (s : ParseState) : Scans s s := ⟨rfl, rfl, rfl, .refl⟩

/-- To read on and then to read on is to read on. -/
theorem Scans.trans {s t u : ParseState} (hst : Scans s t) (htu : Scans t u) : Scans s u :=
  ⟨htu.scope.trans hst.scope, htu.nextId.trans hst.nextId, htu.depth.trans hst.depth,
    hst.cursor.trans htu.cursor⟩

/-- A part that only reads on when it succeeds. -/
def Scanning (p : Parse α) : Prop :=
  ∀ s a t, p s = .ok a t → Scans s t

namespace Scanning

/-! ### Steps -/

/-- Parts in a row only read on when each of them does. -/
theorem bind {p : Parse α} {f : α → Parse β} (hp : Scanning p) (hf : ∀ a, Scanning (f a)) :
    Scanning (p >>= f) := by
  intro s b t h
  obtain ⟨a, u, hu, ht⟩ := bind_ok.mp h
  exact (hp s a u hu).trans (hf a u b t ht)

theorem pure (a : α) : Scanning (pure a : Parse α) := by
  intro s b t h
  obtain ⟨-, rfl⟩ := pure_ok.mp h
  exact .refl s

theorem token : Scanning token := by
  intro s a t h
  cases h
  exact .refl s

theorem value : Scanning value := by
  intro s a t h
  cases h
  exact .refl s

theorem reject (f : Fault) : Scanning (reject σ f : Parse α) :=
  fun _ _ _ h => absurd h reject_ne_ok

/-- A token that is read moves the cursor on, and nothing else. -/
theorem advance : Scanning (advance σ) := by
  intro s a t h
  obtain ⟨c, hc, rfl⟩ := advance_ok h
  exact ⟨rfl, rfl, rfl, .advance .refl hc⟩

theorem expect (k : Token) : Scanning (expect σ k) := by
  intro s a t h
  obtain ⟨-, rfl⟩ := expect_ok h
  exact .refl s

theorem skip (k : Token) : Scanning (skip σ k) :=
  .bind (.expect k) fun _ => .advance

/-- A token that ends an operand is read past like any other. -/
theorem skipMark : Scanning (skipMark σ) := by
  refine .bind ?_ fun _ => .advance
  intro s a t h
  cases h
  exact ⟨rfl, rfl, rfl, .endOperand .refl⟩

theorem warn (message : String) : Scanning (warn message) := by
  intro s a t h
  cases h
  exact ⟨rfl, rfl, rfl, .refl⟩

/-! ### Names -/

/-- Where nothing has to be read, all stays as it is. -/
theorem stateless {p : Parse α} (hp : Stateless p) : Scanning p := by
  intro s a t h
  obtain ⟨rfl, -⟩ := hp s a t h
  exact .refl _

theorem expandName (lexical : String) (b : Bool) : Scanning (expandName σ lexical b) :=
  .stateless (.expandName lexical b)

theorem declaredNamespace (qualifier : String) : Scanning (declaredNamespace σ qualifier) :=
  .stateless (.declaredNamespace qualifier)

theorem functionName (lexical : String) : Scanning (functionName σ lexical) :=
  .stateless (.functionName lexical)

theorem atomicType (lexical : String) : Scanning (atomicType σ lexical) :=
  .stateless (.atomicType lexical)

/-! ### Kind tests -/

/-- The type in a test, with the warning that it may bring. -/
theorem contentTest (kind : NodeKind) : Scanning (contentTest σ kind) := by
  unfold Parse.contentTest
  refine .bind .token fun k => ?_
  split
  · exact .reject _
  · exact .reject _
  · refine .bind .value fun lexical => ?_
    refine .bind (.expandName _ _) fun name => ?_
    split
    · exact .reject _
    · next type _ =>
        have rest : Scanning (do
            Parse.advance σ
            let nillable := kind = .element && (← Parse.token) = .questionMark
            if nillable then Parse.advance σ
            return NodeTest.content kind type nillable) := by
          refine .bind .advance fun _ => ?_
          refine .bind .token fun k => ?_
          dsimp only
          split
          · exact .bind .advance fun _ => .pure _
          · exact .pure _
        dsimp only
        split
        · exact .bind (.warn _) fun _ => rest
        · exact rest
  · exact .reject _

theorem testName (kind : NodeKind) (bySchema : Bool) : Scanning (testName σ kind bySchema) := by
  have star : Scanning (if bySchema then Parse.reject σ .schemaTestStar
      else Pure.pure (none : Option ExpandedName)) := by
    split
    · exact .reject _
    · exact .pure _
  unfold Parse.testName
  refine .bind .token fun k => ?_
  split
  · exact star
  · exact star
  · exact .bind .value fun _ => .bind (.expandName _ _) fun _ => .pure _
  · exact .reject _

/-- A test for elements or attributes, from what stands between its parentheses on. -/
theorem namedTest (kind : NodeKind) (bySchema : Bool) : Scanning (namedTest σ kind bySchema) := by
  unfold Parse.namedTest
  refine .bind .value fun lexical => ?_
  refine .bind (.testName _ _) fun name? => ?_
  refine .bind .advance fun _ => ?_
  refine .bind .token fun k => ?_
  split
  · refine .bind .advance fun _ => ?_
    split
    · exact .pure _
    · split
      · exact .pure _
      · split
        · exact .reject _
        · exact .reject _
  · dsimp only
    split
    · refine .bind (.reject _) fun _ => ?_
      refine .bind .advance fun _ => ?_
      refine .bind (.contentTest _) fun test => ?_
      refine .bind (.skip _) fun _ => ?_
      split
      · exact .pure _
      · exact .pure _
    · refine .bind .advance fun _ => ?_
      refine .bind (.contentTest _) fun test => ?_
      refine .bind (.skip _) fun _ => ?_
      split
      · exact .pure _
      · exact .pure _
  · exact .reject _

theorem elementTest (kind : NodeKind) (bySchema : Bool) :
    Scanning (elementTest σ kind bySchema) := by
  unfold Parse.elementTest
  refine .bind .advance fun _ => ?_
  refine .bind .token fun k => ?_
  split
  · dsimp only
    split
    · exact .bind (.reject _) fun _ => .bind .advance fun _ => .pure _
    · exact .bind .advance fun _ => .pure _
  · exact .namedTest _ _

/-- Whether there is nothing in parentheses is found out by reading on. -/
theorem emptyArguments : Scanning (emptyArguments σ) := by
  unfold Parse.emptyArguments
  refine .bind .advance fun _ => ?_
  refine .bind .token fun k => ?_
  split
  · exact .bind .advance fun _ => .pure _
  · exact .pure _

theorem plainTest (word : String) (test : NodeTest) : Scanning (plainTest σ word test) := by
  unfold Parse.plainTest
  refine .bind .emptyArguments fun b => ?_
  split
  · exact .pure _
  · exact .reject _

theorem namespaceTest : Scanning (namespaceTest σ) := by
  unfold Parse.namespaceTest
  refine .bind .emptyArguments fun b => ?_
  split
  · split
    · exact .pure _
    · exact .reject _
  · exact .reject _

theorem documentTest : Scanning (documentTest σ) := by
  unfold Parse.documentTest
  refine .bind .emptyArguments fun b => ?_
  split
  · exact .pure _
  · refine .bind .value fun word => ?_
    refine .bind .token fun k => ?_
    split
    · exact .bind (.elementTest _ _) fun _ => .bind (.skip _) fun _ => .pure _
    · exact .reject _

/-- The target of a test for instructions is looked at, and read by what comes after it. -/
theorem instructionTarget : Scanning (instructionTarget σ) := by
  unfold Parse.instructionTarget
  refine .bind .value fun text => ?_
  refine .bind .token fun k => ?_
  split
  · dsimp only
    split
    · exact .pure _
    · exact .reject _
  · split
    · exact .reject _
    · split
      · exact .pure _
      · exact .reject _
  · exact .reject _

theorem instructionTest : Scanning (instructionTest σ) := by
  unfold Parse.instructionTest
  refine .bind .emptyArguments fun b => ?_
  split
  · exact .pure _
  · refine .bind .instructionTarget fun _ => ?_
    refine .bind .advance fun _ => ?_
    exact .bind (.skip _) fun _ => .pure _

/-- A test of any kind is read without declaring, whatever keyword it starts with. -/
theorem kindTest : Scanning (kindTest σ) := by
  unfold Parse.kindTest
  refine .bind .value fun word => ?_
  split
  · exact .plainTest _ _
  · exact .plainTest _ _
  · exact .plainTest _ _
  · exact .namespaceTest
  · exact .documentTest
  · exact .instructionTest
  · exact .elementTest _ _
  · exact .elementTest _ _
  · exact .elementTest _ _
  · exact .elementTest _ _
  · exact .bind (.bind .emptyArguments fun _ => .pure _) fun _ => .reject _
  · exact .reject _

/-! ### Sequence types -/

theorem plainType (type : ItemType) : Scanning (plainType σ type) := by
  refine .bind .advance fun _ => ?_
  exact .bind (.skip _) fun _ => .pure _

theorem itemType : Scanning (itemType σ) := by
  unfold Parse.itemType
  refine .bind .token fun k => ?_
  split
  · refine .bind .value fun lexical => ?_
    refine .bind (.atomicType _) fun type => ?_
    exact .bind .advance fun _ => .pure _
  · refine .bind .value fun word => ?_
    split
    · exact .plainType _
    · exact .plainType _
    · exact .bind .kindTest fun _ => .pure _
  · exact .reject _

/-- A type and the mark behind it are read without declaring. -/
theorem sequenceType : Scanning (sequenceType σ) := by
  unfold Parse.sequenceType
  refine .bind .itemType fun item => ?_
  split
  · exact .pure _
  · refine .bind .token fun k => ?_
    split
    · exact .pure _
    · exact .bind .skipMark fun _ => .pure _

/-- The target of a cast is read without declaring. -/
theorem singleType : Scanning (singleType σ) := by
  unfold Parse.singleType
  refine .bind (.expect _) fun _ => ?_
  refine .bind .value fun lexical => ?_
  refine .bind (.atomicType _) fun type => ?_
  have rest : Scanning (do
      Parse.advance σ
      let optional := (← Parse.token) = .questionMark
      if optional then Parse.skipMark σ
      return (⟨type, optional⟩ : SingleType)) := by
    refine .bind .advance fun _ => ?_
    refine .bind .token fun k => ?_
    dsimp only
    split
    · exact .bind .skipMark fun _ => .pure _
    · exact .pure _
  dsimp only
  split
  · exact .bind (.reject _) fun _ => rest
  · exact rest

/-! ### Steps -/

/-- The test of a step is read without declaring, whether it is a name or a kind test. -/
theorem nodeTest (kind : NodeKind) : Scanning (nodeTest σ kind) := by
  unfold Parse.nodeTest
  refine .bind .token fun k => ?_
  split
  · refine .bind .value fun lexical => ?_
    refine .bind (.expandName _ _) fun name => ?_
    exact .bind .advance fun _ => .pure _
  · refine .bind .value fun text => ?_
    refine .bind (.declaredNamespace _) fun uri => ?_
    exact .bind .advance fun _ => .pure _
  · refine .bind .advance fun _ => ?_
    refine .bind .value fun localName => ?_
    refine .bind (.expect _) fun _ => ?_
    dsimp only
    split
    · exact .bind (.reject _) fun _ => .bind .advance fun _ => .pure _
    · exact .bind .advance fun _ => .pure _
  · exact .bind .advance fun _ => .pure _
  · exact .kindTest
  · exact .reject _

end Scanning

end XPath.Parse
