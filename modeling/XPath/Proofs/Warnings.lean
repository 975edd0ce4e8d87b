import Mathlib.Algebra.Ring.Nat
import XPath.Proofs.Productions

/-!
# Counting warnings

A reader warns of one thing, a test for attributes with a type that is not atomic, and it does so
once for every such test in what it reads. The tests are counted in the tree (`Expr.misfits`), the
warnings in a run (`Issued`), and a part of a reader that is accounted for (`Issues`) adds as many
warnings as its value has tests. Here this is shown of node tests, types and steps.
-/

namespace XPath

/-! ### Tests in a tree -/

/-- The number of tests for attributes with a type that is not atomic, in a test. -/
@[simp]
def NodeTest.misfits : NodeTest → Nat
  | anyNode | kind _ | name _ _ | inNamespace _ _ | localName _ _ => 0
  | document inner => inner.misfits
  | content k type _ => if k = .attribute && !type.isAtomic then 1 else 0
  | both left right => left.misfits + right.misfits

/-- The number of them in a type. -/
def ItemType.misfits : ItemType → Nat
  | node test => test.misfits
  | anyItem | empty | atomic _ => 0

/-- The number of them in the type that a value is tested against. -/
def TypeOperation.misfits : TypeOperation → Nat
  | instanceOf type | treatAs type _ => type.item.misfits
  | castableAs _ | castAs _ => 0

namespace Expr

/-- The number of them at the root of an expression. -/
def ownMisfits : Expr → Nat
  | axisStep _ _ test => test.misfits
  | typed _ op _ => op.misfits
  | _ => 0

/-- The number of them at all nodes of an expression. -/
def misfits (e : Expr) : Nat :=
  (e.nodes.map ownMisfits).sum

/-- The tests in an expression are its own and those in its parts. -/
theorem misfits_eq (e : Expr) : e.misfits = e.ownMisfits + (e.children.map misfits).sum := by
  have hparts : ∀ es : List Expr,
      ((es.flatMap nodes).map ownMisfits).sum = (es.map misfits).sum := by
    intro es
    induction es with
    | nil => rfl
    | cons e es ih => simp [ih, misfits]
  rw [misfits, nodes_eq, List.map_cons, List.sum_cons, hparts]

/-- Where there are none at the root, all are in the parts. -/
theorem misfits_of_parts {e : Expr} (h : e.ownMisfits = 0) :
    e.misfits = (e.children.map misfits).sum := by
  rw [misfits_eq, h, Nat.zero_add]

theorem misfits_of_one {e a : Expr} (h : e.ownMisfits = 0) (hparts : e.children = [a]) :
    e.misfits = a.misfits := by
  rw [misfits_of_parts h, hparts]
  simp

theorem misfits_of_two {e a b : Expr} (h : e.ownMisfits = 0) (hparts : e.children = [a, b]) :
    e.misfits = a.misfits + b.misfits := by
  rw [misfits_of_parts h, hparts]
  simp

theorem misfits_axisStep (start : Nat) (axis : Axis) (test : NodeTest) :
    (axisStep start axis test).misfits = test.misfits := by
  rw [misfits_eq]
  rfl

theorem ownMisfits_mapRange (f : RangeVariable → RangeVariable) (e : Expr) :
    (e.mapRange f).ownMisfits = e.ownMisfits := by
  cases e with
  | varRef n ref => cases ref <;> rfl
  | _ => rfl

theorem misfits_mapRange (f : RangeVariable → RangeVariable) (e : Expr) :
    (e.mapRange f).misfits = e.misfits := by
  induction e using parts_induction with
  | step e ih =>
      rw [misfits_eq, misfits_eq e, ownMisfits_mapRange, children_mapRange, List.map_map]
      congr 2
      exact List.map_congr_left ih

/-- Types of variables are no tests. -/
theorem misfits_withTypes (known : List RangeVariable) (e : Expr) :
    (Parse.withTypes known e).misfits = e.misfits := by
  rw [withTypes_eq_mapRange, misfits_mapRange]

/-- Nested bindings have the tests of the domains and of the action. -/
theorem misfits_nestClauses (start : Nat) (kind : BindingKind) (known : List RangeVariable)
    (cs : List Parse.Clause) (action : Expr) :
    (Parse.nestClauses start kind known cs action).misfits =
      (cs.map (·.domain.misfits)).sum + action.misfits := by
  induction cs generalizing known with
  | nil => simp [Parse.nestClauses, misfits_withTypes]
  | cons c cs ih =>
      rw [Parse.nestClauses, misfits_of_two rfl rfl, ih, misfits_withTypes, List.map_cons,
        List.sum_cons, Nat.add_assoc]

theorem misfits_applySigns (operand : Expr) (signs : List (Sign × Nat)) :
    (Parse.applySigns operand signs).misfits = operand.misfits := by
  induction signs generalizing operand with
  | nil => rfl
  | cons sign signs ih =>
      rw [Parse.applySigns, List.foldl_cons, ← Parse.applySigns, ih, misfits_of_one rfl rfl]

theorem misfits_path (n : Nat) (start step : Expr) :
    (path n start step).misfits = start.misfits + step.misfits :=
  misfits_of_two rfl rfl

/-- A longer path has the tests of both its parts, and none in the step between them. -/
theorem misfits_joinStep (start : Nat) (separator : Token) (before next : Expr) :
    (Parse.joinStep start separator before next).misfits = before.misfits + next.misfits := by
  unfold Parse.joinStep
  split
  · rw [misfits_path, misfits_path, Parse.anyDescendant, misfits_axisStep, NodeTest.misfits,
      Nat.zero_add]
  · exact misfits_path start before next

theorem misfits_typed (start : Nat) (op : TypeOperation) (operand : Expr) :
    (typed start op operand).misfits = operand.misfits + op.misfits := by
  rw [misfits_eq, Nat.add_comm]
  simp [children, ownMisfits]

/-- A string literal holds no tests. -/
theorem misfits_of_stringLiteral? {e : Expr} {text : String} (h : e.stringLiteral? = some text) :
    e.misfits = 0 := by
  cases e with
  | literal n value => rfl
  | _ => cases h

/-- A single string literal as arguments holds none either. -/
theorem sum_misfits_of_head? {args : List Expr} {text : String} (hlength : args.length ≤ 1)
    (h : args.head?.bind stringLiteral? = some text) : (args.map misfits).sum = 0 := by
  cases args with
  | nil => rfl
  | cons arg others =>
      obtain rfl : others = [] := List.eq_nil_of_length_eq_zero (by simpa using hlength)
      simp [misfits_of_stringLiteral? h]

end Expr

namespace Parse

/-! ### Warnings in a run -/

/-- From one state to the other `n` warnings have been issued, all of the one kind, and none has
been taken back. -/
def Issued (n : Nat) (s t : ParseState) : Prop :=
  ∃ new, t.warnings = s.warnings ++ new ∧ new.length = n ∧
    ∀ w ∈ new, ∃ c, w = place c ++ "An attribute must have an atomic type"

theorem Issued.of_eq {s t : ParseState} (h : t.warnings = s.warnings) : Issued 0 s t :=
  ⟨[], by simp [h], rfl, by simp⟩

/-- The warnings of actions in a row come one behind the other, and add up. -/
theorem Issued.trans {m n : Nat} {s t u : ParseState} (h : Issued m s t) (h' : Issued n t u) :
    Issued (m + n) s u := by
  obtain ⟨new, ht, hm, hnew⟩ := h
  obtain ⟨new', hu, hn, hnew'⟩ := h'
  refine ⟨new ++ new', by rw [hu, ht, List.append_assoc], by simp [hm, hn], ?_⟩
  intro w hw
  rcases List.mem_append.mp hw with hw | hw
  · exact hnew w hw
  · exact hnew' w hw

/-- A part of a reader, behind parts that have issued `n` warnings, issues as many more as bring
them to the weight of its value. -/
def Issues {α : Type} (n : Nat) (weight : α → Nat) (p : Parse α) : Prop :=
  ∀ s a t, p s = .ok a t → ∃ k, weight a = n + k ∧ Issued k s t

namespace Issues

variable {α β : Type} {σ : Setting} {n : Nat} {w : α → Nat} {v : β → Nat}

/-! ### Steps -/

theorem pure {a : α} (h : w a = n) : Issues n w (Pure.pure a) := by
  intro s b t hrun
  obtain ⟨rfl, rfl⟩ := pure_ok.mp hrun
  exact ⟨0, h, .of_eq rfl⟩

/-- The warnings of actions in a row add up. -/
theorem bind {p : Parse α} {q : α → Parse β} (hp : Issues n w p)
    (hq : ∀ a, Issues (w a) v (q a)) : Issues n v (p >>= q) := by
  intro s b u hrun
  obtain ⟨a, t, ha, hb⟩ := bind_ok.mp hrun
  obtain ⟨k, hk, hissued⟩ := hp s a t ha
  obtain ⟨k', hk', hissued'⟩ := hq a t b u hb
  exact ⟨k + k', by omega, hissued.trans hissued'⟩

/-- A part that is accounted for is so after other warnings. -/
theorem behind {p : Parse α} (m : Nat) (hp : Issues n w p) :
    Issues (m + n) (fun a => m + w a) p := by
  intro s a t hrun
  obtain ⟨k, hk, hissued⟩ := hp s a t hrun
  refine ⟨k, ?_, hissued⟩
  show m + w a = m + n + k
  omega

/-- An action that counts from nothing counts on from any number. -/
theorem later {p : Parse α} (hp : Issues 0 w p) : Issues n (fun a => n + w a) p :=
  hp.behind n

/-- A part that issues no warnings. -/
theorem silent {p : Parse α} (h : ∀ s a t, p s = .ok a t → t.warnings = s.warnings) :
    Issues n (fun _ => n) p :=
  fun s a t hrun => ⟨0, rfl, .of_eq (h s a t hrun)⟩

theorem reject {f : Fault} : Issues n w (reject σ f) :=
  fun _ _ _ h => absurd h reject_ne_ok

theorem reject_bind {f : Fault} {q : α → Parse β} : Issues n v (Parse.reject σ f >>= q) := by
  intro s b u hrun
  obtain ⟨a, t, ha, -⟩ := bind_ok.mp hrun
  exact absurd ha reject_ne_ok

theorem get : Issues n (fun _ => n) (get : Parse ParseState) := by
  apply silent
  intro s a t h
  cases h
  rfl

theorem token : Issues n (fun _ => n) token := .bind .get fun _ => .pure rfl

theorem value : Issues n (fun _ => n) value := .bind .get fun _ => .pure rfl

theorem offset : Issues n (fun _ => n) offset := .bind .get fun _ => .pure rfl

theorem found : Issues n (fun _ => n) found := .bind .get fun _ => .pure rfl

theorem stateless {p : Parse α} (hp : Stateless p) : Issues n (fun _ => n) p := by
  apply silent
  intro s a t h
  rw [(hp s a t h).1]

theorem advance : Issues n (fun _ => n) (advance σ) := by
  apply silent
  intro s a t h
  obtain ⟨c, -, rfl⟩ := advance_ok h
  rfl

theorem expect {k : Token} : Issues n (fun _ => n) (expect σ k) := by
  apply silent
  intro s a t h
  rw [(expect_ok h).2]

theorem skip {k : Token} : Issues n (fun _ => n) (skip σ k) :=
  .bind .expect fun _ => .advance

theorem skipMark : Issues n (fun _ => n) (skipMark σ) := by
  refine .bind (.silent ?_) fun _ => .advance
  intro s a t h
  cases h
  rfl

theorem descend {levels : Nat} : Issues n (fun _ => n) (descend σ levels) := by
  apply silent
  intro s a t h
  rw [(descend_ok h).2]

theorem declare {name : ExpandedName} : Issues n (fun _ => n) (declare name) := by
  apply silent
  intro s a t h
  rw [(declare_ok h).2]

/-- The one step that issues a warning. -/
theorem warn : Issues n (fun _ => n + 1) (warn "An attribute must have an atomic type") := by
  intro s a t h
  cases h
  refine ⟨1, rfl, [_], rfl, rfl, ?_⟩
  intro text htext
  rw [List.mem_singleton.mp htext]
  exact ⟨s.cursor, rfl⟩

/-- The answer of the host is known behind the question. -/
theorem ask {answer : Except Error α} {q : α → Parse β}
    (hq : ∀ a, answer = .ok a → Issues n v (q a)) :
    Issues n v (ask σ answer >>= q) := by
  intro s b u hrun
  obtain ⟨a, t, ha, hb⟩ := bind_ok.mp hrun
  obtain ⟨hanswer, rfl⟩ := ask_ok ha
  exact hq a hanswer s b u hb

theorem nesting {p : Parse α} (hp : Issues n w p) : Issues n w (nesting p) := by
  intro s a t hrun
  obtain ⟨u, hu, rfl⟩ := nesting_ok hrun
  exact hp s a u hu

theorem binding {p : Parse α} (hp : Issues n w p) : Issues n w (binding p) := by
  intro s a t hrun
  obtain ⟨u, hu, rfl⟩ := binding_ok hrun
  exact hp s a u hu

/-- Every round accounts for what it adds to the value. -/
theorem repeatWhile {go : Token → Bool} {part : α → Parse α}
    (hpart : ∀ a, Issues (w a) w (part a)) {a : α} (ha : w a = n) :
    Issues n w (repeatWhile go part a) := by
  intro s b t hrun
  refine repeatWhile_ok (I := fun b t => ∃ k, w b = n + k ∧ Issued k s t) ?_
    ⟨0, ha, .of_eq rfl⟩ hrun
  intro a s' b t' hI _ hround
  obtain ⟨k, hk, hissued⟩ := hI
  obtain ⟨k', hk', hissued'⟩ := hpart a s' b t' hround
  exact ⟨k + k', by omega, hissued.trans hissued'⟩

theorem commaSeparated {part : Parse α} (hpart : Issues 0 w part) :
    Issues 0 (fun as => (as.map w).sum) (commaSeparated σ part) := by
  intro s as t hrun
  have hall := commaSeparated_ok (I := fun as t => Issued (as.map w).sum s t) ?_ ?_ hrun
  · exact ⟨_, (Nat.zero_add _).symm, hall.1⟩
  · intro a u hu
    obtain ⟨k, hk, hissued⟩ := hpart s a u hu
    simpa [hk] using hissued
  · intro as u v w a b hI hv hw
    obtain ⟨c, -, rfl⟩ := advance_ok hv
    obtain ⟨k, hk, hissued⟩ := hpart _ a w hw
    simpa [hk] using hI.trans hissued

/-! ### Types -/

/-- A type that is not atomic brings one warning in a test for attributes, and none elsewhere. -/
theorem contentTest {kind : NodeKind} : Issues 0 NodeTest.misfits (contentTest σ kind) := by
  unfold Parse.contentTest
  refine .bind .token fun k => ?_
  split
  · exact .reject
  · exact .reject
  · refine .bind .value fun lexical => ?_
    refine .bind (.stateless (.expandName _ _)) fun name => ?_
    split
    · exact .reject
    · next type _ =>
        -- the warning is the one that the finished test counts for
        have hrest : ∀ m, (NodeTest.content kind type false).misfits = m →
            Issues m NodeTest.misfits (do
              Parse.advance σ
              let nillable := kind = .element && (← Parse.token) = .questionMark
              if nillable then Parse.advance σ
              return NodeTest.content kind type nillable) := by
          intro m hm
          refine .bind .advance fun _ => ?_
          refine .bind .token fun k => ?_
          dsimp only
          split
          · exact .bind .advance fun _ => .pure hm
          · exact .pure hm
        dsimp only
        split
        · next hmisfit => exact .bind .warn fun _ => hrest _ (if_pos hmisfit)
        · next hfits => exact hrest _ (if_neg hfits)
  · exact .reject

theorem testName {kind : NodeKind} {bySchema : Bool} :
    Issues n (fun _ => n) (testName σ kind bySchema) := by
  unfold Parse.testName
  refine .bind .token fun k => ?_
  split
  · split
    · exact .reject
    · exact .pure rfl
  · split
    · exact .reject
    · exact .pure rfl
  · exact .bind .value fun _ => .bind (.stateless (.expandName _ _)) fun _ => .pure rfl
  · exact .reject

/-- A test for elements or attributes brings the warning of the type in it. -/
theorem namedTest {kind : NodeKind} {bySchema : Bool} :
    Issues 0 NodeTest.misfits (namedTest σ kind bySchema) := by
  unfold Parse.namedTest
  refine .bind .value fun lexical => ?_
  refine .bind .testName fun name? => ?_
  refine .bind .advance fun _ => ?_
  refine .bind .token fun k => ?_
  split
  · refine .bind .advance fun _ => ?_
    split
    · exact .pure rfl
    · split
      · exact .pure rfl
      · split
        · exact .reject
        · exact .reject
  · dsimp only
    split
    · exact .reject_bind
    · refine .bind .advance fun _ => ?_
      refine .bind .contentTest fun content => ?_
      refine .bind .skip fun _ => ?_
      split
      · exact .pure rfl
      · exact .pure (by simp)
  · exact .reject

theorem elementTest {kind : NodeKind} {bySchema : Bool} :
    Issues 0 NodeTest.misfits (elementTest σ kind bySchema) := by
  unfold Parse.elementTest
  refine .bind .advance fun _ => ?_
  refine .bind .token fun k => ?_
  split
  · dsimp only
    split
    · exact .reject_bind
    · exact .bind .advance fun _ => .pure rfl
  · exact .namedTest

theorem emptyArguments : Issues n (fun _ => n) (emptyArguments σ) := by
  unfold Parse.emptyArguments
  refine .bind .advance fun _ => ?_
  refine .bind .token fun k => ?_
  split
  · exact .bind .advance fun _ => .pure rfl
  · exact .pure rfl

theorem plainTest {word : String} {test : NodeTest} (h : test.misfits = 0) :
    Issues 0 NodeTest.misfits (plainTest σ word test) := by
  refine .bind .emptyArguments fun b => ?_
  split
  · exact .pure h
  · exact .reject

theorem namespaceTest : Issues 0 NodeTest.misfits (namespaceTest σ) := by
  refine .bind .emptyArguments fun b => ?_
  split
  · split
    · exact .pure rfl
    · exact .reject
  · exact .reject

theorem documentTest : Issues 0 NodeTest.misfits (documentTest σ) := by
  refine .bind .emptyArguments fun b => ?_
  split
  · exact .pure rfl
  · refine .bind .value fun word => ?_
    refine .bind .token fun k => ?_
    split
    · exact .bind .elementTest fun inner => .bind .skip fun _ => .pure (by simp)
    · exact .reject

theorem instructionTarget : Issues n (fun _ => n) (instructionTarget σ) := by
  unfold Parse.instructionTarget
  refine .bind .value fun text => ?_
  refine .bind .token fun k => ?_
  split
  · dsimp only
    split
    · exact .pure rfl
    · exact .reject
  · split
    · exact .reject
    · split
      · exact .pure rfl
      · exact .reject
  · exact .reject

theorem instructionTest : Issues 0 NodeTest.misfits (instructionTest σ) := by
  refine .bind .emptyArguments fun b => ?_
  split
  · exact .pure rfl
  · refine .bind .instructionTarget fun _ => ?_
    refine .bind .advance fun _ => ?_
    exact .bind .skip fun _ => .pure rfl

/-- A test that starts with a keyword brings the warnings of its own and of an inner test. -/
theorem kindTest : Issues 0 NodeTest.misfits (kindTest σ) := by
  unfold Parse.kindTest
  refine .bind .value fun word => ?_
  split
  · exact .plainTest rfl
  · exact .plainTest rfl
  · exact .plainTest rfl
  · exact .namespaceTest
  · exact .documentTest
  · exact .instructionTest
  · exact .elementTest
  · exact .elementTest
  · exact .elementTest
  · exact .elementTest
  · simp only [discard, map_const, Function.comp_apply, bind_map_left]
    exact .bind .emptyArguments fun _ => .reject
  · exact .reject

theorem plainType {type : ItemType} (h : type.misfits = 0) :
    Issues 0 ItemType.misfits (plainType σ type) := by
  refine .bind .advance fun _ => ?_
  exact .bind .skip fun _ => .pure h

theorem itemType : Issues 0 ItemType.misfits (itemType σ) := by
  unfold Parse.itemType
  refine .bind .token fun k => ?_
  split
  · refine .bind .value fun text => ?_
    refine .bind (.stateless (.atomicType _)) fun type => ?_
    refine .bind .advance fun _ => ?_
    exact .pure rfl
  · refine .bind .value fun word => ?_
    split
    · exact .plainType rfl
    · exact .plainType rfl
    · exact .bind .kindTest fun test => .pure rfl
  · exact .reject

/-- A type brings the warnings of the test in it. -/
theorem sequenceType : Issues 0 (·.item.misfits) (sequenceType σ) := by
  unfold Parse.sequenceType
  refine .bind .itemType fun item => ?_
  split
  · next hempty => exact .pure (by rw [hempty]; rfl)
  · refine .bind .token fun k => ?_
    split
    · exact .pure rfl
    · exact .bind .skipMark fun _ => .pure rfl

theorem singleType : Issues n (fun _ => n) (singleType σ) := by
  unfold Parse.singleType
  refine .bind .expect fun _ => ?_
  refine .bind .value fun text => ?_
  refine .bind (.stateless (.atomicType _)) fun type => ?_
  dsimp only
  split
  · exact .reject_bind
  · refine .bind .advance fun _ => ?_
    refine .bind .token fun k => ?_
    split
    · exact .bind .skipMark fun _ => .pure rfl
    · exact .pure rfl

/-! ### Steps -/

/-- The test of a step brings its own warnings. -/
theorem nodeTest {kind : NodeKind} : Issues 0 NodeTest.misfits (nodeTest σ kind) := by
  unfold Parse.nodeTest
  refine .bind .token fun k => ?_
  split
  · refine .bind .value fun text => ?_
    refine .bind (.stateless (.expandName _ _)) fun name => ?_
    refine .bind .advance fun _ => ?_
    exact .pure rfl
  · refine .bind .value fun text => ?_
    refine .bind (.stateless (.declaredNamespace _)) fun uri => ?_
    refine .bind .advance fun _ => ?_
    exact .pure rfl
  · refine .bind .advance fun _ => ?_
    refine .bind .value fun localName => ?_
    refine .bind .expect fun _ => ?_
    dsimp only
    split
    · exact .reject_bind
    · exact .bind .advance fun _ => .pure rfl
  · exact .bind .advance fun _ => .pure rfl
  · exact .kindTest
  · exact .reject

/-- A step has the tests of its node test. -/
theorem testStep {start : Nat} {axis : Axis} {kind : NodeKind} :
    Issues 0 Expr.misfits (do return Expr.axisStep start axis (← Parse.nodeTest σ kind)) :=
  .bind .nodeTest fun test => .pure (Expr.misfits_axisStep _ _ test)

theorem bareStep {startsPattern : Bool} :
    Issues 0 Expr.misfits (bareStep σ startsPattern) := by
  refine .bind .offset fun start => ?_
  refine .bind .token fun k => ?_
  refine .bind .value fun text => ?_
  exact .testStep

theorem attributeStep : Issues 0 Expr.misfits (attributeStep σ) := by
  refine .bind .offset fun start => ?_
  refine .bind .advance fun _ => ?_
  refine .bind .token fun k => ?_
  dsimp only
  split
  · exact .reject_bind
  · exact .testStep

/-- A step with its axis brings the warnings of its test. -/
theorem axisStep : Issues 0 Expr.misfits (axisStep σ) := by
  refine .bind .offset fun start => ?_
  refine .bind .value fun name => ?_
  split
  · exact .reject
  · refine .bind .advance fun _ => ?_
    refine .bind .token fun k => ?_
    dsimp only
    split
    · exact .bind .found fun _ => .reject_bind
    · exact .testStep

end Issues

end Parse

end XPath
