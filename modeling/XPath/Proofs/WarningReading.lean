import XPath.Proofs.Switches
import XPath.Proofs.Warnings

/-!
# Warnings about expressions

The warnings that are issued while an expression is read are as many as the tests in it that call
for one (`warnings_are_exact`). What could go wrong is that a part of the tree is left out after it
has been read. That happens to the arguments of an unknown function under backwards compatible
processing and to those of some functions in a pattern (`Parse.KeepsArguments`), and to the string
that a cast or a constructor turns into a name, in which there are no tests.
-/

namespace XPath

namespace Parse

namespace Issues

variable {σ : Setting}

/-! ### What paths start with -/

section Nested

variable {nested : Parse Expr} (hn : Issues 0 Expr.misfits nested)

include hn in
/-- The tests in a row of expressions are those in its members. -/
theorem expression : Issues 0 Expr.misfits (expression σ nested) := by
  refine .bind .offset fun start => ?_
  refine .bind (.commaSeparated hn) fun items => ?_
  split
  · exact .pure (by simp)
  · exact .pure (Expr.misfits_of_parts rfl)

theorem leaf {make : Nat → Expr} (h : ∀ n, (make n).misfits = 0) :
    Issues 0 Expr.misfits (leaf σ make) := by
  refine .bind .offset fun start => ?_
  exact .bind .advance fun _ => .pure (h start)

theorem numericLiteral : Issues 0 Expr.misfits (numericLiteral σ) := by
  refine .bind .value fun text => ?_
  split
  · exact .reject
  · exact .leaf fun _ => rfl

/-- A variable brings no warning. -/
theorem variableReference : Issues 0 Expr.misfits (variableReference σ) := by
  refine .bind .offset fun start => ?_
  refine .bind .advance fun _ => ?_
  refine .bind .expect fun _ => ?_
  refine .bind .value fun lexical => ?_
  refine .bind .advance fun _ => ?_
  refine .bind (.stateless (.expandName _ _)) fun name => ?_
  refine .bind .get fun s => ?_
  split
  · exact .pure rfl
  · split
    · exact .pure rfl
    · split
      · exact .reject
      · exact fun _ _ _ h => absurd h fail_ne_ok

/-! ### Calls -/

include hn in
theorem arguments : Issues 0 (fun args => (args.map Expr.misfits).sum) (arguments σ nested) := by
  refine .bind .token fun token => ?_
  split
  · exact .bind .advance fun _ => .pure rfl
  · refine .bind (.commaSeparated hn) fun args => ?_
    exact .bind .skip fun _ => .pure rfl

end Nested

end Issues

/-- What is read of a call is kept: not in a pattern, not with unknown functions left to fail
when they are evaluated, and not with further arguments of functions that make names. -/
structure KeepsArguments (σ : Setting) : Prop where
  language : σ.language ≠ .pattern
  strict : σ.host.backwardsCompatible = false
  unary : ∀ name arity f, σ.host.bind? name arity = .ok (some f) →
    f.kind = .constructor .qname → arity ≤ 1

namespace Issues

variable {σ : Setting} {nested : Parse Expr} (hn : Issues 0 Expr.misfits nested)
  (hσ : KeepsArguments σ)

include hσ in
theorem unknownCall {n start arity : Nat} {name : ExpandedName} :
    Issues n Expr.misfits (unknownCall σ start name arity) := by
  unfold Parse.unknownCall
  rw [hσ.strict]
  exact .reject

include hσ in
theorem callIn {start : Nat} {f : FunctionBinding} {args : List Expr} :
    Issues (args.map Expr.misfits).sum Expr.misfits (callIn σ start f args) := by
  unfold Parse.callIn
  have hcall : (Expr.call start f args).misfits = (args.map Expr.misfits).sum :=
    Expr.misfits_of_parts rfl
  split
  · next hlanguage _ => exact absurd hlanguage hσ.language
  · exact .reject
  · exact .reject
  · exact .pure hcall

include hσ in
/-- A call keeps its arguments, or the string that it turns into a name, and no test is lost. -/
theorem knownCall {start : Nat} {f : FunctionBinding} {args : List Expr} {name : ExpandedName}
    (hbind : σ.host.bind? name args.length = .ok (some f)) :
    Issues (args.map Expr.misfits).sum Expr.misfits (knownCall σ start f args) := by
  unfold Parse.knownCall
  split
  · next text hkind htext =>
    split
    · have hunary := hσ.unary name args.length f hbind hkind
      exact .pure (Expr.sum_misfits_of_head? hunary htext).symm
    · exact .reject
  · exact .callIn hσ

include hn hσ

theorem functionCall : Issues 0 Expr.misfits (functionCall σ nested) := by
  refine .bind .offset fun start => ?_
  refine .bind .value fun lexical => ?_
  refine .bind (.stateless (.functionName _)) fun name => ?_
  refine .bind .advance fun _ => ?_
  refine .bind (.arguments hn) fun args => ?_
  refine .ask fun function? h => ?_
  cases function? with
  | none => exact .unknownCall hσ
  | some f => exact .knownCall hσ h

omit hσ in
theorem parenthesized : Issues 0 Expr.misfits (parenthesized σ nested) := by
  refine .bind .offset fun start => ?_
  refine .bind .advance fun _ => ?_
  refine .bind .token fun token => ?_
  split
  · exact .bind .advance fun _ => .pure rfl
  · refine .bind (.expression hn) fun inner => ?_
    exact .bind .skip fun _ => .pure rfl

/-- What a path starts with brings the warnings of its tests. -/
theorem primary {startsPattern : Bool} :
    Issues 0 Expr.misfits (primary σ nested startsPattern) := by
  refine .bind .token fun token => ?_
  split
  · exact .variableReference
  · exact .parenthesized hn
  · exact .bind .value fun text => .leaf fun _ => rfl
  · exact .numericLiteral
  · exact .functionCall hn hσ
  · exact .leaf fun _ => rfl
  · exact .leaf fun _ => rfl
  · exact .bareStep
  · exact .bareStep
  · exact .bareStep
  · exact .bareStep
  · exact .bareStep
  · exact .attributeStep
  · exact .axisStep
  · exact .bind .found fun _ => .reject

/-! ### Paths -/

omit hσ in
theorem predicate {base : Expr} :
    Issues base.misfits Expr.misfits (predicate σ nested base) := by
  refine .bind .offset fun start => ?_
  refine .bind .descend fun _ => ?_
  refine .bind .advance fun _ => ?_
  refine .bind (.later (.expression hn)) fun condition => ?_
  refine .bind .skip fun _ => ?_
  exact .pure (Expr.misfits_of_two rfl rfl)

/-- A step brings the warnings of its own test and of those in its predicates. -/
theorem step {startsPattern : Bool} : Issues 0 Expr.misfits (step σ nested startsPattern) := by
  refine .nesting ?_
  refine .bind (.primary hn hσ) fun base => ?_
  refine .bind (.repeatWhile (fun _ => .predicate hn) rfl) fun filtered => ?_
  split
  · exact .pure (Expr.misfits_of_one rfl rfl)
  · exact .pure rfl

theorem furtherStep {before : Expr} :
    Issues before.misfits Expr.misfits (furtherStep σ nested before) := by
  refine .bind .token fun k => ?_
  refine .bind .offset fun start => ?_
  refine .bind .descend fun _ => ?_
  refine .bind .advance fun _ => ?_
  refine .bind (.later (.step hn hσ)) fun next => ?_
  exact .pure (Expr.misfits_joinStep _ _ _ _)

theorem furtherStepFromRoot {before : Expr} :
    Issues before.misfits Expr.misfits (furtherStepFromRoot σ nested before) := by
  refine .bind .token fun k => ?_
  refine .bind .offset fun start => ?_
  refine .bind .advance fun _ => ?_
  refine .bind .descend fun _ => ?_
  refine .bind (.later (.step hn hσ)) fun next => ?_
  exact .pure (Expr.misfits_joinStep _ _ _ _)

theorem relativePath : Issues 0 Expr.misfits (relativePath σ nested) := by
  refine .nesting ?_
  refine .bind (.step hn hσ) fun first => ?_
  exact .repeatWhile (fun before => .furtherStep hn hσ) rfl

theorem pathFrom {start : Nat} {origin : Expr} (h : origin.misfits = 0) :
    Issues 0 Expr.misfits (pathFrom σ nested start origin) := by
  refine .nesting ?_
  refine .bind .descend fun _ => ?_
  refine .bind (.step hn hσ) fun first => ?_
  refine .repeatWhile (fun _ => .furtherStepFromRoot hn hσ) ?_
  rw [Expr.misfits_path, h, Nat.zero_add]

theorem rootedPath : Issues 0 Expr.misfits (rootedPath σ nested) := by
  refine .bind .offset fun start => ?_
  refine .bind .advance fun _ => ?_
  refine .bind .token fun token => ?_
  split
  · exact .reject
  · split
    · exact .pathFrom hn hσ rfl
    · exact .pure rfl

theorem descendantPath : Issues 0 Expr.misfits (descendantPath σ nested) := by
  refine .bind .offset fun _ => ?_
  exact .bind .advance fun _ => .pathFrom hn hσ rfl

/-- A path brings the warnings of all its steps. -/
theorem pathExpression : Issues 0 Expr.misfits (pathExpression σ nested) := by
  refine .bind .token fun token => ?_
  split
  · exact .rootedPath hn hσ
  · exact .descendantPath hn hσ
  · exact .relativePath hn hσ

/-! ### Operations -/

omit hn hσ in
theorem signs {n : Nat} : Issues n (fun _ => n)
    (Parse.repeatWhile (fun t => (sign? t).isSome) (sign σ) []) := by
  refine .repeatWhile (fun signs => .bind .token fun token => ?_) rfl
  split
  · exact .pure rfl
  · refine .bind .descend fun _ => ?_
    refine .bind .offset fun _ => ?_
    exact .bind .advance fun _ => .pure rfl

theorem signedPath : Issues 0 Expr.misfits (signedPath σ nested) := by
  refine .nesting ?_
  refine .bind .signs fun signs => ?_
  exact .bind (.pathExpression hn hσ) fun operand => .pure (Expr.misfits_applySigns operand signs)

omit hn hσ in
theorem endTypeOperation {n precedence : Nat} :
    Issues n (fun _ => n) (endTypeOperation σ precedence) := by
  refine .bind .token fun token => ?_
  split
  · exact .reject
  · exact .pure rfl

omit hn hσ in
/-- A string literal that is cast is left out, and holds no tests. -/
theorem cast {start : Nat} {castable : Bool} {operand : Expr} {type : SingleType} :
    Issues operand.misfits Expr.misfits (cast σ start castable operand type) := by
  unfold Parse.cast
  split
  · next text _ htext =>
    have hoperand := Expr.misfits_of_stringLiteral? htext
    split
    · exact .pure hoperand.symm
    · exact .pure hoperand.symm
    · exact .reject
  · refine .pure ((Expr.misfits_typed _ _ _).trans ?_)
    split <;> rfl

omit hn hσ in
theorem typeOperation {op : TypeOperator} {start : Nat} {operand : Expr} :
    Issues operand.misfits Expr.misfits (typeOperation σ op start operand) := by
  refine .bind .advance fun _ => ?_
  cases op with
  | instanceOf => exact .bind (.later .sequenceType) fun _ => .pure (Expr.misfits_typed _ _ _)
  | treatAs => exact .bind (.later .sequenceType) fun _ => .pure (Expr.misfits_typed _ _ _)
  | castableAs => exact .bind .singleType fun _ => .cast
  | castAs => exact .bind .singleType fun _ => .cast

omit hn hσ in
theorem rightOperand {tighter : Nat → Expr → Parse Expr} {least : Nat} {operand : Expr}
    (htighter : ∀ least right, Issues right.misfits Expr.misfits (tighter least right)) :
    Issues operand.misfits Expr.misfits (rightOperand tighter least operand) := by
  refine .repeatWhile (fun right => ?_) rfl
  refine .bind .token fun token => ?_
  split
  · exact htighter _ right
  · exact .pure rfl

/-- The warnings of the right operand come behind those of the left one. -/
theorem operation {tighter : Nat → Expr → Parse Expr} {left : Expr}
    (htighter : ∀ least right, Issues right.misfits Expr.misfits (tighter least right)) :
    Issues left.misfits Expr.misfits (operation σ nested tighter left) := by
  refine .bind .offset fun start => ?_
  refine .bind .token fun token => ?_
  split
  · next op =>
      refine .bind .descend fun _ => ?_
      refine .bind .advance fun _ => ?_
      refine .bind (.later (.signedPath hn hσ)) fun operand => ?_
      -- the right operand grows behind the left one
      refine .bind (.behind left.misfits (.rightOperand htighter)) fun right => ?_
      exact .pure (Expr.misfits_of_two rfl rfl)
  · refine .bind .descend fun _ => ?_
    refine .bind .typeOperation fun typed => ?_
    exact .bind .endTypeOperation fun _ => .pure rfl
  · exact .pure rfl

/-- All operators with their operands, by induction on the tiers. -/
theorem operations {tiers least : Nat} {left : Expr} :
    Issues left.misfits Expr.misfits (operations σ nested tiers least left) := by
  induction tiers generalizing least left with
  | zero => exact .pure rfl
  | succ tiers ih =>
      exact .nesting (.repeatWhile (fun _ => .operation hn hσ fun _ _ => ih) rfl)

theorem operatorExpression : Issues 0 Expr.misfits (operatorExpression σ nested) :=
  .bind (.signedPath hn hσ) fun _ => .operations hn hσ

/-! ### Bindings and conditionals -/

omit hσ in
theorem clause : Issues 0 (·.domain.misfits) (clause σ nested) := by
  refine .bind .skip fun _ => ?_
  refine .bind .expect fun _ => ?_
  refine .bind .value fun text => ?_
  refine .bind (.stateless (.expandName _ _)) fun name => ?_
  refine .bind .advance fun _ => ?_
  refine .bind .skip fun _ => ?_
  refine .bind hn fun domain => ?_
  exact .bind .declare fun bound => .pure rfl

omit hσ in
/-- A binding brings the warnings of its domains, and those of its action behind them. -/
theorem bindingExpression {kind : BindingKind} :
    Issues 0 Expr.misfits (bindingExpression σ nested kind) := by
  have hparts : Issues 0
      (fun parts : List Clause × Expr => (parts.1.map (·.domain.misfits)).sum + parts.2.misfits)
      (Parse.binding do
        Parse.advance σ
        let clauses ← Parse.commaSeparated σ (Parse.clause σ nested)
        Parse.skip σ (actionToken kind)
        return (clauses, ← nested)) := by
    refine .binding ?_
    refine .bind .advance fun _ => ?_
    refine .bind (.commaSeparated (.clause hn)) fun clauses => ?_
    refine .bind .skip fun _ => ?_
    exact .bind (.later hn) fun action => .pure rfl
  refine .bind .offset fun start => ?_
  refine .bind hparts fun parts => ?_
  exact .pure (Expr.misfits_nestClauses _ _ _ _ _)

omit hσ in
theorem conditional : Issues 0 Expr.misfits (conditional σ nested) := by
  refine .bind .offset fun start => ?_
  refine .bind .advance fun _ => ?_
  refine .bind (.expression hn) fun condition => ?_
  refine .bind .skip fun _ => ?_
  refine .bind .skip fun _ => ?_
  refine .bind (.later hn) fun yes => ?_
  refine .bind .skip fun _ => ?_
  refine .bind (.later hn) fun no => ?_
  have hparts : (Expr.conditional start condition yes no).misfits =
      condition.misfits + yes.misfits + no.misfits := by
    rw [Expr.misfits_of_parts rfl]
    simp [Expr.children, Nat.add_assoc]
  exact .pure hparts

/-! ### Whole sources -/

theorem singleWith : Issues 0 Expr.misfits (singleWith σ nested) := by
  refine .nesting ?_
  refine .bind .descend fun _ => ?_
  refine .bind .token fun token => ?_
  split
  · exact .bindingExpression hn
  · exact .bindingExpression hn
  · exact .bindingExpression hn
  · exact .conditional hn
  · exact .operatorExpression hn hσ

omit hn in
/-- The warnings of a single expression are those of its tests, by induction on the levels. -/
theorem singleWithin (n : Nat) : Issues 0 Expr.misfits (singleWithin σ n) := by
  induction n with
  | zero => exact .reject
  | succ n ih => exact .singleWith ih hσ

omit hn in
theorem complete {terminator : Token} : Issues 0 Expr.misfits (complete σ terminator) := by
  refine .bind .advance fun _ => ?_
  refine .bind (.expression (.singleWithin hσ _)) fun e => ?_
  refine .bind .token fun token => ?_
  split
  · exact .pure rfl
  · split
    · exact .reject
    · exact .bind .found fun _ => .reject

omit hn hσ in
theorem completeType : Issues 0 (·.item.misfits) (completeType σ) := by
  refine .bind .advance fun _ => ?_
  refine .bind .sequenceType fun type => ?_
  refine .bind .token fun token => ?_
  split
  · exact .pure rfl
  · exact .bind .found fun _ => .reject

end Issues

end Parse

/-- A host with the standard functions that is not lenient keeps what is read of a call. -/
theorem StaticContext.keepsArguments {c : StaticContext} (hfunctions : c.functions = .standard)
    (hstrict : c.backwardsCompatible = false) :
    Parse.KeepsArguments ⟨.expression, c.resolver⟩ where
  language := nofun
  strict := hstrict
  unary := by
    intro name arity f hbind
    have hbind : c.functions.bind? name arity = some f := Except.ok.inj hbind
    rw [hfunctions] at hbind
    exact FunctionLibrary.namesAreUnary_standard name arity f hbind

/-- An expression that is read with the standard functions comes with as many warnings as there
are tests for attributes with a type that is not atomic, in its steps and in the types that it
tests values against, and a sequence type with as many as there are in it. The warnings of before
stay in front of them. -/
theorem warnings_are_exact (context : StaticContext) (source : String) (warnings : List String) :
    (context.functions = .standard → context.backwardsCompatible = false →
      ∀ start terminator e after,
        readExpressionAt source start terminator context.resolver warnings = ⟨.ok e, after⟩ →
          ∃ new, after = warnings ++ new ∧ new.length = (e.nodes.map Expr.ownMisfits).sum ∧
            ∀ w ∈ new, ∃ c, w = Parse.place c ++ "An attribute must have an atomic type") ∧
    ∀ type after, readSequenceType source context.resolver warnings = ⟨.ok type, after⟩ →
      ∃ new, after = warnings ++ new ∧ new.length = type.item.misfits ∧
        ∀ w ∈ new, ∃ c, w = Parse.place c ++ "An attribute must have an atomic type" := by
  constructor
  · intro hfunctions hstrict start terminator e after h
    obtain ⟨t, hrun, rfl⟩ := Parser.reading_run.mp h
    have hσ := StaticContext.keepsArguments hfunctions hstrict
    obtain ⟨k, hk, new, hafter, hlength, hnew⟩ := Parse.Issues.complete hσ _ e t hrun
    rw [Nat.zero_add] at hk
    exact ⟨new, hafter, hlength.trans hk.symm, hnew⟩
  · intro type after h
    obtain ⟨t, hrun, rfl⟩ := Parser.reading_run.mp h
    obtain ⟨k, hk, new, hafter, hlength, hnew⟩ := Parse.Issues.completeType _ type t hrun
    rw [Nat.zero_add] at hk
    exact ⟨new, hafter, hlength.trans hk.symm, hnew⟩

/-- A step and a type with a test for attributes whose values are lists, and such a type alone. -/
theorem warnings_are_exact_of_lists :
    (∃ e after new, readExpressionAt "attribute(*, xs:IDREFS) instance of attribute(*, xs:NMTOKENS)"
        0 .eof (StaticContext.resolver {}) ["before"] = ⟨.ok e, after⟩ ∧
      (e.nodes.map Expr.ownMisfits).sum = 2 ∧ after = ["before"] ++ new ∧ new.length = 2) ∧
    ∃ type after new, readSequenceType "attribute(*, xs:IDREFS)*" (StaticContext.resolver {}) [] =
        ⟨.ok type, after⟩ ∧
      type.item.misfits = 1 ∧ after = new ∧ new.length = 1 := by
  have heta : ∀ {α : Type} {r : Reading α} {a : α}, r.outcome = .ok a →
      r = ⟨.ok a, r.warnings⟩ := by
    rintro α ⟨outcome, warnings⟩ a rfl
    rfl
  constructor
  · obtain ⟨e, he, hcount⟩ := exists_of_any
      (r := (readExpressionAt "attribute(*, xs:IDREFS) instance of attribute(*, xs:NMTOKENS)"
        0 .eof (StaticContext.resolver {}) ["before"]).outcome)
      (c := fun e => (e.nodes.map Expr.ownMisfits).sum = 2) (by decide +kernel)
    obtain ⟨new, hafter, hlength, -⟩ :=
      (warnings_are_exact {} _ ["before"]).1 rfl rfl 0 .eof e _ (heta he)
    have hsum := of_decide_eq_true hcount
    exact ⟨e, _, new, heta he, hsum, hafter, hlength.trans hsum⟩
  · obtain ⟨type, htype, hcount⟩ := exists_of_any
      (r := (readSequenceType "attribute(*, xs:IDREFS)*" (StaticContext.resolver {}) []).outcome)
      (c := fun type => type.item.misfits = 1) (by decide +kernel)
    obtain ⟨new, hafter, hlength, -⟩ := (warnings_are_exact {} _ []).2 type _ (heta htype)
    have hsum := of_decide_eq_true hcount
    exact ⟨type, _, new, heta htype, hsum, hafter, hlength.trans hsum⟩

end XPath
