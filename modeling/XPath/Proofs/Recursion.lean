import XPath.Proofs.Conduct

/-!
# Expressions within expressions

Readers of expressions within expressions are nested in one another up to a fixed number, since
the levels in use would not allow more of them. That number is never what ends a reading: an
expression within another is read as it would be read by itself (`Parse.single_eq`). For this, two
actions are compared that do the same wherever enough levels are in use (`Parse.AgreeFrom`).
-/

namespace XPath.Parse

variable {α β : Type} {σ : Setting} {d : Nat}

/-! ### Levels that are not given back -/

/-- At least as many levels are in use. -/
def Rises (s t : ParseState) : Prop :=
  s.depth ≤ t.depth

instance : Frame Rises where
  refl s := Nat.le_refl s.depth
  trans := Nat.le_trans
  read s _ _ := Nat.le_refl s.depth

/-- Levels that are taken are not given back by taking them. -/
theorem Obeys.rises_descend {A : Cursor → Prop} (levels : Nat) :
    Obeys (.free σ) Rises A (Parse.descend σ levels) := by
  intro s _ _
  by_cases h : s.depth + levels ≤ maxDepth
  · rw [descend_run h]
    exact ⟨Nat.le_add_right s.depth levels, trivial⟩
  · rw [descend_fails h]
    exact ⟨Nat.le_add_right s.depth levels, trivial⟩

/-! ### Actions that do the same -/

/-- In all states with `d` levels in use or more, both actions do the same, and no fewer levels are
in use afterwards. -/
def AgreeFrom (d : Nat) (p q : Parse α) : Prop :=
  ∀ s, d ≤ s.depth → q s = p s ∧ d ≤ (final (p s)).depth

namespace AgreeFrom

theorem refl {p : Parse α} (hp : Obeys (.free σ) Rises (fun _ => True) p) : AgreeFrom d p p :=
  fun s hs => ⟨rfl, Nat.le_trans hs (hp s trivial trivial).final⟩

/-- Two actions do the same step by step, and no levels are given back between the steps. -/
theorem bind {p p' : Parse α} {q q' : α → Parse β} (hp : AgreeFrom d p p')
    (hq : ∀ a, AgreeFrom d (q a) (q' a)) : AgreeFrom d (p >>= q) (p' >>= q') := by
  intro s hs
  obtain ⟨heq, hdepth⟩ := hp s hs
  cases h : p s with
  | ok a t =>
      rw [h] at heq hdepth
      rw [bind_run h, bind_run heq]
      exact hq a t hdepth
  | error e t =>
      rw [h] at heq hdepth
      rw [bind_fails h, bind_fails heq]
      exact ⟨rfl, hdepth⟩

/-- An action that is the same for both, and what is done after it. -/
theorem after {p : Parse α} {q q' : α → Parse β}
    (hp : Obeys (.free σ) Rises (fun _ => True) p)
    (hq : ∀ a, AgreeFrom d (q a) (q' a)) : AgreeFrom d (p >>= q) (p >>= q') :=
  .bind (.refl hp) hq

theorem pure (a : α) : AgreeFrom d (pure a) (pure a) :=
  fun _ hs => ⟨rfl, hs⟩

theorem token {q q' : Token → Parse β} (hq : ∀ k, AgreeFrom d (q k) (q' k)) :
    AgreeFrom d (token >>= q) (token >>= q') :=
  fun s hs => hq s.cursor.token s hs

theorem value {q q' : String → Parse β} (hq : ∀ v, AgreeFrom d (q v) (q' v)) :
    AgreeFrom d (value >>= q) (value >>= q') :=
  fun s hs => hq s.cursor.value s hs

theorem offset {q q' : Nat → Parse β} (hq : ∀ n, AgreeFrom d (q n) (q' n)) :
    AgreeFrom d (offset >>= q) (offset >>= q') :=
  fun s hs => hq s.cursor.offset s hs

theorem nesting {p p' : Parse α} (hp : AgreeFrom d p p') :
    AgreeFrom d (nesting p) (nesting p') := by
  intro s hs
  have heq : Parse.nesting p' s = Parse.nesting p s := by
    rw [Parse.nesting, Parse.nesting, (hp s hs).1]
  refine ⟨heq, ?_⟩
  cases h : p s with
  | ok a t =>
      rw [nesting_run h]
      exact hs
  | error e t =>
      rw [nesting_fails h]
      exact hs

theorem binding {p p' : Parse α} (hp : AgreeFrom d p p') :
    AgreeFrom d (binding p) (binding p') := by
  intro s hs
  obtain ⟨heq, hdepth⟩ := hp s hs
  cases h : p s with
  | ok a t =>
      rw [h] at heq hdepth
      rw [binding_run h, binding_run heq]
      exact ⟨rfl, hdepth⟩
  | error e t =>
      rw [h] at heq hdepth
      rw [binding_fails h, binding_fails heq]
      exact ⟨rfl, hdepth⟩

/-- Further levels are in use after they have been taken. -/
theorem descend {levels : Nat} {q q' : Unit → Parse β}
    (hq : AgreeFrom (d + levels) (q ()) (q' ())) :
    AgreeFrom d (descend σ levels >>= q) (descend σ levels >>= q') := by
  intro s hs
  by_cases h : s.depth + levels ≤ maxDepth
  · rw [bind_run (descend_run h), bind_run (descend_run h)]
    obtain ⟨heq, hdepth⟩ := hq { s with depth := s.depth + levels } (Nat.add_le_add_right hs _)
    exact ⟨heq, Nat.le_trans (Nat.le_add_right d levels) hdepth⟩
  · rw [bind_fails (descend_fails h), bind_fails (descend_fails h)]
    exact ⟨rfl, Nat.le_trans hs (Nat.le_add_right _ _)⟩

theorem expect {k : Token} {q q' : Unit → Parse β} (hq : AgreeFrom d (q ()) (q' ())) :
    AgreeFrom d (expect σ k >>= q) (expect σ k >>= q') := by
  refine .bind (.token fun t => ?_) fun _ => hq
  split
  · exact .refl (.found fun _ => .reject rfl)
  · exact .pure _

/-! ### Repetition -/

theorem repeatAtMost {go : Token → Bool} {part part' : α → Parse α}
    (hpart : ∀ a, AgreeFrom d (part a) (part' a)) (n : Nat) (a : α) :
    AgreeFrom d (repeatAtMost go part n a) (repeatAtMost go part' n a) := by
  induction n generalizing a with
  | zero => exact .pure a
  | succ n ih =>
      refine .token fun t => ?_
      split
      · exact .bind (hpart a) ih
      · exact .pure a

/-- Repetitions do the same when their rounds do. -/
theorem repeatWhile {go : Token → Bool} {part part' : α → Parse α}
    (hpart : ∀ a, AgreeFrom d (part a) (part' a)) (a : α) :
    AgreeFrom d (repeatWhile go part a) (repeatWhile go part' a) :=
  fun s hs => repeatAtMost hpart _ a s hs

theorem commaSeparated {part part' : Parse α} (hpart : AgreeFrom d part part') :
    AgreeFrom d (commaSeparated σ part) (commaSeparated σ part') := by
  refine .bind hpart fun first => ?_
  refine .bind (.repeatWhile (fun others => ?_) []) fun others => .pure _
  refine .after .advance fun _ => ?_
  exact .bind hpart fun next => .pure _

/-! ### Primary expressions -/

variable {nested nested' : Parse Expr}

section Nested

variable (hn : AgreeFrom d nested nested')
include hn

theorem expression : AgreeFrom d (expression σ nested) (expression σ nested') := by
  refine .offset fun start => ?_
  refine .bind (.commaSeparated hn) fun items => ?_
  split
  · exact .pure _
  · exact .pure _

theorem arguments : AgreeFrom d (arguments σ nested) (arguments σ nested') := by
  refine .token fun k => ?_
  split
  · exact .refl (.bind .advance fun _ => .pure _)
  · exact .bind (.commaSeparated hn) fun _ => .refl (.bind (.skip _) fun _ => .pure _)

theorem functionCall : AgreeFrom d (functionCall σ nested) (functionCall σ nested') := by
  refine .offset fun start => ?_
  refine .value fun lexical => ?_
  refine .after (.functionName (.inr fun _ => trivial)) fun name => ?_
  refine .after .advance fun _ => ?_
  refine .bind (.arguments hn) fun args => ?_
  -- behind its arguments a call reads nothing more
  refine .refl (.bind (.ask fun _ => .ofFunction name args.length) fun function? => ?_)
  split
  · exact .unknownCall _ _ _
  · exact .knownCall _ _ _

theorem parenthesized : AgreeFrom d (parenthesized σ nested) (parenthesized σ nested') := by
  refine .offset fun start => ?_
  refine .after .advance fun _ => ?_
  refine .token fun k => ?_
  split
  · exact .refl (.bind .advance fun _ => .pure _)
  · exact .bind (.expression hn) fun _ => .refl (.bind (.skip _) fun _ => .pure _)

/-- What a path starts with reads other expressions in parentheses and as arguments alone. -/
theorem primary (startsPattern : Bool) :
    AgreeFrom d (primary σ nested startsPattern) (primary σ nested' startsPattern) := by
  refine .token fun k => ?_
  split
  · exact .refl .variableReference
  · exact .parenthesized hn
  · exact .refl .stringLiteral
  · exact .refl .numericLiteral
  · exact .functionCall hn
  · exact .refl (.leaf _)
  · exact .refl (.leaf _)
  · exact .refl (.bareStep _)
  · exact .refl (.bareStep _)
  · exact .refl (.bareStep _)
  · exact .refl (.bareStep _)
  · exact .refl (.bareStep _)
  · exact .refl .attributeStep
  · exact .refl .axisStep
  · exact .refl (.found fun _ => .reject rfl)

/-! ### Paths -/

theorem predicate (base : Expr) :
    AgreeFrom d (predicate σ nested base) (predicate σ nested' base) := by
  refine .offset fun start => ?_
  refine .after (.rises_descend 1) fun _ => ?_
  refine .after .advance fun _ => ?_
  refine .bind (.expression hn) fun condition => ?_
  exact .after (.skip .rightBracket) fun _ => .pure _

theorem step (startsPattern : Bool) :
    AgreeFrom d (step σ nested startsPattern) (step σ nested' startsPattern) := by
  refine .nesting ?_
  refine .bind (.primary hn startsPattern) fun base => ?_
  exact .bind (.repeatWhile (.predicate hn) base) fun filtered => .pure _

theorem furtherStep (before : Expr) :
    AgreeFrom d (furtherStep σ nested before) (furtherStep σ nested' before) := by
  refine .token fun separator => ?_
  refine .offset fun start => ?_
  refine .after (.rises_descend (separatorLevels separator)) fun _ => ?_
  refine .after .advance fun _ => ?_
  exact .bind (.step hn false) fun next => .pure _

theorem furtherStepFromRoot (before : Expr) :
    AgreeFrom d (furtherStepFromRoot σ nested before) (furtherStepFromRoot σ nested' before) := by
  refine .token fun separator => ?_
  refine .offset fun start => ?_
  refine .after .advance fun _ => ?_
  refine .after (.rises_descend (separatorLevels separator)) fun _ => ?_
  exact .bind (.step hn false) fun next => .pure _

theorem relativePath : AgreeFrom d (relativePath σ nested) (relativePath σ nested') := by
  refine .nesting ?_
  refine .bind (.step hn _) fun first => ?_
  exact .repeatWhile (.furtherStep hn) first

theorem pathFrom (start : Nat) (origin : Expr) :
    AgreeFrom d (pathFrom σ nested start origin) (pathFrom σ nested' start origin) := by
  refine .nesting ?_
  refine .after (.rises_descend 1) fun _ => ?_
  refine .bind (.step hn false) fun first => ?_
  exact .repeatWhile (.furtherStepFromRoot hn) (.path start origin first)

/-- Paths do the same when the expressions in their predicates do. -/
theorem pathExpression : AgreeFrom d (pathExpression σ nested) (pathExpression σ nested') := by
  refine .token fun k => ?_
  split
  · refine .offset fun start => ?_
    refine .after .advance fun _ => ?_
    refine .token fun k => ?_
    split
    · exact .refl (.reject rfl)
    · split
      · exact .pathFrom hn _ _
      · exact .pure _
  · exact .offset fun _ => .after .advance fun _ => .pathFrom hn _ _
  · exact .relativePath hn

/-! ### Operations -/

theorem signedPath : AgreeFrom d (signedPath σ nested) (signedPath σ nested') := by
  have hsign : ∀ signs, Obeys (.free σ) Rises (fun _ => True) (sign σ signs) := by
    intro signs
    refine .token fun t => ?_
    split
    · exact .pure _
    · refine .bind (.rises_descend 1) fun _ => ?_
      refine .offset fun start => ?_
      exact .bind .advance fun _ => .pure _
  refine .nesting ?_
  refine .after (.repeatWhile hsign []) fun signs => ?_
  exact .bind (.pathExpression hn) fun operand => .pure _

theorem operation {tighter tighter' : Nat → Expr → Parse Expr}
    (htighter : ∀ least e, AgreeFrom d (tighter least e) (tighter' least e)) (left : Expr) :
    AgreeFrom d (operation σ nested tighter left) (operation σ nested' tighter' left) := by
  refine .offset fun start => ?_
  refine .token fun t => ?_
  split
  · next op =>
      refine .after (.rises_descend 1) fun _ => ?_
      refine .after .advance fun _ => ?_
      refine .bind (.signedPath hn) fun operand => ?_
      refine .bind (.repeatWhile (fun right => ?_) operand) fun right => .pure _
      -- the operators that bind tighter take the right operand first
      refine .token fun k => ?_
      split
      · exact htighter _ right
      · exact .pure right
  · next op =>
      have htyped : Obeys (.free σ) Rises (fun _ => True) (do
          Parse.descend σ 1
          let typed ← Parse.typeOperation σ op start left
          Parse.endTypeOperation σ op.precedence
          return typed) := by
        refine .bind (.rises_descend 1) fun _ => ?_
        refine .bind (.typeOperation op start left) fun typed => ?_
        exact .bind (.endTypeOperation op.precedence) fun _ => .pure typed
      exact .refl htyped
  · exact .pure left

/-- Operators do the same when their operands do, by induction on the tiers. -/
theorem operations (tiers least : Nat) (left : Expr) :
    AgreeFrom d (operations σ nested tiers least left) (operations σ nested' tiers least left) := by
  induction tiers generalizing least left with
  | zero => exact .pure left
  | succ tiers ih => exact .nesting (.repeatWhile (.operation hn ih) left)

/-! ### Bindings and conditionals -/

theorem clause : AgreeFrom d (clause σ nested) (clause σ nested') := by
  refine .after (.skip .dollar) fun _ => ?_
  refine .expect ?_
  refine .value fun lexical => ?_
  refine .after (.expandName (.inr fun _ => trivial) false) fun name => ?_
  refine .after .advance fun _ => ?_
  refine .after (.skip .inWord) fun _ => ?_
  refine .bind hn fun domain => ?_
  have hdeclare : AgreeFrom d (declare name) (declare name) := fun _ hs => ⟨rfl, hs⟩
  exact .bind hdeclare fun bound => .pure _

/-- Bindings do the same when their domains and their actions do. -/
theorem bindingExpression (kind : BindingKind) :
    AgreeFrom d (bindingExpression σ nested kind) (bindingExpression σ nested' kind) := by
  have hclauses : AgreeFrom d (Parse.commaSeparated σ (Parse.clause σ nested))
      (Parse.commaSeparated σ (Parse.clause σ nested')) := .commaSeparated (.clause hn)
  refine .offset fun start => ?_
  refine .bind (.binding ?_) fun parts => .pure _
  refine .after .advance fun _ => ?_
  refine .bind hclauses fun clauses => ?_
  refine .after (.skip (actionToken kind)) fun _ => ?_
  exact .bind hn fun action => .pure _

/-- Conditionals do the same when their three parts do. -/
theorem conditional : AgreeFrom d (conditional σ nested) (conditional σ nested') := by
  have hcondition : AgreeFrom d (Parse.expression σ nested) (Parse.expression σ nested') :=
    .expression hn
  refine .offset fun start => ?_
  refine .after .advance fun _ => ?_
  refine .bind hcondition fun condition => ?_
  refine .after (.skip .rightParen) fun _ => ?_
  refine .after (.skip .thenWord) fun _ => ?_
  refine .bind hn fun yes => ?_
  refine .after (.skip .elseWord) fun _ => ?_
  exact .bind hn fun no => .pure _

end Nested

/-! ### All expressions -/

/-- Expressions within an expression are read with more levels in use. -/
theorem singleWith (hn : AgreeFrom (d + nestedCost) nested nested') :
    AgreeFrom d (singleWith σ nested) (singleWith σ nested') := by
  refine .nesting ?_
  refine .descend ?_
  refine .token fun t => ?_
  split
  · exact .bindingExpression hn _
  · exact .bindingExpression hn _
  · exact .bindingExpression hn _
  · exact .conditional hn
  · exact .bind (.signedPath hn) fun _ => .operations hn _ _ _

/-- Where so many levels are in use that there are none for `n + 1` expressions in one another, it
makes no difference how many more than `n` could be read. -/
theorem singleWithin {n m : Nat} (hd : maxDepth < d + nestedCost * (n + 1)) (hnm : n ≤ m) :
    AgreeFrom d (singleWithin σ n) (singleWithin σ m) := by
  induction n generalizing d m with
  | zero =>
      cases m with
      | zero => exact .refl (.reject rfl)
      | succ m =>
          intro s hs
          -- the levels are taken in vain, and given back
          have hfull : ¬s.depth + nestedCost ≤ maxDepth := by omega
          exact ⟨(nesting_fails (bind_fails (descend_fails hfull))).trans rfl, hs⟩
  | succ n ih =>
      obtain ⟨m, rfl⟩ := Nat.exists_eq_add_of_le' hnm
      refine .singleWith (ih ?_ (Nat.le_add_left n m))
      rw [Nat.mul_succ] at hd
      omega

end AgreeFrom

/-- An expression within another is read as it would be read by itself. -/
theorem single_eq (σ : Setting) : single σ = singleWith σ (single σ) := by
  have hagree : AgreeFrom 0 (singleWithin σ (maxDepth / nestedCost))
      (singleWithin σ (maxDepth / nestedCost + 1)) :=
    .singleWithin (by decide) (Nat.le_succ _)
  funext s
  exact (hagree s (Nat.zero_le _)).1.symm

end XPath.Parse
