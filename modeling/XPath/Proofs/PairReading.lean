import XPath.Proofs.Enclosing
import XPath.Proofs.Pair

/-!
# Expressions read side by side

Two readers whose hosts answer alike (`Pair.Answers`) agree on every expression. The production
for expressions within expressions is a parameter of all others, as it is for the readers
themselves (`Pair.Alike`); the recursion is closed last. That loops come to an end is a fact about
the first reader alone, which has been shown where that reader was put within parentheses.
-/

namespace XPath

open Parse

namespace Parse

/-- The type of a variable that is not in scope, as a reference to it. -/
def hostVariable (σ : Setting) (start : Nat) (name : ExpandedName) (lexical : String) :
    Parse Expr :=
  match σ.host.variableType name with
  | .ok type => return .varRef start (.declared name type)
  | .error e =>
    if e.standardCode = .XPST0008 then reject σ (.undeclaredVariable lexical) else fail σ e

/-- A call, once its name and arguments have been read. -/
def boundCall (σ : Setting) (start : Nat) (name : ExpandedName) (args : List Expr) :
    Parse Expr := do
  match ← ask σ (σ.host.bind? name args.length) with
  | none => unknownCall σ start name args.length
  | some function => knownCall σ start function args

/-- What is read after the first token of a source. -/
def untilToken (σ : Setting) (terminator : Token) : Parse Expr := do
  let e ← expression σ (single σ)
  let t ← token
  if t = terminator then return e
  else if t = .eof ∧ terminator = .rightBrace then reject σ .unclosedTemplate
  else reject σ (.beyondExpression (← found))

end Parse

namespace Pair

variable {P : Pair}

/-- The axis of a step that starts here and names none is the one that the second reader finds. -/
def Implies (P : Pair) (c : Cursor) (startsPattern startsPattern' : Bool) : Prop :=
  ∀ test, P.axis c.offset test (impliedAxis c.token c.value startsPattern) =
    impliedAxis c.token c.value startsPattern'

/-- The answers of the two hosts about expressions agree, and so do the axes of steps. -/
class Answers (P : Pair) : Prop extends P.TypeAnswers where
  mild : P.relocation.IsMild
  declaredNamespace : ∀ {s s'}, P.Linked s s' → ∀ qualifier, P.Agree (Stays s s')
    (declaredNamespace P.left qualifier s) (declaredNamespace P.right qualifier s')
  functionName : ∀ {s s'}, P.Linked s s' → s.cursor.token = .function → P.Agree (Stays s s')
    (functionName P.left s.cursor.value s) (functionName P.right s.cursor.value s')
  hostVariable : ∀ {s s'}, P.Linked s s' → ∀ start name lexical, P.Agree (P.Gives P.tree)
    (hostVariable P.left start name lexical s)
    (hostVariable P.right (P.offset start) name lexical s')
  boundCall : ∀ {s s'}, P.Linked s s' → ∀ start name args, P.Agree (P.Gives P.tree)
    (boundCall P.left start name args s)
    (boundCall P.right (P.offset start) name (args.map P.tree) s')
  notCastable : ∀ type, P.Reports (.notCastable type)
  cast : ∀ {s s'}, P.Linked s s' → ∀ start castable operand type, P.Agree (P.Gives P.tree)
    (cast P.left start castable operand type s)
    (cast P.right (P.offset start) castable (P.tree operand) type s')
  first : ∀ {c c'}, P.Beside c c' → P.Starts c →
    P.Implies c (P.left.language = .pattern) (P.right.language = .pattern)
  later : ∀ {c c'}, P.Beside c c' → P.Implies c false false
  named : ∀ {c c' axis}, P.Beside c c' → c.token = .axis → Axis.ofName? c.value = some axis →
    ∀ test, P.axis c.offset test axis = axis

/-- Expressions within others are read alike where they may start. -/
structure Alike (P : Pair) (nested nested' : Parse Expr) : Prop where
  within : Within P.left nested nested
  agree : ∀ {s s'}, P.Linked s s' → P.Starts s.cursor →
    P.Agree (P.Gives P.tree) (nested s) (nested' s')

namespace Agree

variable [P.Answers] {s s' : ParseState} {nested nested' : Parse Expr}

/-! ### Steps -/

/-- Tests come out alike, since the names and types in them do. -/
theorem nodeTest {k : NodeKind} (h : P.Linked s s') :
    P.Agree (P.Gives id) (nodeTest P.left k s) (nodeTest P.right k s') := by
  unfold Parse.nodeTest
  refine .token h fun token htoken => ?_
  split
  · refine .value h fun lexical _ => ?_
    refine .bind (TypeAnswers.expandName h lexical _) ?_
    rintro name _ _ _ ⟨rfl, rfl, rfl⟩
    exact .advance h (by simp [htoken]) fun t t' ht _ => .pure ⟨rfl, ht⟩
  · refine .value h fun qualifier _ => ?_
    refine .bind (Answers.declaredNamespace h qualifier) ?_
    rintro uri _ _ _ ⟨rfl, rfl, rfl⟩
    exact .advance h (by simp [htoken]) fun t t' ht _ => .pure ⟨rfl, ht⟩
  · refine .advance h (by simp [htoken]) fun t t' ht _ => ?_
    refine .value ht fun localName _ => ?_
    refine .expect ht fun hname => ?_
    dsimp only
    split
    · exact .reject_bind ht rfl
    · exact .advance ht (by simp [hname]) fun u u' hu _ => .pure ⟨rfl, hu⟩
  · exact .advance h (by simp [htoken]) fun t t' ht _ => .pure ⟨rfl, ht⟩
  · exact .kindTest h (by simp [htoken])
  · exact .reject h rfl

theorem bareStep {b b' : Bool} (h : P.Linked s s') (haxis : P.Implies s.cursor b b') :
    P.Agree (P.Gives P.tree) (bareStep P.left b s) (bareStep P.right b' s') := by
  unfold Parse.bareStep
  refine .offset h fun start hstart => ?_
  refine .token h fun token htoken => ?_
  refine .value h fun word hword => ?_
  refine .bind (nodeTest h) ?_
  rintro _ t test t' ⟨rfl, ht⟩
  subst hstart htoken hword
  exact .pure ⟨congrArg (Expr.axisStep _ · _) (haxis _).symm, ht⟩

/-- A test after a mark or an axis, which the second reader gives to the same axis. -/
theorem axisTest {k : NodeKind} {start : Nat} {axis : Axis}
    (haxis : ∀ test, P.axis start test axis = axis) (h : P.Linked s s') :
    P.Agree (P.Gives P.tree) ((do return Expr.axisStep start axis (← Parse.nodeTest P.left k)) s)
      ((do return Expr.axisStep (P.offset start) axis (← Parse.nodeTest P.right k)) s') := by
  refine .bind (nodeTest h) ?_
  rintro test t _ t' ⟨rfl, ht⟩
  exact .pure ⟨congrArg (Expr.axisStep _ · _) (haxis _).symm, ht⟩

omit [P.Answers] in
theorem axis_attribute [hP : P.Answers] (n : Nat) (test : NodeTest) :
    P.axis n test .attribute = .attribute := by
  rcases hP.mild.axis n test .attribute with h | ⟨h, -⟩
  · exact h
  · cases h

theorem attributeStep (h : P.Linked s s') (hs : s.cursor.token = .atSign) :
    P.Agree (P.Gives P.tree) (attributeStep P.left s) (attributeStep P.right s') := by
  unfold Parse.attributeStep
  refine .offset h fun start _ => ?_
  refine .advance h (by simp [hs]) fun t t' ht _ => ?_
  refine .token ht fun token _ => ?_
  dsimp only
  split
  · exact .reject_bind ht rfl
  · exact axisTest (axis_attribute start) ht

/-- A step whose axis is named keeps that axis. -/
theorem axisStep (h : P.Linked s s') (hs : s.cursor.token = .axis) :
    P.Agree (P.Gives P.tree) (axisStep P.left s) (axisStep P.right s') := by
  unfold Parse.axisStep
  refine .offset h fun start hstart => ?_
  refine .value h fun name hname => ?_
  subst hstart hname
  cases hof : Axis.ofName? s.cursor.value with
  | none => exact .reject h rfl
  | some axis =>
      refine .advance h (by simp [hs]) fun t t' ht _ => ?_
      refine .token ht fun token _ => ?_
      dsimp only
      split
      · exact .found ht fun shown => .reject_bind ht rfl
      · exact axisTest (Answers.named h.cursor hs hof) ht

/-! ### Literals and variables -/

theorem leaf {make : Nat → Expr} (hmake : ∀ n, make (P.offset n) = P.tree (make n))
    (h : P.Linked s s') (hs : s.cursor.token ≠ .rightBrace) :
    P.Agree (P.Gives P.tree) (leaf P.left make s) (leaf P.right make s') := by
  refine .offset h fun start _ => ?_
  exact .advance h hs fun _ _ ht _ => .pure ⟨hmake start, ht⟩

theorem numericLiteral (h : P.Linked s s') (hs : s.cursor.token = .number) :
    P.Agree (P.Gives P.tree) (numericLiteral P.left s) (numericLiteral P.right s') := by
  unfold Parse.numericLiteral
  refine .value h fun text _ => ?_
  cases Literal.ofNumber? text with
  | none => exact .reject h rfl
  | some number => exact leaf (fun _ => rfl) h (by simp [hs])

/-- A reference is to the same variable on both sides. -/
theorem variableReference (h : P.Linked s s') (hs : s.cursor.token = .dollar) :
    P.Agree (P.Gives P.tree) (variableReference P.left s) (variableReference P.right s') := by
  unfold Parse.variableReference
  refine .offset h fun start _ => ?_
  refine .advance h (by simp [hs]) fun t t' ht _ => ?_
  refine .expect ht fun hname => ?_
  refine .value ht fun lexical _ => ?_
  refine .advance ht (by simp [hname]) fun u u' hu _ => ?_
  refine .bind (TypeAnswers.expandName hu lexical false) ?_
  rintro _ u name u' ⟨rfl, rfl, rfl⟩
  rw [get_bind, get_bind, hu.scope]
  cases u.scope.find? (·.name = name) with
  | some v => exact .pure ⟨rfl, hu⟩
  | none => exact Answers.hostVariable hu start name lexical

/-! ### Expressions within others -/

theorem expression (hn : P.Alike nested nested') (h : P.Linked s s') (hs : P.Starts s.cursor) :
    P.Agree (P.Gives P.tree) (expression P.left nested s) (expression P.right nested' s') := by
  unfold Parse.expression
  refine .offset h fun start _ => ?_
  refine .bind (commaSeparated (fun s a t hr => (hn.within.mirrors (d := 0) a t hr).1)
    hn.agree h hs) ?_
  rintro items t _ t' ⟨rfl, ht⟩
  rcases items with _ | ⟨e, _ | ⟨e', es⟩⟩
  · exact .pure ⟨rfl, ht⟩
  · exact .pure ⟨rfl, ht⟩
  · exact .pure ⟨congrArg (Expr.sequence _) (Expr.relocateAll_eq_map _ (e :: e' :: es)).symm, ht⟩

theorem arguments (hn : P.Alike nested nested') (h : P.Linked s s') (hs : P.Starts s.cursor) :
    P.Agree (P.Gives (List.map P.tree)) (arguments P.left nested s)
      (arguments P.right nested' s') := by
  unfold Parse.arguments
  refine .token h fun token htoken => ?_
  split
  · next hclose =>
      exact .advance h (by simp [htoken, hclose]) fun t t' ht _ => .pure ⟨rfl, ht⟩
  · refine .bind (commaSeparated (fun s a t hr => (hn.within.mirrors (d := 0) a t hr).1) hn.agree
      h hs) ?_
    rintro args t _ t' ⟨rfl, ht⟩
    exact .skip ht (by simp) fun u u' hu _ => .pure ⟨rfl, hu⟩

/-- A call has the same function on both sides, and the arguments of the other place. -/
theorem functionCall (hn : P.Alike nested nested') (h : P.Linked s s')
    (hs : s.cursor.token = .function) :
    P.Agree (P.Gives P.tree) (functionCall P.left nested s) (functionCall P.right nested' s') := by
  unfold Parse.functionCall
  refine .offset h fun start _ => ?_
  refine .value h fun lexical hlexical => ?_
  subst hlexical
  refine .bind (Answers.functionName h hs) ?_
  rintro _ _ name _ ⟨rfl, rfl, rfl⟩
  refine .advance h (by simp [hs]) fun t t' ht hstarts => ?_
  refine .bind (arguments hn ht (hstarts (by rw [hs]; rfl))) ?_
  rintro args u _ u' ⟨rfl, hu⟩
  exact Answers.boundCall hu start name args

theorem parenthesized (hn : P.Alike nested nested') (h : P.Linked s s')
    (hs : s.cursor.token = .leftParen) :
    P.Agree (P.Gives P.tree) (parenthesized P.left nested s)
      (parenthesized P.right nested' s') := by
  unfold Parse.parenthesized
  refine .offset h fun start _ => ?_
  refine .advance h (by simp [hs]) fun t t' ht hstarts => ?_
  refine .token ht fun token htoken => ?_
  split
  · next hclose =>
      exact .advance ht (by simp [htoken, hclose]) fun u u' hu _ => .pure ⟨rfl, hu⟩
  · refine .bind (expression hn ht (hstarts (by rw [hs]; rfl))) ?_
    rintro inner u _ u' ⟨rfl, hu⟩
    exact .skip hu (by simp) fun v v' hv _ => .pure ⟨rfl, hv⟩

/-- What a path starts with comes out alike, whichever token it starts with. -/
theorem primary {b b' : Bool} (hn : P.Alike nested nested') (h : P.Linked s s')
    (haxis : P.Implies s.cursor b b') :
    P.Agree (P.Gives P.tree) (primary P.left nested b s) (primary P.right nested' b' s') := by
  unfold Parse.primary
  refine .token h fun token htoken => ?_
  split
  · exact variableReference h htoken
  · exact parenthesized hn h htoken
  · exact .value h fun text _ => leaf (fun _ => rfl) h
      (by simp [htoken])
  · exact numericLiteral h htoken
  · exact functionCall hn h htoken
  · exact leaf (fun _ => rfl) h (by simp [htoken])
  · exact leaf (fun _ => rfl) h (by simp [htoken])
  · exact bareStep h haxis
  · exact bareStep h haxis
  · exact bareStep h haxis
  · exact bareStep h haxis
  · exact bareStep h haxis
  · exact attributeStep h htoken
  · exact axisStep h htoken
  · exact .found h fun shown => .reject h rfl

/-! ### Paths -/

theorem predicate {base : Expr} (hn : P.Alike nested nested') (h : P.Linked s s')
    (hs : s.cursor.token = .leftBracket) :
    P.Agree (P.Gives P.tree) (predicate P.left nested base s)
      (predicate P.right nested' (P.tree base) s') := by
  unfold Parse.predicate
  refine .offset h fun start _ => ?_
  refine .descend h fun t t' ht hcursor => ?_
  have hbracket : t.cursor.token = .leftBracket := by rw [hcursor, hs]
  refine .advance ht (by simp [hbracket]) fun u u' hu hstarts => ?_
  refine .bind (expression hn hu (hstarts (by rw [hbracket]; rfl))) ?_
  rintro condition v _ v' ⟨rfl, hv⟩
  exact .skip hv (by simp) fun w w' hw _ => .pure ⟨rfl, hw⟩

/-- A step is put back into the order of the document on both sides or on neither. -/
theorem step {b b' : Bool} (hn : P.Alike nested nested') (h : P.Linked s s')
    (haxis : P.Implies s.cursor b b') :
    P.Agree (P.Gives P.tree) (step P.left nested b s) (step P.right nested' b' s') := by
  unfold Parse.step
  refine nesting h ?_
  refine .bind (primary hn h haxis) ?_
  rintro base t _ t' ⟨rfl, ht⟩
  refine .bind (repeatWhile (f := P.tree) rfl rfl (fun a s b t hgo hr =>
    (MirrorsOn.predicate (d := 0) hn.within (ne_eof_of_go rfl hgo)).2 b t hr)
      (fun a s s' h hgo => predicate hn h (of_decide_eq_true hgo)) ht) ?_
  rintro filtered u _ u' ⟨rfl, hu⟩
  simp only [tree, Expr.isReverseStep_relocate Answers.mild, Expr.offset_relocate]
  split
  · exact .pure ⟨by simp [tree, Expr.relocate], hu⟩
  · exact .pure ⟨rfl, hu⟩

theorem isSeparator_ne {t : Token} (h : isSeparator t = true) : t ≠ .rightBrace := by
  rintro rfl
  cases h

theorem furtherStep {before : Expr} (hn : P.Alike nested nested') (h : P.Linked s s')
    (hs : isSeparator s.cursor.token = true) :
    P.Agree (P.Gives P.tree) (furtherStep P.left nested before s)
      (furtherStep P.right nested' (P.tree before) s') := by
  unfold Parse.furtherStep
  refine .token h fun separator _ => ?_
  refine .offset h fun start _ => ?_
  refine .descend h fun t t' ht hcursor => ?_
  refine .advance ht (by rw [hcursor]; exact isSeparator_ne hs) fun u u' hu _ => ?_
  refine .bind (step hn hu (Answers.later hu.cursor)) ?_
  rintro next v _ v' ⟨rfl, hv⟩
  exact .pure ⟨(Relocation.relocate_joinStep Answers.mild start separator before next).symm, hv⟩

theorem furtherStepFromRoot {before : Expr} (hn : P.Alike nested nested') (h : P.Linked s s')
    (hs : isSeparator s.cursor.token = true) :
    P.Agree (P.Gives P.tree) (furtherStepFromRoot P.left nested before s)
      (furtherStepFromRoot P.right nested' (P.tree before) s') := by
  unfold Parse.furtherStepFromRoot
  refine .token h fun separator _ => ?_
  refine .offset h fun start _ => ?_
  refine .advance h (isSeparator_ne hs) fun t t' ht _ => ?_
  refine .descend ht fun u u' hu _ => ?_
  refine .bind (step hn hu (Answers.later hu.cursor)) ?_
  rintro next v _ v' ⟨rfl, hv⟩
  exact .pure ⟨(Relocation.relocate_joinStep Answers.mild start separator before next).symm, hv⟩

theorem relativePath (hn : P.Alike nested nested') (h : P.Linked s s') (hs : P.Starts s.cursor) :
    P.Agree (P.Gives P.tree) (relativePath P.left nested s) (relativePath P.right nested' s') := by
  unfold Parse.relativePath
  refine nesting h ?_
  refine .bind (step hn h (Answers.first h.cursor hs)) ?_
  rintro first t _ t' ⟨rfl, ht⟩
  exact repeatWhile rfl rfl (fun a s b t hgo hr =>
    (MirrorsOn.furtherStep (d := 0) hn.within (ne_eof_of_go rfl hgo)).2 b t hr)
      (fun a s s' h hgo => furtherStep hn h hgo) ht

theorem pathFrom {start : Nat} (origin : Expr) (hn : P.Alike nested nested')
    (h : P.Linked s s') :
    P.Agree (P.Gives P.tree) (pathFrom P.left nested start origin s)
      (pathFrom P.right nested' (P.offset start) (P.tree origin) s') := by
  unfold Parse.pathFrom
  refine nesting h ?_
  refine .descend h fun t t' ht _ => ?_
  refine .bind (step hn ht (Answers.later ht.cursor)) ?_
  rintro first u _ u' ⟨rfl, hu⟩
  exact repeatWhile (a := .path start origin first) rfl rfl (fun a s b t hgo hr =>
    (MirrorsOn.furtherStepFromRoot (d := 0) hn.within (ne_eof_of_go rfl hgo)).2 b t hr)
      (fun a s s' h hgo => furtherStepFromRoot hn h hgo) hu

theorem rootedPath (hn : P.Alike nested nested') (h : P.Linked s s')
    (hs : s.cursor.token = .slash) :
    P.Agree (P.Gives P.tree) (rootedPath P.left nested s) (rootedPath P.right nested' s') := by
  unfold Parse.rootedPath
  refine .offset h fun start _ => ?_
  refine .advance h (by simp [hs]) fun t t' ht _ => ?_
  refine .token ht fun token _ => ?_
  split
  · exact .reject ht rfl
  · split
    · exact pathFrom (.root start) hn ht
    · exact .pure ⟨rfl, ht⟩

theorem descendantPath (hn : P.Alike nested nested') (h : P.Linked s s')
    (hs : s.cursor.token = .slashSlash) :
    P.Agree (P.Gives P.tree) (descendantPath P.left nested s)
      (descendantPath P.right nested' s') := by
  unfold Parse.descendantPath
  refine .offset h fun start _ => ?_
  refine .advance h (by simp [hs]) fun t t' ht _ => ?_
  have horigin : Expr.path (P.offset start) (.root (P.offset start))
      (anyDescendant (P.offset start)) =
        P.tree (.path start (.root start) (anyDescendant start)) :=
    congrArg (Expr.path _ _) (Relocation.relocate_anyDescendant Answers.mild start).symm
  rw [horigin]
  exact pathFrom _ hn ht

/-- A path comes out alike, from the root or from a step on. -/
theorem pathExpression (hn : P.Alike nested nested') (h : P.Linked s s')
    (hs : P.Starts s.cursor) :
    P.Agree (P.Gives P.tree) (pathExpression P.left nested s)
      (pathExpression P.right nested' s') := by
  unfold Parse.pathExpression
  refine .token h fun token htoken => ?_
  split
  · exact rootedPath hn h htoken
  · exact descendantPath hn h htoken
  · exact relativePath hn h hs

/-! ### Signs -/

theorem sign {signs : List (Sign × Nat)} (h : P.Linked s s')
    (hgo : (sign? s.cursor.token).isSome = true) :
    P.Agree (fun a t b t' => P.Gives (List.map fun (sign, n) => (sign, P.offset n)) a t b t' ∧
      P.Starts t.cursor) (sign P.left signs s)
      (sign P.right (signs.map fun (sign, n) => (sign, P.offset n)) s') := by
  have hopens : s.cursor.token.opensExpression = true ∧ s.cursor.token ≠ .rightBrace := by
    generalize s.cursor.token = token at hgo
    cases token <;> first | cases hgo | exact ⟨rfl, by simp⟩
  unfold Parse.sign
  refine .token h fun token htoken => ?_
  subst htoken
  cases hsign : sign? s.cursor.token with
  | none =>
      rw [hsign] at hgo
      cases hgo
  | some sign =>
      refine .descend h fun t t' ht hcursor => ?_
      refine .offset ht fun start _ => ?_
      rw [← hcursor] at hopens
      exact .advance ht hopens.2 fun u u' hu hstarts => .pure ⟨⟨rfl, hu⟩, hstarts hopens.1⟩

/-- The signs of an operand are moved with it. -/
theorem signedPath (hn : P.Alike nested nested') (h : P.Linked s s') (hs : P.Starts s.cursor) :
    P.Agree (P.Gives P.tree) (signedPath P.left nested s) (signedPath P.right nested' s') := by
  unfold Parse.signedPath
  refine nesting h ?_
  refine .bind (repeatKeeping (a := []) (K := fun t => P.Starts t.cursor)
    (f := List.map fun (sign, n) => (sign, P.offset n)) rfl rfl
      (fun a s b t hgo hr => (MirrorsOn.sign (d := 0) hgo).2 b t hr)
        (fun a s s' h _ hgo => sign h hgo) h hs) ?_
  rintro signs t _ t' ⟨⟨rfl, ht⟩, hstarts⟩
  refine .bind (pathExpression hn ht hstarts) ?_
  rintro operand u _ u' ⟨rfl, hu⟩
  exact .pure ⟨(Relocation.relocate_applySigns operand signs).symm, hu⟩

/-! ### Operators -/

theorem singleType (h : P.Linked s s') :
    P.Agree (P.Gives id) (singleType P.left s) (singleType P.right s') := by
  unfold Parse.singleType
  refine .expect h fun hname => ?_
  refine .value h fun lexical _ => ?_
  refine .bind (TypeAnswers.atomicType h lexical) ?_
  rintro _ _ type _ ⟨rfl, rfl, rfl⟩
  dsimp only
  split
  · exact .rejects_bind (Answers.notCastable type) h
  · refine .advance h (by simp [hname]) fun t t' ht _ => ?_
    refine .token ht fun token htoken => ?_
    split
    · next hmark =>
        exact .skipMark ht (by simp [htoken, hmark]) fun u u' hu => .pure ⟨rfl, hu⟩
    · exact .pure ⟨rfl, ht⟩

theorem typeOperation {op : TypeOperator} {start : Nat} {operand : Expr} (h : P.Linked s s')
    (hs : s.cursor.token ≠ .rightBrace) :
    P.Agree (P.Gives P.tree) (typeOperation P.left op start operand s)
      (typeOperation P.right op (P.offset start) (P.tree operand) s') := by
  have htyped : ∀ op, Expr.typed (P.offset start) op (P.tree operand) =
      P.tree (.typed start op operand) := fun _ => rfl
  unfold Parse.typeOperation
  refine .advance h hs fun t t' ht _ => ?_
  cases op with
  | instanceOf =>
      refine .bind (sequenceType ht) ?_
      rintro _ u type u' ⟨rfl, hu⟩
      exact .pure ⟨htyped _, hu⟩
  | treatAs =>
      refine .bind (sequenceType ht) ?_
      rintro _ u type u' ⟨rfl, hu⟩
      exact .pure ⟨htyped _, hu⟩
  | castableAs =>
      refine .bind (singleType ht) ?_
      rintro _ u type u' ⟨rfl, hu⟩
      exact Answers.cast hu start true operand type
  | castAs =>
      refine .bind (singleType ht) ?_
      rintro _ u type u' ⟨rfl, hu⟩
      exact Answers.cast hu start false operand type

theorem endTypeOperation {precedence : Nat} (h : P.Linked s s') :
    P.Agree (P.Gives id) (endTypeOperation P.left precedence s)
      (endTypeOperation P.right precedence s') := by
  unfold Parse.endTypeOperation
  refine .token h fun token _ => ?_
  split
  · exact .reject h rfl
  · exact .pure ⟨rfl, h⟩

theorem operation {tighter tighter' : Nat → Expr → Parse Expr} {least : Nat} {left : Expr}
    (hn : P.Alike nested nested')
    (hshort : ∀ {least' right s e t}, least < least' → bindsFrom least' s.cursor.token = true →
      tighter least' right s = .ok e t → s.cursor.Shortens t.cursor)
    (htighter : ∀ {least' right s s'}, least < least' → P.Linked s s' →
      P.Agree (P.Gives P.tree) (tighter least' right s) (tighter' least' (P.tree right) s'))
    (h : P.Linked s s') (hgo : bindsFrom least s.cursor.token = true) :
    P.Agree (P.Gives P.tree) (operation P.left nested tighter left s)
      (operation P.right nested' tighter' (P.tree left) s') := by
  obtain ⟨precedence, hprecedence, hleast⟩ := bindsFrom_iff.mp hgo
  unfold Parse.operation
  refine .offset h fun start _ => ?_
  refine .token h fun token htoken => ?_
  split
  · next op =>
      rw [htoken] at hprecedence
      cases hprecedence
      refine .descend h fun t t' ht hcursor => ?_
      have hop : t.cursor.token = .operator op := by rw [hcursor, htoken]
      refine .advance ht (by simp [hop]) fun u u' hu hstarts => ?_
      refine .bind (signedPath hn hu (hstarts (by rw [hop]; rfl))) ?_
      rintro operand v _ v' ⟨rfl, hv⟩
      refine .bind (repeatWhile (f := P.tree) rfl rfl ?_ ?_ hv) ?_
      · intro right s e t hgo' hr
        obtain ⟨precedence', hprecedence', hleast'⟩ := bindsFrom_iff.mp hgo'
        rw [token_bind, hprecedence'] at hr
        exact hshort (by omega)
          (bindsFrom_iff.mpr ⟨precedence', hprecedence', Nat.le_refl _⟩) hr
      · intro right s s' h hgo'
        obtain ⟨precedence', hprecedence', hleast'⟩ := bindsFrom_iff.mp hgo'
        refine .token h fun token htoken => ?_
        subst htoken
        rw [hprecedence']
        exact htighter (by omega) h
      · rintro right w _ w' ⟨rfl, hw⟩
        exact .pure ⟨rfl, hw⟩
  · next op =>
      refine .descend h fun t t' ht hcursor => ?_
      have hop : t.cursor.token = .typeOperator op := by rw [hcursor, htoken]
      refine .bind (typeOperation ht (by simp [hop])) ?_
      rintro typed u _ u' ⟨rfl, hu⟩
      refine .bind (endTypeOperation hu) ?_
      rintro _ v _ v' ⟨rfl, hv⟩
      exact .pure ⟨rfl, hv⟩
  · exact .pure ⟨rfl, h⟩

/-- Operators come out alike, as long as there are tiers for all precedences. -/
theorem operations (hn : P.Alike nested nested') (tiers : Nat) :
    ∀ {least : Nat} {left : Expr} {s s' : ParseState}, 16 ≤ tiers + least → P.Linked s s' →
      P.Agree (P.Gives P.tree) (operations P.left nested tiers least left s)
        (operations P.right nested' tiers least (P.tree left) s') := by
  induction tiers with
  | zero =>
      intro least left s s' _ h
      exact .pure ⟨rfl, h⟩
  | succ tiers ih =>
      intro least left s s' htiers h
      -- what is known of the first reader is that it reads on in every round
      have hround : ∀ {least' right} {s : ParseState} {e t}, least < least' →
          bindsFrom least' s.cursor.token = true →
            Parse.operations P.left nested tiers least' right s = .ok e t →
              s.cursor.Shortens t.cursor := fun hlt hgo hr =>
        ((MirrorsOn.operations (d := 0) hn.within tiers (by omega)).2 hgo).2 _ _ hr
      have htighter : ∀ {least' right} {s s' : ParseState}, least < least' → P.Linked s s' →
          P.Agree (P.Gives P.tree) (Parse.operations P.left nested tiers least' right s)
            (Parse.operations P.right nested' tiers least' (P.tree right) s') :=
        fun hlt h => ih (by omega) h
      refine nesting h (repeatWhile rfl rfl (fun left s e t hgo hr => ?_)
        (fun left s s' h hgo => operation hn hround htighter h hgo) h)
      have hmirrors : MirrorsOn P.left Place.expr
          (Parse.operation P.left nested (Parse.operations P.left nested tiers) left)
          (fun k => Parse.operation P.left nested (Parse.operations P.left nested tiers)
            (k.expr left)) s 0 :=
        .operation hn.within
          (fun hlt hgo => (MirrorsOn.operations hn.within tiers (by omega)).2 hgo) hgo
      exact hmirrors.2 e t hr

theorem operatorExpression (hn : P.Alike nested nested') (h : P.Linked s s')
    (hs : P.Starts s.cursor) :
    P.Agree (P.Gives P.tree) (operatorExpression P.left nested s)
      (operatorExpression P.right nested' s') := by
  refine .bind (signedPath hn h hs) ?_
  rintro operand t _ t' ⟨rfl, ht⟩
  exact operations hn _ (by decide) ht

/-! ### Bindings and conditionals -/

theorem clause (hn : P.Alike nested nested') (h : P.Linked s s') :
    P.Agree (P.Gives P.relocation.clause) (clause P.left nested s)
      (clause P.right nested' s') := by
  unfold Parse.clause
  refine .skip h (by simp) fun t t' ht _ => ?_
  refine .expect ht fun hname => ?_
  refine .value ht fun lexical _ => ?_
  refine .bind (TypeAnswers.expandName ht lexical false) ?_
  rintro _ _ name _ ⟨rfl, rfl, rfl⟩
  refine .advance ht (by simp [hname]) fun u u' hu _ => ?_
  refine .skip hu (by simp) fun v v' hv hstarts => ?_
  refine .bind (hn.agree hv (hstarts rfl)) ?_
  rintro domain w _ w' ⟨rfl, hw⟩
  refine .bind (declare hw) ?_
  rintro bound x _ x' ⟨rfl, hx⟩
  exact .pure ⟨rfl, hx⟩

theorem actionToken_opens (kind : BindingKind) :
    (actionToken kind).opensExpression = true ∧ actionToken kind ≠ .rightBrace := by
  cases kind <;> exact ⟨rfl, nofun⟩

/-- Clauses and action come out alike, and the types of the variables with them. -/
theorem bindingExpression {kind : BindingKind} (hn : P.Alike nested nested')
    (h : P.Linked s s')
    (hs : s.cursor.token.opensExpression = true ∧ s.cursor.token ≠ .rightBrace) :
    P.Agree (P.Gives P.tree) (bindingExpression P.left nested kind s)
      (bindingExpression P.right nested' kind s') := by
  obtain ⟨hopens, hbrace⟩ := actionToken_opens kind
  have hparts : P.Agree (P.Gives fun p : List Clause × Expr =>
        (p.1.map P.relocation.clause, P.tree p.2))
      ((do
        Parse.advance P.left
        let clauses ← Parse.commaSeparated P.left (Parse.clause P.left nested)
        Parse.skip P.left (actionToken kind)
        return (clauses, ← nested)) s)
      ((do
        Parse.advance P.right
        let clauses ← Parse.commaSeparated P.right (Parse.clause P.right nested')
        Parse.skip P.right (actionToken kind)
        return (clauses, ← nested')) s') := by
    refine .advance h hs.2 fun t t' ht hstarts => ?_
    refine .bind (commaSeparated (fun s a t hr => (Mirrors.clause (d := 0) hn.within a t hr).1)
      (fun h _ => clause hn h) ht (hstarts hs.1)) ?_
    rintro clauses u _ u' ⟨rfl, hu⟩
    refine .skip hu hbrace fun v v' hv hstarts => ?_
    refine .bind (hn.agree hv (hstarts hopens)) ?_
    rintro action w _ w' ⟨rfl, hw⟩
    exact .pure ⟨rfl, hw⟩
  unfold Parse.bindingExpression
  refine .offset h fun start _ => ?_
  refine .bind (binding h hparts) ?_
  rintro p t _ t' ⟨rfl, ht⟩
  exact .pure ⟨(Relocation.relocate_nestClauses Answers.mild start kind [] _ _).symm, ht⟩

theorem conditional (hn : P.Alike nested nested') (h : P.Linked s s')
    (hs : s.cursor.token = .ifWord) :
    P.Agree (P.Gives P.tree) (conditional P.left nested s)
      (conditional P.right nested' s') := by
  unfold Parse.conditional
  refine .offset h fun start _ => ?_
  refine .advance h (by simp [hs]) fun t t' ht hstarts => ?_
  refine .bind (expression hn ht (hstarts (by rw [hs]; rfl))) ?_
  rintro condition u _ u' ⟨rfl, hu⟩
  refine .skip hu (by simp) fun v v' hv _ => ?_
  refine .skip hv (by simp) fun w w' hw hstarts => ?_
  refine .bind (hn.agree hw (hstarts rfl)) ?_
  rintro yes x _ x' ⟨rfl, hx⟩
  refine .skip hx (by simp) fun y y' hy hstarts => ?_
  refine .bind (hn.agree hy (hstarts rfl)) ?_
  rintro no z _ z' ⟨rfl, hz⟩
  exact .pure ⟨rfl, hz⟩

/-! ### All expressions -/

/-- A single expression comes out alike, whatever it starts with. -/
theorem singleWith (hn : P.Alike nested nested') (h : P.Linked s s') (hs : P.Starts s.cursor) :
    P.Agree (P.Gives P.tree) (singleWith P.left nested s) (singleWith P.right nested' s') := by
  unfold Parse.singleWith
  refine nesting h ?_
  refine .descend h fun t t' ht hcursor => ?_
  refine .token ht fun token htoken => ?_
  rw [← hcursor] at hs
  split
  · exact bindingExpression hn ht ⟨by rw [htoken]; rfl, by simp [htoken]⟩
  · exact bindingExpression hn ht ⟨by rw [htoken]; rfl, by simp [htoken]⟩
  · exact bindingExpression hn ht ⟨by rw [htoken]; rfl, by simp [htoken]⟩
  · exact conditional hn ht htoken
  · exact operatorExpression hn ht hs

end Agree

/-- Expressions within others come out alike at every level, by induction on the levels. -/
theorem alike [P.Answers] (n : Nat) :
    P.Alike (singleWithin P.left n) (singleWithin P.right n) := by
  induction n with
  | zero => exact ⟨singleWithin_mirrors 0 0, fun h _ => .reject h rfl⟩
  | succ n ih => exact ⟨singleWithin_mirrors _ _, fun h hs => .singleWith ih h hs⟩

namespace Agree

variable [P.Answers] {s s' : ParseState}

/-- An expression and the token that ends it. -/
theorem untilToken {terminator : Token} (hend : terminator = .rightBrace →
      ∀ c c', P.Beside c c' → c.token = .eof → P.Failing c (report P.left c .unclosedTemplate) c'
        (report P.right c' .unclosedTemplate))
    (h : P.Linked s s') (hs : P.Starts s.cursor) :
    P.Agree (fun e t e' t' => P.Gives P.tree e t e' t' ∧ t.cursor.token = terminator)
      (untilToken P.left terminator s) (untilToken P.right terminator s') := by
  refine .bind (expression (alike _) h hs) ?_
  rintro e t _ t' ⟨rfl, ht⟩
  refine .token ht fun token htoken => ?_
  split
  · next hdone => exact .pure ⟨⟨rfl, ht⟩, htoken.trans hdone⟩
  · split
    · next hunclosed =>
        exact .fail (hend hunclosed.2 _ _ ht.cursor (htoken.trans hunclosed.1)) ht.nextId
          ht.warnings
    · exact .found ht fun shown => .reject ht rfl

/-- A source from its start to the token that ends it. -/
theorem complete {terminator : Token} (hend : terminator = .rightBrace →
      ∀ c c', P.Beside c c' → c.token = .eof → P.Failing c (report P.left c .unclosedTemplate) c'
        (report P.right c' .unclosedTemplate))
    (h : P.Linked s s') (hs : s.cursor.token = .eof) :
    P.Agree (fun e t e' t' => P.Gives P.tree e t e' t' ∧ t.cursor.token = terminator)
      (complete P.left terminator s) (complete P.right terminator s') :=
  .advance h (by simp [hs]) fun _ _ ht hstarts =>
    untilToken hend ht (hstarts (by rw [hs]; rfl))

end Agree

end Pair

end XPath
