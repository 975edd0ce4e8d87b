import XPath.Proofs.Scanning

/-!
# The stages of a production

When a production gives an expression, each of its steps has given a value. One lemma for each
production says which steps these were and what has been made of their values, so that a result
is known from its steps without another look at the production. Levels that have been taken are
part of the state in which the next step starts.
-/

namespace XPath.Parse

variable {σ : Setting} {nested : Parse Expr} {s t : ParseState} {e : Expr}

/-! ### Lists -/

/-- What the first part establishes and every further part with the comma before it keeps holds
of all parts. -/
theorem commaSeparated_ok {α : Type} {part : Parse α} {I : List α → ParseState → Prop} {as : List α}
    (first : ∀ a u, part s = .ok a u → I [a] u)
    (further : ∀ as u v w a b, I as u → advance σ u = .ok b v → part v = .ok a w →
      I (as ++ [a]) w)
    (h : commaSeparated σ part s = .ok as t) : I as t ∧ as ≠ [] := by
  unfold commaSeparated at h
  obtain ⟨a, u, hu, h⟩ := bind_ok.mp h
  obtain ⟨others, v, hv, h⟩ := bind_ok.mp h
  obtain ⟨rfl, rfl⟩ := pure_ok.mp h
  refine ⟨?_, List.cons_ne_nil _ _⟩
  refine repeatWhile_ok (I := fun others v => I (a :: others.reverse) v) ?_ (first a u hu) hv
  -- the further parts are collected in reverse, so those read so far are `a :: others.reverse`
  intro others v others' w hI _ hround
  obtain ⟨b, v', hb, hround⟩ := bind_ok.mp hround
  obtain ⟨a', w', ha', hround⟩ := bind_ok.mp hround
  obtain ⟨rfl, rfl⟩ := pure_ok.mp hround
  have := further _ v v' w' a' b hI hb ha'
  simpa using this

/-- An item alone is the expression, and several are a sequence. -/
theorem expression_ok (h : expression σ nested s = .ok e t) :
    ∃ items, commaSeparated σ nested s = .ok items t ∧
      (items = [e] ∨ e = .sequence s.cursor.offset items ∧ ∀ item, items ≠ [item]) := by
  unfold expression at h
  rw [offset_bind] at h
  obtain ⟨items, u, hu, h⟩ := bind_ok.mp h
  split at h
  · obtain ⟨rfl, rfl⟩ := pure_ok.mp h
    exact ⟨_, hu, .inl rfl⟩
  · next hseveral =>
      obtain ⟨rfl, rfl⟩ := pure_ok.mp h
      exact ⟨items, hu, .inr ⟨rfl, hseveral⟩⟩

/-! ### Literals and variables -/

theorem leaf_ok {make : Nat → Expr} (h : leaf σ make s = .ok e t) :
    advance σ s = .ok () t ∧ e = make s.cursor.offset := by
  unfold leaf at h
  rw [offset_bind] at h
  obtain ⟨_, u, hu, h⟩ := bind_ok.mp h
  obtain ⟨rfl, rfl⟩ := pure_ok.mp h
  exact ⟨hu, rfl⟩

theorem numericLiteral_ok (h : numericLiteral σ s = .ok e t) :
    ∃ number, Literal.ofNumber? s.cursor.value = some number ∧
      leaf σ (fun start => .literal start number) s = .ok e t := by
  unfold numericLiteral at h
  rw [value_bind] at h
  cases hnumber : Literal.ofNumber? s.cursor.value with
  | none =>
      rw [hnumber] at h
      exact absurd h reject_ne_ok
  | some number =>
      rw [hnumber] at h
      exact ⟨number, rfl, h⟩

/-- A variable is the innermost one of its name in scope, else one of the host. -/
theorem variableReference_ok (h : variableReference σ s = .ok e t) :
    ∃ u v name, advance σ s = .ok () u ∧ u.cursor.token = .name ∧ advance σ u = .ok () v ∧
      expandName σ u.cursor.value false v = .ok name t ∧
      ((∃ found, t.scope.find? (·.name = name) = some found ∧
          e = .varRef s.cursor.offset (.range found)) ∨
        ∃ type, t.scope.find? (·.name = name) = none ∧ σ.host.variableType name = .ok type ∧
          e = .varRef s.cursor.offset (.declared name type)) := by
  unfold variableReference at h
  rw [offset_bind] at h
  obtain ⟨_, u, hu, h⟩ := bind_ok.mp h
  obtain ⟨_, v, hv, h⟩ := bind_ok.mp h
  obtain ⟨htoken, rfl⟩ := expect_ok hv
  rw [value_bind] at h
  obtain ⟨_, v, hv, h⟩ := bind_ok.mp h
  obtain ⟨name, w, hw, h⟩ := bind_ok.mp h
  rw [get_bind] at h
  cases hfind : w.scope.find? (·.name = name) with
  | some found =>
      rw [hfind] at h
      obtain ⟨rfl, rfl⟩ := pure_ok.mp h
      exact ⟨u, v, name, hu, htoken, hv, hw, .inl ⟨found, hfind, rfl⟩⟩
  | none =>
      rw [hfind] at h
      cases htype : σ.host.variableType name with
      | ok type =>
          rw [htype] at h
          obtain ⟨rfl, rfl⟩ := pure_ok.mp h
          exact ⟨u, v, name, hu, htoken, hv, hw, .inr ⟨type, hfind, htype, rfl⟩⟩
      | error err =>
          rw [htype] at h
          dsimp only at h
          split at h
          · exact absurd h reject_ne_ok
          · exact absurd h fail_ne_ok

/-! ### Steps without predicates -/

theorem bareStep_ok {startsPattern : Bool} (h : bareStep σ startsPattern s = .ok e t) :
    ∃ test, nodeTest σ .element s = .ok test t ∧ e = .axisStep s.cursor.offset
      (impliedAxis s.cursor.token s.cursor.value startsPattern) test := by
  unfold bareStep at h
  rw [offset_bind, token_bind, value_bind] at h
  obtain ⟨test, u, hu, h⟩ := bind_ok.mp h
  obtain ⟨rfl, rfl⟩ := pure_ok.mp h
  exact ⟨test, hu, rfl⟩

theorem attributeStep_ok (h : attributeStep σ s = .ok e t) :
    ∃ u test, advance σ s = .ok () u ∧ nodeTest σ .attribute u = .ok test t ∧
      e = .axisStep s.cursor.offset .attribute test := by
  unfold attributeStep at h
  rw [offset_bind] at h
  obtain ⟨_, u, hu, h⟩ := bind_ok.mp h
  rw [token_bind] at h
  dsimp only at h
  split at h
  · obtain ⟨_, _, hfail, -⟩ := bind_ok.mp h
    exact absurd hfail reject_ne_ok
  · obtain ⟨test, v, hv, h⟩ := bind_ok.mp h
    obtain ⟨rfl, rfl⟩ := pure_ok.mp h
    exact ⟨u, test, hu, hv, rfl⟩

theorem axisStep_ok (h : axisStep σ s = .ok e t) :
    ∃ axis u test, Axis.ofName? s.cursor.value = some axis ∧ advance σ s = .ok () u ∧
      nodeTest σ axis.principalKind u = .ok test t ∧
      e = .axisStep s.cursor.offset axis test := by
  unfold axisStep at h
  rw [offset_bind, value_bind] at h
  cases haxis : Axis.ofName? s.cursor.value with
  | none =>
      rw [haxis] at h
      exact absurd h reject_ne_ok
  | some axis =>
      rw [haxis] at h
      obtain ⟨_, u, hu, h⟩ := bind_ok.mp h
      rw [token_bind] at h
      dsimp only at h
      split at h
      · obtain ⟨_, _, -, h⟩ := bind_ok.mp h
        obtain ⟨_, _, hfail, -⟩ := bind_ok.mp h
        exact absurd hfail reject_ne_ok
      · obtain ⟨test, v, hv, h⟩ := bind_ok.mp h
        obtain ⟨rfl, rfl⟩ := pure_ok.mp h
        exact ⟨axis, u, test, rfl, hu, hv, rfl⟩

/-! ### Calls and parentheses -/

theorem arguments_ok {args : List Expr} (h : arguments σ nested s = .ok args t) :
    (args = [] ∧ advance σ s = .ok () t) ∨
      ∃ u, commaSeparated σ nested s = .ok args u ∧ skip σ .rightParen u = .ok () t := by
  unfold arguments at h
  rw [token_bind] at h
  split at h
  · obtain ⟨_, u, hu, h⟩ := bind_ok.mp h
    obtain ⟨rfl, rfl⟩ := pure_ok.mp h
    exact .inl ⟨rfl, hu⟩
  · obtain ⟨es, u, hu, h⟩ := bind_ok.mp h
    obtain ⟨_, v, hv, h⟩ := bind_ok.mp h
    obtain ⟨rfl, rfl⟩ := pure_ok.mp h
    exact .inr ⟨u, hu, hv⟩

/-- A call of a known function stays one or becomes a literal. -/
theorem callIn_ok {start : Nat} {function : FunctionBinding} {args : List Expr}
    (h : callIn σ start function args s = .ok e t) :
    (e = .call start function args ∨ ∃ value, e = .literal start value) ∧ s = t := by
  unfold callIn at h
  cases hl : σ.language <;> cases hk : function.kind <;> simp only [hl, hk] at h
  all_goals first
    | exact absurd h reject_ne_ok
    | obtain ⟨rfl, rfl⟩ := pure_ok.mp h
      first
        | exact ⟨.inl rfl, rfl⟩
        | exact ⟨.inr ⟨_, rfl⟩, rfl⟩

/-- A call is kept, unless it makes a name of a string literal. -/
theorem knownCall_cases (start : Nat) (function : FunctionBinding) (args : List Expr) :
    knownCall σ start function args = callIn σ start function args ∨
      (∃ value, knownCall σ start function args = pure (.literal start value)) ∨
      ∃ fault, knownCall σ start function args = reject σ fault := by
  unfold knownCall
  split
  · split
    · next literal _ => exact .inr (.inl ⟨literal, rfl⟩)
    · next fault _ => exact .inr (.inr ⟨fault, rfl⟩)
  · exact .inl rfl

theorem knownCall_ok {start : Nat} {function : FunctionBinding} {args : List Expr}
    (h : knownCall σ start function args s = .ok e t) :
    (e = .call start function args ∨ ∃ value, e = .literal start value) ∧ s = t := by
  rcases knownCall_cases start function args with hcall | ⟨value, hcall⟩ | ⟨fault, hcall⟩
  · rw [hcall] at h
    exact callIn_ok h
  · rw [hcall] at h
    obtain ⟨rfl, rfl⟩ := pure_ok.mp h
    exact ⟨.inr ⟨value, rfl⟩, rfl⟩
  · rw [hcall] at h
    exact absurd h reject_ne_ok

theorem unknownCall_ok {start arity : Nat} {name : ExpandedName}
    (h : unknownCall σ start name arity s = .ok e t) : (∃ err, e = .raise start err) ∧ s = t := by
  unfold unknownCall at h
  split at h
  · obtain ⟨rfl, rfl⟩ := pure_ok.mp h
    exact ⟨⟨_, rfl⟩, rfl⟩
  · exact absurd h reject_ne_ok

/-- A call that is read may also be left to fail, and only a call that is kept has its arguments
as parts. -/
theorem functionCall_ok (h : functionCall σ nested s = .ok e t) :
    ∃ u args, advance σ s = .ok () u ∧ arguments σ nested u = .ok args t ∧
      ((∃ function, e = .call s.cursor.offset function args) ∨
        (∃ value, e = .literal s.cursor.offset value) ∨
        ∃ err, e = .raise s.cursor.offset err) := by
  unfold functionCall at h
  rw [offset_bind, value_bind] at h
  obtain ⟨name, u, hu, h⟩ := bind_ok.mp h
  obtain ⟨rfl, -⟩ := Stateless.functionName _ _ _ _ hu
  obtain ⟨_, u, hu, h⟩ := bind_ok.mp h
  obtain ⟨args, v, hv, h⟩ := bind_ok.mp h
  obtain ⟨function?, w, hw, h⟩ := bind_ok.mp h
  obtain ⟨-, rfl⟩ := ask_ok hw
  cases function? with
  | none =>
      obtain ⟨hraise, rfl⟩ := unknownCall_ok h
      exact ⟨u, args, hu, hv, .inr (.inr hraise)⟩
  | some function =>
      obtain ⟨hcall | hvalue, rfl⟩ := knownCall_ok h
      · exact ⟨u, args, hu, hv, .inl ⟨function, hcall⟩⟩
      · exact ⟨u, args, hu, hv, .inr (.inl hvalue)⟩

theorem parenthesized_ok (h : parenthesized σ nested s = .ok e t) :
    ∃ u, advance σ s = .ok () u ∧
      ((advance σ u = .ok () t ∧ e = .literal s.cursor.offset .emptySequence) ∨
        ∃ v, expression σ nested u = .ok e v ∧ skip σ .rightParen v = .ok () t) := by
  unfold parenthesized at h
  rw [offset_bind] at h
  obtain ⟨_, u, hu, h⟩ := bind_ok.mp h
  rw [token_bind] at h
  split at h
  · obtain ⟨_, v, hv, h⟩ := bind_ok.mp h
    obtain ⟨rfl, rfl⟩ := pure_ok.mp h
    exact ⟨u, hu, .inl ⟨hv, rfl⟩⟩
  · obtain ⟨inner, v, hv, h⟩ := bind_ok.mp h
    obtain ⟨_, w, hw, h⟩ := bind_ok.mp h
    obtain ⟨rfl, rfl⟩ := pure_ok.mp h
    exact ⟨u, hu, .inr ⟨v, hv, hw⟩⟩

/-! ### Paths -/

theorem predicate_ok {base : Expr} (h : predicate σ nested base s = .ok e t) :
    ∃ u condition v, s.depth + 1 ≤ maxDepth ∧
      advance σ { s with depth := s.depth + 1 } = .ok () u ∧
      expression σ nested u = .ok condition v ∧ skip σ .rightBracket v = .ok () t ∧
      e = .filter s.cursor.offset base condition := by
  unfold predicate at h
  rw [offset_bind] at h
  obtain ⟨_, u, hu, h⟩ := bind_ok.mp h
  obtain ⟨hmax, rfl⟩ := descend_ok hu
  obtain ⟨_, u, hu, h⟩ := bind_ok.mp h
  obtain ⟨condition, v, hv, h⟩ := bind_ok.mp h
  obtain ⟨_, w, hw, h⟩ := bind_ok.mp h
  obtain ⟨rfl, rfl⟩ := pure_ok.mp h
  exact ⟨u, condition, v, hmax, hu, hv, hw, rfl⟩

/-- A step against the order of the document is put back into it behind its predicates. -/
theorem step_ok {startsPattern : Bool} (h : step σ nested startsPattern s = .ok e t) :
    ∃ base u filtered v, primary σ nested startsPattern s = .ok base u ∧
      repeatWhile (· = .leftBracket) (predicate σ nested) base u = .ok filtered v ∧
      t = { v with depth := s.depth } ∧
      e = if isReverseStep base then .reverse filtered.offset filtered else filtered := by
  obtain ⟨v, hv, rfl⟩ := nesting_ok h
  obtain ⟨base, u, hu, hv⟩ := bind_ok.mp hv
  obtain ⟨filtered, w, hw, hv⟩ := bind_ok.mp hv
  obtain ⟨rfl, rfl⟩ := pure_ok.mp hv
  exact ⟨base, u, filtered, w, hu, hw, rfl, rfl⟩

theorem furtherStep_ok {before : Expr} (h : furtherStep σ nested before s = .ok e t) :
    ∃ u next, s.depth + separatorLevels s.cursor.token ≤ maxDepth ∧
      advance σ { s with depth := s.depth + separatorLevels s.cursor.token } = .ok () u ∧
      step σ nested false u = .ok next t ∧
      e = joinStep s.cursor.offset s.cursor.token before next := by
  unfold furtherStep at h
  rw [token_bind, offset_bind] at h
  obtain ⟨_, u, hu, h⟩ := bind_ok.mp h
  obtain ⟨hmax, rfl⟩ := descend_ok hu
  obtain ⟨_, u, hu, h⟩ := bind_ok.mp h
  obtain ⟨next, v, hv, h⟩ := bind_ok.mp h
  obtain ⟨rfl, rfl⟩ := pure_ok.mp h
  exact ⟨u, next, hmax, hu, hv, rfl⟩

/-- Behind the root, the separator is read before its levels are taken. -/
theorem furtherStepFromRoot_ok {before : Expr}
    (h : furtherStepFromRoot σ nested before s = .ok e t) :
    ∃ u next, advance σ s = .ok () u ∧
      u.depth + separatorLevels s.cursor.token ≤ maxDepth ∧
      step σ nested false { u with depth := u.depth + separatorLevels s.cursor.token } =
        .ok next t ∧
      e = joinStep s.cursor.offset s.cursor.token before next := by
  unfold furtherStepFromRoot at h
  rw [token_bind, offset_bind] at h
  obtain ⟨_, u, hu, h⟩ := bind_ok.mp h
  obtain ⟨_, v, hv, h⟩ := bind_ok.mp h
  obtain ⟨hmax, rfl⟩ := descend_ok hv
  obtain ⟨next, v, hv, h⟩ := bind_ok.mp h
  obtain ⟨rfl, rfl⟩ := pure_ok.mp h
  exact ⟨u, next, hu, hmax, hv, rfl⟩

/-- The slash is the whole path when no step follows. -/
theorem rootedPath_ok (h : rootedPath σ nested s = .ok e t) :
    ∃ u, advance σ s = .ok () u ∧
      (pathFrom σ nested s.cursor.offset (.root s.cursor.offset) u = .ok e t ∨
        e = .root s.cursor.offset ∧ u = t) := by
  unfold rootedPath at h
  rw [offset_bind] at h
  obtain ⟨_, u, hu, h⟩ := bind_ok.mp h
  rw [token_bind] at h
  refine ⟨u, hu, ?_⟩
  cases htoken : u.cursor.token
  case typeOperator op =>
    rw [htoken] at h
    exact absurd h reject_ne_ok
  all_goals
    rw [htoken] at h
    dsimp only at h
    split at h
    · exact .inl h
    · obtain ⟨rfl, rfl⟩ := pure_ok.mp h
      exact .inr ⟨rfl, rfl⟩

theorem descendantPath_ok (h : descendantPath σ nested s = .ok e t) :
    ∃ u, advance σ s = .ok () u ∧ pathFrom σ nested s.cursor.offset
      (.path s.cursor.offset (.root s.cursor.offset) (anyDescendant s.cursor.offset)) u =
        .ok e t := by
  unfold descendantPath at h
  rw [offset_bind] at h
  obtain ⟨_, u, hu, h⟩ := bind_ok.mp h
  exact ⟨u, hu, h⟩

/-! ### Operations -/

theorem sign_ok {signs signs' : List (Sign × Nat)} (h : sign σ signs s = .ok signs' t) :
    (signs' = signs ∧ s = t) ∨
      ∃ kind, sign? s.cursor.token = some kind ∧ s.depth + 1 ≤ maxDepth ∧
        advance σ { s with depth := s.depth + 1 } = .ok () t ∧
        signs' = (kind, s.cursor.offset) :: signs := by
  unfold sign at h
  rw [token_bind] at h
  cases hsign : sign? s.cursor.token with
  | none =>
      rw [hsign] at h
      obtain ⟨rfl, rfl⟩ := pure_ok.mp h
      exact .inl ⟨rfl, rfl⟩
  | some kind =>
      rw [hsign] at h
      obtain ⟨_, u, hu, h⟩ := bind_ok.mp h
      obtain ⟨hmax, rfl⟩ := descend_ok hu
      rw [offset_bind] at h
      obtain ⟨_, u, hu, h⟩ := bind_ok.mp h
      obtain ⟨rfl, rfl⟩ := pure_ok.mp h
      exact .inr ⟨kind, rfl, hmax, hu, rfl⟩

theorem signedPath_ok (h : signedPath σ nested s = .ok e t) :
    ∃ signs u operand v, repeatWhile (fun t => (sign? t).isSome) (sign σ) [] s = .ok signs u ∧
      pathExpression σ nested u = .ok operand v ∧ t = { v with depth := s.depth } ∧
      e = applySigns operand signs := by
  obtain ⟨v, hv, rfl⟩ := nesting_ok h
  obtain ⟨signs, u, hu, hv⟩ := bind_ok.mp hv
  obtain ⟨operand, w, hw, hv⟩ := bind_ok.mp hv
  obtain ⟨rfl, rfl⟩ := pure_ok.mp hv
  exact ⟨signs, u, operand, w, hu, hw, rfl, rfl⟩

/-- A cast is kept, unless it is decided at once for a string literal. -/
theorem cast_cases (start : Nat) (castable : Bool) (operand : Expr) (type : SingleType) :
    (∃ op, cast σ start castable operand type = pure (.typed start op operand)) ∨
      (∃ value, cast σ start castable operand type = pure (.literal start value)) ∨
      ∃ fault, cast σ start castable operand type = reject σ fault := by
  unfold cast
  split
  · split
    · exact .inr (.inl ⟨_, rfl⟩)
    · exact .inr (.inl ⟨_, rfl⟩)
    · exact .inr (.inr ⟨_, rfl⟩)
  · exact .inl ⟨_, rfl⟩

theorem cast_ok {start : Nat} {castable : Bool} {operand : Expr} {type : SingleType}
    (h : cast σ start castable operand type s = .ok e t) :
    ((∃ op, e = .typed start op operand) ∨ ∃ value, e = .literal start value) ∧ s = t := by
  rcases cast_cases start castable operand type with ⟨op, hcast⟩ | ⟨value, hcast⟩ | ⟨fault, hcast⟩
  · rw [hcast] at h
    obtain ⟨rfl, rfl⟩ := pure_ok.mp h
    exact ⟨.inl ⟨op, rfl⟩, rfl⟩
  · rw [hcast] at h
    obtain ⟨rfl, rfl⟩ := pure_ok.mp h
    exact ⟨.inr ⟨value, rfl⟩, rfl⟩
  · rw [hcast] at h
    exact absurd h reject_ne_ok

/-- A type operator makes a node of its operand, or a literal. -/
theorem typeOperation_ok {op : TypeOperator} {start : Nat} {operand : Expr}
    (h : typeOperation σ op start operand s = .ok e t) :
    ((∃ op, e = .typed start op operand) ∨ ∃ value, e = .literal start value) ∧ Scans s t := by
  unfold typeOperation at h
  obtain ⟨_, u, hu, h⟩ := bind_ok.mp h
  have hscan : Scans s u := Scanning.advance _ _ _ hu
  cases op with
  | instanceOf =>
      obtain ⟨type, v, hv, h⟩ := bind_ok.mp h
      obtain ⟨rfl, rfl⟩ := pure_ok.mp h
      exact ⟨.inl ⟨_, rfl⟩, hscan.trans (Scanning.sequenceType _ _ _ hv)⟩
  | treatAs =>
      obtain ⟨type, v, hv, h⟩ := bind_ok.mp h
      obtain ⟨rfl, rfl⟩ := pure_ok.mp h
      exact ⟨.inl ⟨_, rfl⟩, hscan.trans (Scanning.sequenceType _ _ _ hv)⟩
  | castableAs | castAs =>
      obtain ⟨type, v, hv, h⟩ := bind_ok.mp h
      obtain ⟨he, rfl⟩ := cast_ok h
      exact ⟨he, hscan.trans (Scanning.singleType _ _ _ hv)⟩

theorem endTypeOperation_ok {precedence : Nat} {a : Unit}
    (h : endTypeOperation σ precedence s = .ok a t) : s = t := by
  unfold endTypeOperation at h
  rw [token_bind] at h
  split at h
  · exact absurd h reject_ne_ok
  · exact (pure_ok.mp h).2

/-- What an operator reads behind its right operand. -/
def rightOperand (tighter : Nat → Expr → Parse Expr) (least : Nat) : Expr → Parse Expr :=
  repeatWhile (bindsFrom least) fun right => do
    match (← token).precedence? with
    | some k => tighter k right
    | none => return right

/-- What the tighter operators keep holds of the right operand with all of them. -/
theorem rightOperand_ok {tighter : Nat → Expr → Parse Expr} {least : Nat}
    {I : Expr → ParseState → Prop} {operand : Expr}
    (step : ∀ k a s b t, I a s → tighter k a s = .ok b t → I b t) (hI : I operand s)
    (h : rightOperand tighter least operand s = .ok e t) : I e t := by
  refine repeatWhile_ok (fun right u b v hI _ hround => ?_) hI h
  rw [token_bind] at hround
  cases hprecedence : u.cursor.token.precedence? with
  | some k =>
      rw [hprecedence] at hround
      exact step k right u b v hI hround
  | none =>
      rw [hprecedence] at hround
      obtain ⟨rfl, rfl⟩ := pure_ok.mp hround
      exact hI

/-- A left operand gets an operator and a right operand, or a type operator, or stays as it is. -/
theorem operation_ok {tighter : Nat → Expr → Parse Expr} {left : Expr}
    (h : operation σ nested tighter left s = .ok e t) :
    (∃ op u operand v right, s.cursor.token = .operator op ∧ s.depth + 1 ≤ maxDepth ∧
        advance σ { s with depth := s.depth + 1 } = .ok () u ∧
        signedPath σ nested u = .ok operand v ∧
        rightOperand tighter (op.precedence + 1) operand v = .ok right t ∧
        e = .binary s.cursor.offset op left right) ∨
      (∃ op, s.cursor.token = .typeOperator op ∧ s.depth + 1 ≤ maxDepth ∧
        typeOperation σ op s.cursor.offset left { s with depth := s.depth + 1 } = .ok e t) ∨
      left = e ∧ s = t := by
  unfold operation at h
  rw [offset_bind, token_bind] at h
  cases htoken : s.cursor.token <;> rw [htoken] at h
  case operator op =>
    obtain ⟨_, u, hu, h⟩ := bind_ok.mp h
    obtain ⟨hmax, rfl⟩ := descend_ok hu
    obtain ⟨_, u, hu, h⟩ := bind_ok.mp h
    obtain ⟨operand, v, hv, h⟩ := bind_ok.mp h
    obtain ⟨right, w, hw, h⟩ := bind_ok.mp h
    obtain ⟨rfl, rfl⟩ := pure_ok.mp h
    exact .inl ⟨op, u, operand, v, right, rfl, hmax, hu, hv, hw, rfl⟩
  case typeOperator op =>
    obtain ⟨_, u, hu, h⟩ := bind_ok.mp h
    obtain ⟨hmax, rfl⟩ := descend_ok hu
    obtain ⟨typed, u, hu, h⟩ := bind_ok.mp h
    obtain ⟨_, v, hv, h⟩ := bind_ok.mp h
    obtain ⟨rfl, rfl⟩ := pure_ok.mp h
    obtain rfl := endTypeOperation_ok hv
    exact .inr (.inl ⟨op, rfl, hmax, hu⟩)
  all_goals exact .inr (.inr (pure_ok.mp h))

/-! ### Bindings and conditionals -/

/-- The variable of a clause comes into scope behind its domain. -/
theorem clause_ok {c : Clause} (h : clause σ nested s = .ok c t) :
    ∃ u name domain v, Scans s u ∧ nested u = .ok domain v ∧
      c = ⟨⟨v.nextId, name, .singleItem⟩, domain⟩ ∧
      t = { v with scope := c.bound :: v.scope, nextId := v.nextId + 1 } := by
  unfold clause at h
  obtain ⟨_, u₁, h₁, h⟩ := bind_ok.mp h
  obtain ⟨_, u₂, h₂, h⟩ := bind_ok.mp h
  rw [value_bind] at h
  obtain ⟨name, u₃, h₃, h⟩ := bind_ok.mp h
  obtain ⟨_, u₄, h₄, h⟩ := bind_ok.mp h
  obtain ⟨_, u₅, h₅, h⟩ := bind_ok.mp h
  obtain ⟨domain, v, hv, h⟩ := bind_ok.mp h
  obtain ⟨bound, w, hw, h⟩ := bind_ok.mp h
  obtain ⟨rfl, rfl⟩ := pure_ok.mp h
  obtain ⟨rfl, rfl⟩ := declare_ok hw
  have hscan : Scans s u₅ := (Scanning.skip _ _ _ _ h₁).trans ((Scanning.expect _ _ _ _ h₂).trans
    ((Scanning.expandName _ _ _ _ _ h₃).trans ((Scanning.advance _ _ _ h₄).trans
      (Scanning.skip _ _ _ _ h₅))))
  exact ⟨u₅, name, domain, v, hscan, hv, rfl, rfl⟩

/-- The variables of a binding are in scope up to its end. -/
theorem bindingExpression_ok {kind : BindingKind}
    (h : bindingExpression σ nested kind s = .ok e t) :
    ∃ u clauses v w action x, advance σ s = .ok () u ∧
      commaSeparated σ (clause σ nested) u = .ok clauses v ∧
      skip σ (actionToken kind) v = .ok () w ∧ nested w = .ok action x ∧
      t = { x with scope := s.scope } ∧
      e = nestClauses s.cursor.offset kind [] clauses action := by
  unfold bindingExpression at h
  rw [offset_bind] at h
  obtain ⟨⟨clauses, action⟩, y, hy, h⟩ := bind_ok.mp h
  obtain ⟨rfl, rfl⟩ := pure_ok.mp h
  obtain ⟨x, hx, rfl⟩ := binding_ok hy
  obtain ⟨_, u, hu, hx⟩ := bind_ok.mp hx
  obtain ⟨_, v, hv, hx⟩ := bind_ok.mp hx
  obtain ⟨_, w, hw, hx⟩ := bind_ok.mp hx
  obtain ⟨_, x, haction, hx⟩ := bind_ok.mp hx
  obtain ⟨heq, rfl⟩ := pure_ok.mp hx
  cases heq
  exact ⟨u, clauses, v, w, action, x, hu, hv, hw, haction, rfl, rfl⟩

theorem conditional_ok (h : conditional σ nested s = .ok e t) :
    ∃ u condition v w yes x y no, advance σ s = .ok () u ∧
      expression σ nested u = .ok condition v ∧ Scans v w ∧ nested w = .ok yes x ∧
      skip σ .elseWord x = .ok () y ∧ nested y = .ok no t ∧
      e = .conditional s.cursor.offset condition yes no := by
  unfold conditional at h
  rw [offset_bind] at h
  obtain ⟨_, u, hu, h⟩ := bind_ok.mp h
  obtain ⟨condition, v, hv, h⟩ := bind_ok.mp h
  obtain ⟨_, v', hv', h⟩ := bind_ok.mp h
  obtain ⟨_, w, hw, h⟩ := bind_ok.mp h
  obtain ⟨yes, x, hx, h⟩ := bind_ok.mp h
  obtain ⟨_, y, hy, h⟩ := bind_ok.mp h
  obtain ⟨no, z, hz, h⟩ := bind_ok.mp h
  obtain ⟨rfl, rfl⟩ := pure_ok.mp h
  have hscan : Scans v w := (Scanning.skip _ _ _ _ hv').trans (Scanning.skip _ _ _ _ hw)
  exact ⟨u, condition, v, w, yes, x, y, no, hu, hv, hscan, hx, hy, hz, rfl⟩

/-! ### Whole expressions -/

/-- An expression that is read before a terminator ends at it. -/
theorem complete_ok {terminator : Token} (h : complete σ terminator s = .ok e t) :
    ∃ u, advance σ s = .ok () u ∧ expression σ (single σ) u = .ok e t ∧
      t.cursor.token = terminator := by
  unfold complete at h
  obtain ⟨_, u, hu, h⟩ := bind_ok.mp h
  obtain ⟨e', v, hv, h⟩ := bind_ok.mp h
  rw [token_bind] at h
  split at h
  · next hend =>
      obtain ⟨rfl, rfl⟩ := pure_ok.mp h
      exact ⟨u, hu, hv, hend⟩
  · split at h
    · exact absurd h reject_ne_ok
    · obtain ⟨_, _, -, hfail⟩ := bind_ok.mp h
      exact absurd hfail reject_ne_ok

end XPath.Parse
