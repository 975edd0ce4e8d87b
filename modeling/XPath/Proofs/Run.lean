import XPath.Parser

/-!
# Runs that succeed

What is known when a step of a reader has given a value: the value, and the state after it.
A step of two parts succeeds when both do (`bind_ok`), and the primitive steps say exactly
which fields of the state they change. A repetition keeps whatever each of its rounds keeps.
-/

namespace XPath

/-! ### The way of a cursor -/

/-- A cursor gets to another by reading tokens, and by taking one for the end of an operand. -/
inductive Cursor.Reaches (c : Cursor) : Cursor → Prop
  | refl : Reaches c c
  | advance {d e : Cursor} : Reaches c d → d.advance = (.ok (), e) → Reaches c e
  | endOperand {d : Cursor} : Reaches c d → Reaches c d.endOperand

theorem Cursor.Reaches.trans {c d e : Cursor} (hcd : c.Reaches d) (hde : d.Reaches e) :
    c.Reaches e := by
  induction hde with
  | refl => exact hcd
  | advance _ he ih => exact .advance ih he
  | endOperand _ ih => exact .endOperand ih

/-- An outcome that is no error has a value. -/
theorem exists_of_isOk {α : Type} {r : Except Error α} (h : r.isOk = true) : ∃ a, r = .ok a := by
  cases r with
  | ok a => exact ⟨a, rfl⟩
  | error e => cases h

/-- An outcome that passes a check has a value that does. -/
theorem exists_of_any {α : Type} {r : Except Error α} {c : α → Bool}
    (h : r.toOption.any c = true) : ∃ a, r = .ok a ∧ c a = true := by
  cases r with
  | ok a => exact ⟨a, rfl, h⟩
  | error e => cases h

theorem exists_of_reading {α : Type} {r : Reading α} {c : α → Bool}
    (h : r.outcome.toOption.any c = true) (hwarnings : r.warnings = []) :
    ∃ a, r = ⟨.ok a, []⟩ ∧ c a = true := by
  obtain ⟨outcome, warnings⟩ := r
  obtain ⟨a, rfl, ha⟩ := exists_of_any h
  cases hwarnings
  exact ⟨a, rfl, ha⟩

namespace Parse

variable {α β : Type} {s t u : ParseState} {σ : Setting}

/-! ### Steps in a row -/

/-- Two steps in a row give a value when both do, the second one in the state that the first one
leaves. -/
theorem bind_ok {p : Parse α} {f : α → Parse β} {b : β} :
    (p >>= f) s = .ok b t ↔ ∃ a u, p s = .ok a u ∧ f a u = .ok b t := by
  show EStateM.bind p f s = .ok b t ↔ _
  unfold EStateM.bind
  cases p s with
  | ok a u =>
      constructor
      · intro h
        exact ⟨a, u, rfl, h⟩
      · rintro ⟨a', u', heq, h⟩
        cases heq
        exact h
  | error e u => simp

theorem pure_ok {a b : α} : (pure a : Parse α) s = .ok b t ↔ a = b ∧ s = t := by
  show EStateM.Result.ok a s = .ok b t ↔ _
  simp

@[simp] theorem token_bind (f : Token → Parse β) : (token >>= f) s = f s.cursor.token s := rfl

@[simp] theorem value_bind (f : String → Parse β) : (value >>= f) s = f s.cursor.value s := rfl

@[simp] theorem offset_bind (f : Nat → Parse β) : (offset >>= f) s = f s.cursor.offset s := rfl

@[simp] theorem get_bind (f : ParseState → Parse β) : (get >>= f) s = f s s := rfl

/-! ### Primitive steps -/

theorem fail_ne_ok {e : Error} {a : α} : fail σ e s ≠ .ok a t := by
  intro h
  cases h

theorem reject_ne_ok {f : Fault} {a : α} : reject σ f s ≠ .ok a t := fail_ne_ok

theorem ask_ok {answer : Except Error α} {a : α} (h : ask σ answer s = .ok a t) :
    answer = .ok a ∧ s = t := by
  cases answer with
  | ok b =>
      obtain ⟨rfl, rfl⟩ := pure_ok.mp h
      exact ⟨rfl, rfl⟩
  | error e => exact absurd h fail_ne_ok

/-- Only the cursor changes when a token is read. -/
theorem advance_ok {a : Unit} (h : advance σ s = .ok a t) :
    ∃ c, s.cursor.advance = (.ok (), c) ∧ t = { s with cursor := c } := by
  unfold advance at h
  rw [get_bind] at h
  cases hc : s.cursor.advance with | mk outcome c =>
  simp only [hc] at h
  obtain ⟨_, u, hu, h⟩ := bind_ok.mp h
  cases hu
  cases outcome with
  | ok v =>
      obtain ⟨-, rfl⟩ := pure_ok.mp h
      exact ⟨c, rfl, rfl⟩
  | error e => exact absurd h reject_ne_ok

theorem expect_ok {k : Token} {a : Unit} (h : expect σ k s = .ok a t) :
    s.cursor.token = k ∧ s = t := by
  unfold expect at h
  rw [token_bind] at h
  split at h
  · exact absurd h (by obtain ⟨_, _, _, h⟩ := bind_ok.mp h; exact absurd h reject_ne_ok)
  · next hk =>
      obtain ⟨-, rfl⟩ := pure_ok.mp h
      exact ⟨Decidable.not_not.mp hk, rfl⟩

/-- Levels are taken as long as there are enough of them. -/
theorem descend_ok {levels : Nat} {a : Unit} (h : descend σ levels s = .ok a t) :
    s.depth + levels ≤ maxDepth ∧ t = { s with depth := s.depth + levels } := by
  obtain ⟨_, u, hu, h⟩ := bind_ok.mp h
  cases hu
  rw [get_bind] at h
  split at h
  · exact absurd h reject_ne_ok
  · next hd =>
      obtain ⟨-, rfl⟩ := pure_ok.mp h
      exact ⟨Nat.le_of_not_lt hd, rfl⟩

theorem declare_ok {name : ExpandedName} {v : RangeVariable} (h : declare name s = .ok v t) :
    v = ⟨s.nextId, name, .singleItem⟩ ∧
      t = { s with scope := v :: s.scope, nextId := s.nextId + 1 } := by
  cases h
  exact ⟨rfl, rfl⟩

/-- Whatever levels a part has taken, as many are in use after it as before. -/
theorem nesting_ok {p : Parse α} {a : α} (h : nesting p s = .ok a t) :
    ∃ u, p s = .ok a u ∧ t = { u with depth := s.depth } := by
  unfold nesting at h
  split at h
  · next hp =>
      cases h
      exact ⟨_, hp, rfl⟩
  · cases h

/-- Whatever variables a part has declared, the same ones are in scope after it as before. -/
theorem binding_ok {p : Parse α} {a : α} (h : binding p s = .ok a t) :
    ∃ u, p s = .ok a u ∧ t = { u with scope := s.scope } := by
  unfold binding at h
  split at h
  · next hp =>
      cases h
      exact ⟨_, hp, rfl⟩
  · cases h

/-! ### Repetition -/

/-- What every round keeps holds of the whole repetition. -/
theorem repeatAtMost_ok {go : Token → Bool} {part : α → Parse α} {I : α → ParseState → Prop}
    (step : ∀ a s b t, I a s → go s.cursor.token = true → part a s = .ok b t → I b t) :
    ∀ n a s b t, I a s → repeatAtMost go part n a s = .ok b t → I b t := by
  intro n
  induction n with
  | zero =>
      intro a s b t hI h
      obtain ⟨rfl, rfl⟩ := pure_ok.mp h
      exact hI
  | succ n ih =>
      intro a s b t hI h
      rw [repeatAtMost, token_bind] at h
      split at h
      · next hgo =>
          obtain ⟨a', u, hu, h⟩ := bind_ok.mp h
          exact ih a' u b t (step a s a' u hI hgo hu) h
      · obtain ⟨rfl, rfl⟩ := pure_ok.mp h
        exact hI

/-- An invariant of the rounds holds when the repetition is over. -/
theorem repeatWhile_ok {go : Token → Bool} {part : α → Parse α} {I : α → ParseState → Prop}
    (step : ∀ a s b t, I a s → go s.cursor.token = true → part a s = .ok b t → I b t)
    {a b : α} (hI : I a s) (h : repeatWhile go part a s = .ok b t) : I b t :=
  repeatAtMost_ok step _ a s b t hI h

/-! ### Carrying steps out -/

/-- A step that gives a value leaves the rest of a row to be carried out on it. -/
theorem bind_run {p : Parse α} {f : α → Parse β} {a : α} (h : p s = .ok a t) :
    (p >>= f) s = f a t := by
  show EStateM.bind p f s = _
  rw [EStateM.bind, h]

/-- Nothing of a row is carried out behind a step that fails. -/
theorem bind_fails {p : Parse α} {f : α → Parse β} {e : Error} (h : p s = .error e t) :
    (p >>= f) s = .error e t := by
  show EStateM.bind p f s = _
  rw [EStateM.bind, h]

theorem pure_run (a : α) (s : ParseState) : (pure a : Parse α) s = .ok a s := rfl

theorem advance_run {c : Cursor} (h : s.cursor.advance = (.ok (), c)) :
    advance σ s = .ok () { s with cursor := c } := by
  unfold advance
  rw [get_bind, h]
  rfl

theorem descend_run {levels : Nat} (h : s.depth + levels ≤ maxDepth) :
    descend σ levels s = .ok () { s with depth := s.depth + levels } := by
  unfold descend
  have hmodify :
      (modify fun s : ParseState => { s with depth := s.depth + levels } : Parse PUnit) s =
        .ok ⟨⟩ { s with depth := s.depth + levels } := rfl
  rw [bind_run hmodify, get_bind, if_neg (Nat.not_lt_of_le h)]
  rfl

theorem expect_run {k : Token} (h : s.cursor.token = k) : expect σ k s = .ok () s := by
  unfold expect
  rw [token_bind, if_neg (not_not_intro h)]
  rfl

theorem skip_run {k : Token} {c : Cursor} (hk : s.cursor.token = k)
    (h : s.cursor.advance = (.ok (), c)) : skip σ k s = .ok () { s with cursor := c } := by
  unfold skip
  rw [bind_run (expect_run hk), advance_run h]

theorem skipMark_run {c : Cursor} (h : s.cursor.endOperand.advance = (.ok (), c)) :
    skipMark σ s = .ok () { s with cursor := c } := by
  unfold skipMark
  have hmodify : (modify fun s : ParseState => { s with cursor := s.cursor.endOperand } :
      Parse PUnit) s = .ok ⟨⟩ { s with cursor := s.cursor.endOperand } := rfl
  rw [bind_run hmodify]
  exact advance_run h

theorem nesting_run {p : Parse α} {a : α} (h : p s = .ok a t) :
    nesting p s = .ok a { t with depth := s.depth } := by
  rw [nesting, h]

/-- Nothing changes when all levels have been given back already. -/
theorem nesting_keeps {p : Parse α} {a : α} (h : p s = .ok a t) (hd : t.depth = s.depth) :
    nesting p s = .ok a t := by
  rw [nesting_run h, ← hd]

theorem nesting_fails {p : Parse α} {e : Error} (h : p s = .error e t) :
    nesting p s = .error e { t with depth := s.depth } := by
  rw [nesting, h]

theorem binding_run {p : Parse α} {a : α} (h : p s = .ok a t) :
    binding p s = .ok a { t with scope := s.scope } := by
  rw [binding, h]

theorem binding_fails {p : Parse α} {e : Error} (h : p s = .error e t) :
    binding p s = .error e { t with scope := s.scope } := by
  rw [binding, h]

/-- What is said when a fault is found, after whatever has been read. -/
theorem reject_run (f : Fault) :
    (reject σ f : Parse α) s =
      .error { f.error σ.language with location := some ((f.error σ.language).location.getD
        (location σ.language s.cursor)) } s :=
  rfl

/-- Where too few levels are left, that is the error, and the levels stay taken. -/
theorem descend_fails {levels : Nat} (h : ¬s.depth + levels ≤ maxDepth) :
    descend σ levels s =
      .error { Fault.tooDeep.error σ.language with
        location := some (location σ.language s.cursor) }
        { s with depth := s.depth + levels } := by
  unfold descend
  have hmodify :
      (modify fun s : ParseState => { s with depth := s.depth + levels } : Parse PUnit) s =
        .ok ⟨⟩ { s with depth := s.depth + levels } := rfl
  rw [bind_run hmodify, get_bind, if_pos (Nat.lt_of_not_le h)]
  rfl

theorem repeatAtMost_stop {go : Token → Bool} {part : α → Parse α} {n : Nat} {a : α}
    (h : go s.cursor.token = false) : repeatAtMost go part n a s = .ok a s := by
  cases n with
  | zero => rfl
  | succ n =>
      rw [repeatAtMost, token_bind, h]
      rfl

/-- A repetition that goes on makes one round, and all others after it. -/
theorem repeatAtMost_round {go : Token → Bool} {part : α → Parse α} {n : Nat} {a : α}
    (h : go s.cursor.token = true) :
    repeatAtMost go part (n + 1) a s = (part a >>= repeatAtMost go part n) s := by
  rw [repeatAtMost, token_bind, h]
  rfl

theorem repeatWhile_eq {go : Token → Bool} {part : α → Parse α} {a : α} :
    repeatWhile go part a s = repeatAtMost go part (s.cursor.rest.length + 1) a s :=
  rfl

/-- A repetition makes no round when the current token does not ask for one. -/
theorem repeatWhile_stop {go : Token → Bool} {part : α → Parse α} {a : α}
    (h : go s.cursor.token = false) : repeatWhile go part a s = .ok a s :=
  repeatAtMost_stop h

end Parse

/-! ### The whole source -/

section Reading

open Parse

variable {p : Parser} {terminator : Token} {source : String} {host : Resolver}
  {warnings : List String} {u : ParseState}

/-- A call that succeeds returns what has been read, and the parser goes on in the state after it.
-/
theorem Parser.expression_run {e : Expr} (h : complete p.setting terminator p.state = .ok e u) :
    p.expression terminator = (.ok e, { p with state := u }) := by
  unfold Parser.expression Parser.run
  dsimp only
  rw [h]

theorem Parser.expression_fails {e : Error}
    (h : complete p.setting terminator p.state = .error e u) :
    p.expression terminator = (.error e, { p with state := u }) := by
  unfold Parser.expression Parser.run
  dsimp only
  rw [h]

/-- A call succeeds only when its run does. -/
theorem Parser.expression_ok {e : Expr} (h : (p.expression terminator).1 = .ok e) :
    ∃ u, complete p.setting terminator p.state = .ok e u := by
  cases hrun : complete p.setting terminator p.state with
  | ok e' u =>
      rw [Parser.expression_run hrun] at h
      cases h
      exact ⟨u, rfl⟩
  | error err u =>
      rw [Parser.expression_fails hrun] at h
      cases h

theorem Parser.run_isOk {α : Type} {action : Setting → Parse α} :
    (p.run action).1.isOk = true ↔ ∃ a u, action p.setting p.state = .ok a u := by
  unfold Parser.run
  cases action p.setting p.state with
  | ok a u => exact ⟨fun _ => ⟨a, u, rfl⟩, fun _ => rfl⟩
  | error e u => exact ⟨by rintro ⟨⟩, by rintro ⟨_, _, ⟨⟩⟩⟩

/-- A reading has the value of a run, and the warnings that are there at its end. -/
theorem Parser.reading_run {α : Type} {action : Setting → Parse α} {a : α} :
    Parser.reading (p.run action) = ⟨.ok a, warnings⟩ ↔
      ∃ u, action p.setting p.state = .ok a u ∧ u.warnings = warnings := by
  unfold Parser.reading Parser.run
  cases action p.setting p.state with
  | ok a' u =>
      constructor
      · intro h
        cases h
        exact ⟨u, rfl, rfl⟩
      · rintro ⟨u', h, rfl⟩
        cases h
        rfl
  | error e u =>
      constructor
      · intro h
        cases h
      · rintro ⟨u', h, -⟩
        cases h

/-- A source that is read as a whole is read in one run from its start. -/
theorem readExpression_run {e : Expr} (h : complete ⟨.expression, host⟩ .eof
      (Parser.ofSource source 0 .expression host warnings).state = .ok e u) :
    readExpression source host warnings = ⟨.ok e, u.warnings⟩ := by
  have hrun := Parser.expression_run (p := Parser.ofSource source 0 .expression host warnings) h
  rw [readExpression, readExpressionAt, hrun]
  rfl

theorem readExpression_fails {e : Error} (h : complete ⟨.expression, host⟩ .eof
      (Parser.ofSource source 0 .expression host warnings).state = .error e u) :
    readExpression source host warnings = ⟨.error e, u.warnings⟩ := by
  have hrun := Parser.expression_fails (p := Parser.ofSource source 0 .expression host warnings) h
  rw [readExpression, readExpressionAt, hrun]
  rfl

end Reading

end XPath
