import XPath.Proofs.Readback

/-!
# Operands alone

What is read of a source whose whole text is one operand, or one operand with an operator behind
it. The productions around an operand leave the state as it was but for the cursor, so that what
is read and where the reader stands then is all there is to say (`Leaves`).
-/

namespace XPath.Parse

open XPath.Expr

variable {host : Resolver} {F : Fault → Prop} {nested : Parse Expr} {s : ParseState}
  {Q : Expr → Cursor → Prop}

/-- The token starts none of the expressions that start with a word of their own. -/
def StartsOperators (t : Token) : Prop :=
  t ≠ .forWord ∧ t ≠ .someWord ∧ t ≠ .everyWord ∧ t ≠ .ifWord

theorem startsOperators_of_startsStep {t : Token} (h : startsStep t = true) :
    StartsOperators t := by
  revert h
  cases t <;> simp [startsStep, StartsOperators]

/-- A single expression that starts with no word of its own is operands and operators. -/
theorem Ends.single {P : Expr → ParseState → Prop} {n : Nat}
    (hlevels : s.depth + nestedCost ≤ maxDepth) (hstarts : StartsOperators s.cursor.token)
    (h : Ends host.reader F (operatorExpression host.reader (singleWithin host.reader n))
      { s with depth := s.depth + nestedCost } fun e u => P e { u with depth := s.depth }) :
    Ends host.reader F (singleWithin host.reader (n + 1)) s P := by
  refine .nesting ?_
  refine .descend_within hlevels ?_
  refine .token rfl ?_
  obtain ⟨hfor, hsome, hevery, hif⟩ := hstarts
  split
  · next htoken => exact absurd htoken hfor
  · next htoken => exact absurd htoken hsome
  · next htoken => exact absurd htoken hevery
  · next htoken => exact absurd htoken hif
  · exact h

/-- The action gives an expression and moves the cursor, of which a property holds together, and
leaves everything else as it was, or it fails with a fault of another property. -/
def Leaves (host : Resolver) (F : Fault → Prop) (p : Parse Expr) (s : ParseState)
    (Q : Expr → Cursor → Prop) : Prop :=
  Ends host.reader F p s fun e u => ∃ d, u = { s with cursor := d } ∧ Q e d

namespace Leaves

theorem of_run {p : Parse Expr} {e : Expr} {d : Cursor} (h : p s = .ok e { s with cursor := d })
    (hQ : Q e d) : Leaves host F p s Q :=
  Ends.of_run h ⟨d, rfl, hQ⟩

theorem congr {p p' : Parse Expr} (h : Leaves host F p' s Q) (heq : p s = p' s) :
    Leaves host F p s Q :=
  Ends.congr h heq

/-- Levels that are taken inside are given back. -/
theorem nesting {p : Parse Expr}
    (h : Ends host.reader F p s fun e u =>
      ∃ d depth, u = { s with cursor := d, depth := depth } ∧ Q e d) :
    Leaves host F (nesting p) s Q := by
  refine Ends.nesting (h.mono ?_)
  rintro e u ⟨d, depth, rfl, hQ⟩
  exact ⟨d, rfl, hQ⟩

/-- A step without predicates. -/
theorem step {startsPattern : Bool}
    (h : Leaves host F (primary host.reader nested startsPattern) s Q)
    (hends : ∀ e d, Q e d → d.token ≠ .leftBracket ∧ isReverseStep e = false) :
    Leaves host F (step host.reader nested startsPattern) s Q := by
  refine .nesting (.bind h ?_)
  rintro e u ⟨d, rfl, hQ⟩
  obtain ⟨hbracket, hforward⟩ := hends e d hQ
  refine .run (Parse.repeatWhile_stop (decide_eq_false hbracket)) ?_
  rw [hforward]
  exact .pure ⟨d, s.depth, rfl, hQ⟩

/-- A path of one step. -/
theorem relativePath
    (h : ∀ startsPattern, Leaves host F (primary host.reader nested startsPattern) s Q)
    (hends : ∀ e d, Q e d → EndsPath d.token ∧ isReverseStep e = false) :
    Leaves host F (relativePath host.reader nested) s Q := by
  refine .nesting (.bind (step (h _) fun e d hQ => ⟨(hends e d hQ).1.1, (hends e d hQ).2⟩) ?_)
  rintro e u ⟨d, rfl, hQ⟩
  exact .repeatWhile_stop (hends e d hQ).1.2 ⟨d, s.depth, rfl, hQ⟩

theorem signedPath (hsign : sign? s.cursor.token = none)
    (h : Leaves host F (pathExpression host.reader nested) s Q) :
    Leaves host F (signedPath host.reader nested) s Q := by
  refine Ends.signedPath hsign (h.mono ?_)
  rintro e u ⟨d, rfl, hQ⟩
  exact ⟨d, rfl, hQ⟩

/-- What comes of an operand goes through the operators behind it. -/
theorem operators {R : Expr → Cursor → Prop}
    (h : Leaves host F (Parse.signedPath host.reader nested) s R)
    (hgoes : ∀ e d, R e d →
      Leaves host F (operations host.reader nested precedenceCount loosest e)
        { s with cursor := d } Q) :
    Leaves host F (operatorExpression host.reader nested) s Q := by
  refine .bind h ?_
  rintro e u ⟨d, rfl, hR⟩
  exact hgoes e d hR

/-- An operand without operators behind it. -/
theorem operatorExpression (h : Leaves host F (Parse.signedPath host.reader nested) s Q)
    (hends : ∀ e d, Q e d → d.token.precedence? = none) :
    Leaves host F (operatorExpression host.reader nested) s Q := by
  refine operators h fun e d hQ => .nesting (.repeatWhile_stop ?_ ⟨d, s.depth, rfl, hQ⟩)
  rw [bindsFrom, hends e d hQ]
  rfl

theorem single {n : Nat} (hlevels : s.depth + nestedCost ≤ maxDepth)
    (hstarts : StartsOperators s.cursor.token)
    (h : Leaves host F (Parse.operatorExpression host.reader (singleWithin host.reader n))
      { s with depth := s.depth + nestedCost } Q) :
    Leaves host F (singleWithin host.reader (n + 1)) s Q := by
  refine Ends.single hlevels hstarts (h.mono ?_)
  rintro e u ⟨d, rfl, hQ⟩
  exact ⟨d, rfl, hQ⟩

/-- One expression that no comma follows. -/
theorem commaSeparated (h : Leaves host F nested s Q) (hends : ∀ e d, Q e d → d.token ≠ .comma) :
    Ends host.reader F (commaSeparated host.reader nested) s fun es u =>
      ∃ e d, es = [e] ∧ u = { s with cursor := d } ∧ Q e d := by
  have hpart : Ends host.reader F nested s fun e u =>
      (∃ d, u = { s with cursor := d } ∧ Q e d) ∧ u.cursor.token ≠ .comma := by
    refine Ends.mono h ?_
    rintro e u ⟨d, rfl, hQ⟩
    exact ⟨⟨d, rfl, hQ⟩, hends e d hQ⟩
  refine .mono (.commaSeparated hpart) ?_
  rintro es u ⟨e, rfl, d, rfl, hQ⟩
  exact ⟨e, d, rfl, rfl, hQ⟩

/-- A source that is one single expression. -/
theorem readExpression {source : String} (warnings : List String) {d : Cursor}
    (hd : (Cursor.ofSource source 0).advance = (.ok (), d))
    (h : ∀ s : ParseState, s.cursor = d → s.depth = 0 →
      Leaves host F (Parse.single host.reader) s Q)
    (hends : ∀ e d, Q e d → d.token = .eof) :
    (∃ e d, readExpression source host warnings = ⟨.ok e, warnings⟩ ∧ Q e d) ∨
      ∃ f location, F f ∧ (readExpression source host warnings).outcome =
        .error { f.error .expression with location := some location } := by
  let start := (Parser.ofSource source 0 .expression host warnings).state
  have hcomplete : Ends host.reader F (complete host.reader .eof) start fun e u =>
      u.warnings = warnings ∧ ∃ d, Q e d := by
    refine .advance (s := start) hd (.bind (Q := fun e u => u.warnings = warnings ∧
      ∃ d, u.cursor = d ∧ Q e d) ?_ ?_)
    · refine .offset (.bind (commaSeparated (h _ rfl rfl) fun e d hQ => ?_) ?_)
      · rw [hends e d hQ]
        simp
      · rintro es u ⟨e, d, rfl, rfl, hQ⟩
        exact .pure ⟨rfl, d, rfl, hQ⟩
    · rintro e u ⟨hwarnings, d, rfl, hQ⟩
      refine .token (hends e _ hQ) ?_
      rw [if_pos rfl]
      exact .pure ⟨hwarnings, _, hQ⟩
  rcases hcomplete with ⟨e, u, hu, hwarnings, d, hQ⟩ | ⟨f, hf, location, u, hu⟩
  · exact .inl ⟨e, d, by rw [readExpression_run hu, hwarnings], hQ⟩
  · exact .inr ⟨f, location, hf, by rw [readExpression_fails hu]⟩

end Leaves

/-! ### A source that is one step -/

/-- A step without predicates, put into document order. -/
def inOrder (base : Expr) : Expr :=
  if isReverseStep base then .reverse base.offset base else base

section Step

variable {source : String} {warnings : List String} {d : Cursor}
  {P : Expr → ParseState → Prop}

/-- A path of one step, along any axis and without predicates. -/
theorem pathExpression_step (hstarts : startsStep s.cursor.token = true)
    (hdepth : ∀ e u depth, P e u → P e { u with depth })
    (h : Ends host.reader F (primary host.reader nested false) s P)
    (hends : ∀ e u, P e u → EndsPath u.cursor.token) :
    Ends host.reader F (pathExpression host.reader nested) s fun e u =>
      ∃ base, e = inOrder base ∧ P base u := by
  have hstep : Ends host.reader F (step host.reader nested false) s fun e u =>
      ∃ base, e = inOrder base ∧ P base u := by
    refine .nesting ?_
    refine .bind h fun base u hbase => ?_
    refine .run (Parse.repeatWhile_stop (decide_eq_false (hends base u hbase).1)) ?_
    exact .pure ⟨base, rfl, hdepth _ _ _ hbase⟩
  refine .congr ?_ (pathExpression_eq hstarts)
  refine .nesting (.bind hstep ?_)
  rintro _ u ⟨base, rfl, hbase⟩
  exact .repeatWhile_stop (hends base u hbase).2 ⟨base, rfl, hdepth _ _ _ hbase⟩

/-- A single expression of one step. -/
theorem single_step (hlevels : s.depth + nestedCost ≤ maxDepth)
    (hstarts : startsStep s.cursor.token = true)
    (hdepth : ∀ e u depth, P e u → P e { u with depth })
    (h : ∀ nested t, t.cursor = s.cursor → t.warnings = s.warnings →
      Ends host.reader F (primary host.reader nested false) t P)
    (hends : ∀ e u, P e u → EndsSingle u.cursor.token) :
    Ends host.reader F (Parse.single host.reader) s fun e u =>
      ∃ base, e = inOrder base ∧ P base u := by
  let Q : Expr → ParseState → Prop := fun e u => ∃ base, e = inOrder base ∧ P base u
  have hsigned : Ends host.reader F (signedPath host.reader (singleWithin host.reader 63))
      { s with depth := s.depth + nestedCost } Q := by
    refine Ends.signedPath (sign?_of_startsStep hstarts) ((pathExpression_step
      (s := { s with depth := s.depth + nestedCost }) hstarts hdepth (h _ _ rfl rfl)
      fun e u hP => (hends e u hP).1).mono ?_)
    rintro _ u ⟨base, rfl, hbase⟩
    exact ⟨base, rfl, hdepth _ _ _ hbase⟩
  refine Ends.single hlevels (startsOperators_of_startsStep hstarts) ?_
  refine .bind hsigned ?_
  rintro _ u ⟨base, rfl, hbase⟩
  refine .nesting (.repeatWhile_stop ?_ ⟨base, rfl, hdepth _ _ _ (hdepth _ _ _ hbase)⟩)
  rw [bindsFrom, (hends base u hbase).2]
  rfl

/-- A source that is one step: what its primary expression gives, or the fault it fails with. -/
theorem readExpression_step (hd : (Cursor.ofSource source 0).advance = (.ok (), d))
    (hstarts : startsStep d.token = true)
    (hdepth : ∀ e u depth, P e u → P e { u with depth })
    (h : ∀ nested s, s.cursor = d → s.warnings = warnings →
      Ends host.reader F (primary host.reader nested false) s P)
    (hends : ∀ e u, P e u → u.cursor.token = .eof) :
    (∃ e u, readExpression source host warnings = ⟨.ok (inOrder e), u.warnings⟩ ∧ P e u) ∨
      ∃ f location, F f ∧ (readExpression source host warnings).outcome =
        .error { f.error .expression with location := some location } := by
  let start := (Parser.ofSource source 0 .expression host warnings).state
  have hsingle : Ends host.reader F (Parse.single host.reader) { start with cursor := d }
      fun e u => (∃ base, e = inOrder base ∧ P base u) ∧ u.cursor.token ≠ .comma := by
    have hlevels : start.depth + nestedCost ≤ maxDepth := by
      show 0 + nestedCost ≤ maxDepth
      decide
    refine (single_step (s := { start with cursor := d }) hlevels hstarts hdepth
      (fun nested t ht hw => h nested t ht hw) fun e u hP => by rw [hends e u hP]; decide).mono ?_
    rintro _ u ⟨base, rfl, hbase⟩
    exact ⟨⟨base, rfl, hbase⟩, by rw [hends base u hbase]; decide⟩
  have hcomplete : Ends host.reader F (complete host.reader .eof) start fun e u =>
      ∃ base, e = inOrder base ∧ P base u := by
    refine .advance (s := start) hd (.bind (Q := fun e u => ∃ base, e = inOrder base ∧ P base u)
      (.offset (.bind (.commaSeparated hsingle) ?_)) ?_)
    · rintro es u ⟨_, rfl, base, rfl, hbase⟩
      exact .pure ⟨base, rfl, hbase⟩
    · rintro e u ⟨base, rfl, hbase⟩
      refine .token (hends base u hbase) ?_
      rw [if_pos rfl]
      exact .pure ⟨base, rfl, hbase⟩
  rcases hcomplete with ⟨_, u, hu, base, rfl, hbase⟩ | ⟨f, hf, location, u, hu⟩
  · exact .inl ⟨base, u, readExpression_run hu, hbase⟩
  · exact .inr ⟨f, location, hf, by rw [readExpression_fails hu]⟩

/-- The same of a primary expression that leaves everything but the cursor as it was. -/
theorem Leaves.readExpression_step (warnings : List String) {R : Expr → Cursor → Prop}
    (hd : (Cursor.ofSource source 0).advance = (.ok (), d)) (hstarts : startsStep d.token = true)
    (h : ∀ nested s, s.cursor = d → Leaves host F (primary host.reader nested false) s R)
    (hends : ∀ e d, R e d → d.token = .eof) :
    (∃ e d, XPath.readExpression source host warnings = ⟨.ok (inOrder e), warnings⟩ ∧ R e d) ∨
      ∃ f location, F f ∧ (XPath.readExpression source host warnings).outcome =
        .error { f.error .expression with location := some location } := by
  refine (Parse.readExpression_step (P := fun e u => u.warnings = warnings ∧ R e u.cursor) hd
    hstarts (fun _ _ _ hP => hP) (fun nested s hs hw => (h nested s hs).mono ?_)
    fun e u hP => hends e _ hP.2).imp_left ?_
  · rintro e u ⟨d, rfl, hR⟩
    exact ⟨hw, hR⟩
  · rintro ⟨e, u, hread, hw, hR⟩
    exact ⟨e, u.cursor, by rw [hread, hw], hR⟩

end Step

end XPath.Parse
