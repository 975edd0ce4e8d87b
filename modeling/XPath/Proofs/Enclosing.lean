import XPath.Proofs.Chain
import XPath.Proofs.Mirroring

/-!
# Compound productions within parentheses

Steps with predicates, paths, operations, bindings and conditionals read within parentheses what
they read by themselves. Each round of their loops reads at least one token, so that the loops
end for the same reason at both places. The last theorem closes the recursion over expressions
within expressions, where the two readers may have different numbers of levels left.
-/

namespace XPath.Parse

variable {α β : Type} {σ : Setting} {s t : ParseState} {d : Nat} {nested nested' : Parse Expr}

theorem descend_cursor {levels : Nat} {a : Unit} (h : descend σ levels s = .ok a t) :
    t.cursor = s.cursor := by
  obtain ⟨-, rfl⟩ := descend_ok h
  rfl

/-! ### Steps -/

theorem MirrorsOn.predicate {base : Expr} (hn : Within σ nested nested')
    (hs : s.cursor.token ≠ .eof) :
    MirrorsOn σ Place.expr (predicate σ nested base)
      (fun k => Parse.predicate σ nested' (k.expr base)) s d := by
  unfold Parse.predicate
  refine .offset ?_
  refine .bind_right .descend fun _ t d' ht => ?_
  rw [← descend_cursor ht] at hs
  refine .bind_left (.advance hs) fun _ _ _ _ => ?_
  refine .bind (.expression hn) fun condition _ _ _ => ?_
  refine .bind (.skip (by simp)) fun _ _ _ _ => ?_
  exact .pure fun _ => rfl

/-- A repetition that goes on is not at the end of the source. -/
theorem ne_eof_of_go {go : Token → Bool} (heof : go .eof = false)
    (hgo : go s.cursor.token = true) : s.cursor.token ≠ .eof := by
  intro htoken
  rw [htoken, heof] at hgo
  cases hgo

namespace Mirrors

/-- A step is mirrored with its predicates, however many there are. -/
theorem step (hn : Within σ nested nested') {startsPattern : Bool} :
    Mirrors σ Place.expr (step σ nested startsPattern)
      (fun _ => Parse.step σ nested' startsPattern) s d := by
  unfold Parse.step
  refine .nesting ?_
  refine .bind (.primary hn) fun base t d' _ => ?_
  refine .bind (.repeatWhile rfl rfl fun e s d hgo => .predicate hn (ne_eof_of_go rfl hgo))
    fun filtered u d'' _ => ?_
  simp only [Expr.isReverseStep_shift, Expr.offset_shift]
  split
  · exact .pure fun _ => rfl
  · exact .pure fun _ => rfl

end Mirrors

/-! ### Paths -/

theorem MirrorsOn.furtherStep {before : Expr} (hn : Within σ nested nested')
    (hs : s.cursor.token ≠ .eof) :
    MirrorsOn σ Place.expr (furtherStep σ nested before)
      (fun k => Parse.furtherStep σ nested' (k.expr before)) s d := by
  unfold Parse.furtherStep
  refine .token hs (.offset ?_)
  refine .bind_right .descend fun _ t d' ht => ?_
  rw [← descend_cursor ht] at hs
  refine .bind_left (.advance hs) fun _ _ _ _ => ?_
  refine .bind (.step hn) fun next _ _ _ => ?_
  refine .pure fun k => ?_
  exact (shift_joinStep k.start k.ids _ _ before next).symm

theorem MirrorsOn.furtherStepFromRoot {before : Expr} (hn : Within σ nested nested')
    (hs : s.cursor.token ≠ .eof) :
    MirrorsOn σ Place.expr (furtherStepFromRoot σ nested before)
      (fun k => Parse.furtherStepFromRoot σ nested' (k.expr before)) s d := by
  unfold Parse.furtherStepFromRoot
  refine .token hs (.offset ?_)
  refine .bind_left (.advance hs) fun _ _ _ _ => ?_
  refine .bind .descend fun _ _ _ _ => ?_
  refine .bind (.step hn) fun next _ _ _ => ?_
  refine .pure fun k => ?_
  exact (shift_joinStep k.start k.ids _ _ before next).symm

namespace Mirrors

theorem relativePath (hn : Within σ nested nested') :
    Mirrors σ Place.expr (relativePath σ nested) (fun _ => Parse.relativePath σ nested') s d := by
  unfold Parse.relativePath
  refine .nesting ?_
  refine .bind (.step hn) fun first _ _ _ => ?_
  exact .repeatWhile rfl rfl fun e s d hgo => .furtherStep hn (ne_eof_of_go rfl hgo)

theorem pathFrom {start : Nat} {origin : Expr} (hn : Within σ nested nested') :
    Mirrors σ Place.expr (pathFrom σ nested start origin)
      (fun k => Parse.pathFrom σ nested' (start + k.start) (k.expr origin)) s d := by
  unfold Parse.pathFrom
  refine .nesting ?_
  refine .bind .descend fun _ _ _ _ => ?_
  refine .bind (.step hn) fun first t d' _ => ?_
  have hrest : Mirrors σ Place.expr
      (Parse.repeatWhile isSeparator (Parse.furtherStepFromRoot σ nested)
        (.path start origin first))
      (fun k => Parse.repeatWhile isSeparator (Parse.furtherStepFromRoot σ nested')
        (k.expr (.path start origin first))) t d' :=
    .repeatWhile rfl rfl fun e s d hgo => .furtherStepFromRoot hn (ne_eof_of_go rfl hgo)
  exact hrest

theorem rootedPath (hn : Within σ nested nested') (hs : s.cursor.token ≠ .eof) :
    Mirrors σ Place.expr (rootedPath σ nested) (fun _ => Parse.rootedPath σ nested') s d := by
  unfold Parse.rootedPath
  refine .offset (.bind (.advance hs) fun _ t d' _ => .token (fun ht => ?_) fun _ => ?_)
  · split
    · exact .reject
    · split
      · exact .pathFrom hn
      · exact .pure fun _ => rfl
  · exact .pure fun _ => rfl

theorem descendantPath (hn : Within σ nested nested') (hs : s.cursor.token ≠ .eof) :
    Mirrors σ Place.expr (descendantPath σ nested) (fun _ => Parse.descendantPath σ nested')
      s d := by
  unfold Parse.descendantPath
  exact .offset (.bind (.advance hs) fun _ _ _ _ => .pathFrom hn)

/-- A path is mirrored from the root or from a step on. -/
theorem pathExpression (hn : Within σ nested nested') :
    Mirrors σ Place.expr (pathExpression σ nested) (fun _ => Parse.pathExpression σ nested')
      s d := by
  unfold Parse.pathExpression
  refine .token (fun hs => ?_) fun _ => .relativePath hn
  split
  · exact .rootedPath hn hs
  · exact .descendantPath hn hs
  · exact .relativePath hn

end Mirrors

/-! ### Signs -/

/-- The signs, shifted to the place. -/
abbrev shiftSigns (k : Place) (signs : List (Sign × Nat)) : List (Sign × Nat) :=
  signs.map fun (s, n) => (s, n + k.start)

theorem MirrorsOn.sign {signs : List (Sign × Nat)}
    (hgo : (sign? s.cursor.token).isSome = true) :
    MirrorsOn σ shiftSigns (sign σ signs) (fun k => Parse.sign σ (shiftSigns k signs)) s d := by
  have hs : s.cursor.token ≠ .eof := by
    intro heof
    rw [heof] at hgo
    cases hgo
  unfold Parse.sign
  refine .token hs ?_
  split
  · next hnone =>
      rw [hnone] at hgo
      cases hgo
  · refine .bind_right .descend fun _ t d' ht => ?_
    rw [← descend_cursor ht] at hs
    exact .offset (.bind_left (.advance hs) fun _ _ _ _ => .pure fun _ => rfl)

/-- Signs are mirrored at their own places, and the operand behind them. -/
theorem Mirrors.signedPath (hn : Within σ nested nested') :
    Mirrors σ Place.expr (signedPath σ nested) (fun _ => Parse.signedPath σ nested') s d := by
  unfold Parse.signedPath
  refine .nesting ?_
  refine .bind (f := shiftSigns)
    (.repeatWhile (a := []) rfl rfl fun signs s d hgo => .sign hgo) fun signs t d' _ => ?_
  refine .bind (.pathExpression hn) fun operand _ _ _ => ?_
  refine .pure fun k => ?_
  exact (shift_applySigns k.start k.ids operand signs).symm

/-! ### Type operators -/

namespace Mirrors

theorem cast {start : Nat} {castable : Bool} {operand : Expr} {type : SingleType} :
    Mirrors σ Place.expr (cast σ start castable operand type)
      (fun k => Parse.cast σ (start + k.start) castable (k.expr operand) type) s d := by
  unfold Parse.cast
  simp only [Expr.stringLiteral?_shift]
  split
  · split
    · exact .pure fun _ => rfl
    · exact .pure fun _ => rfl
    · exact .reject
  · exact .pure fun _ => rfl

theorem endTypeOperation {precedence : Nat} :
    MirrorsSame σ (endTypeOperation σ precedence) s d := by
  unfold Parse.endTypeOperation
  refine .token (fun hs => ?_) fun _ => .pure fun _ => rfl
  split
  · exact .reject
  · exact .pure fun _ => rfl

end Mirrors

/-- A type operator with its type is mirrored, and reads on. -/
theorem MirrorsOn.typeOperation {op : TypeOperator} {start : Nat} {operand : Expr}
    (hs : s.cursor.token ≠ .eof) :
    MirrorsOn σ Place.expr (typeOperation σ op start operand)
      (fun k => Parse.typeOperation σ op (start + k.start) (k.expr operand)) s d := by
  unfold Parse.typeOperation
  refine .bind_left (.advance hs) fun _ t d' _ => ?_
  cases op with
  | instanceOf => exact .bind .sequenceType fun _ _ _ _ => .pure fun _ => rfl
  | treatAs => exact .bind .sequenceType fun _ _ _ _ => .pure fun _ => rfl
  | castableAs => exact .bind .singleType fun _ _ _ _ => .cast
  | castAs => exact .bind .singleType fun _ _ _ _ => .cast

/-! ### Operators -/

theorem bindsFrom_iff {least : Nat} {t : Token} :
    bindsFrom least t = true ↔
      ∃ precedence, t.precedence? = some precedence ∧ least ≤ precedence := by
  cases h : t.precedence? <;> simp [bindsFrom, h]

theorem precedence?_le {t : Token} {precedence : Nat} (h : t.precedence? = some precedence) :
    precedence ≤ 15 := by
  cases t with
  | operator op =>
      cases h
      exact Nat.le_trans op.precedence_le (by decide)
  | typeOperator op =>
      cases h
      cases op <;> decide
  | _ => cases h

/-- One operator and its right operand are mirrored, and read on. -/
theorem MirrorsOn.operation {tighter : Nat → Expr → Parse Expr}
    {tighter' : Nat → Expr → Parse Expr} {least : Nat} {left : Expr}
    (hn : Within σ nested nested')
    (htighter : ∀ {least' right s d}, least < least' → bindsFrom least' s.cursor.token = true →
      MirrorsOn σ Place.expr (tighter least' right)
        (fun k => tighter' least' (k.expr right)) s d)
    (hgo : bindsFrom least s.cursor.token = true) :
    MirrorsOn σ Place.expr (operation σ nested tighter left)
      (fun k => Parse.operation σ nested' tighter' (k.expr left)) s d := by
  obtain ⟨precedence, hprecedence, hleast⟩ := bindsFrom_iff.mp hgo
  have hs : s.cursor.token ≠ .eof := ne_eof_of_go rfl hgo
  unfold Parse.operation
  refine .offset (.token hs ?_)
  split
  · next op htoken =>
      rw [htoken] at hprecedence
      cases hprecedence
      refine .bind_right .descend fun _ t d' ht => ?_
      rw [← descend_cursor ht] at hs
      refine .bind_left (.advance hs) fun _ _ _ _ => ?_
      refine .bind (.signedPath hn) fun operand u d'' _ => ?_
      refine .bind (.repeatWhile rfl rfl fun right v d hgo' => ?_) fun _ _ _ _ => .pure fun _ => rfl
      obtain ⟨precedence', hprecedence', hleast'⟩ := bindsFrom_iff.mp hgo'
      refine .token (ne_eof_of_go rfl hgo') ?_
      rw [hprecedence']
      exact htighter (by omega) (bindsFrom_iff.mpr ⟨precedence', hprecedence', Nat.le_refl _⟩)
  · refine .bind_right .descend fun _ t d' ht => ?_
    rw [← descend_cursor ht] at hs
    refine .bind_left (.typeOperation hs) fun typed _ _ _ => ?_
    refine .bind .endTypeOperation fun _ _ _ _ => ?_
    exact .pure fun _ => rfl
  · next hoperator htype =>
      cases htoken : s.cursor.token with
      | operator op => exact absurd htoken (hoperator op)
      | typeOperator op => exact absurd htoken (htype op)
      | _ =>
          rw [htoken] at hprecedence
          cases hprecedence

/-- The operators from a least precedence on. There are as many tiers left as precedences. -/
theorem MirrorsOn.operations (hn : Within σ nested nested') (tiers : Nat) :
    ∀ {least : Nat} {left : Expr} {s : ParseState} {d : Nat}, 16 ≤ tiers + least →
      Mirrors σ Place.expr (operations σ nested tiers least left)
          (fun k => Parse.operations σ nested' tiers least (k.expr left)) s d ∧
        (bindsFrom least s.cursor.token = true →
          MirrorsOn σ Place.expr (operations σ nested tiers least left)
            (fun k => Parse.operations σ nested' tiers least (k.expr left)) s d) := by
  induction tiers with
  | zero =>
      intro least left s d htiers
      refine ⟨.pure fun _ => rfl, fun hgo => ?_⟩
      obtain ⟨precedence, hprecedence, hleast⟩ := bindsFrom_iff.mp hgo
      have := precedence?_le hprecedence
      omega
  | succ tiers ih =>
      intro least left s d htiers
      have hround : ∀ left s d, bindsFrom least s.cursor.token = true →
          MirrorsOn σ Place.expr (Parse.operation σ nested (Parse.operations σ nested tiers) left)
            (fun k => Parse.operation σ nested' (Parse.operations σ nested' tiers) (k.expr left))
            s d := fun left s d hgo =>
        .operation hn (fun hlt hgo' => (ih (by omega)).2 hgo') hgo
      exact ⟨.nesting (.repeatWhile rfl rfl hround),
        fun hgo => .nesting (.repeatWhile rfl rfl hround hgo)⟩

theorem Mirrors.operatorExpression (hn : Within σ nested nested') :
    Mirrors σ Place.expr (operatorExpression σ nested)
      (fun _ => Parse.operatorExpression σ nested') s d := by
  unfold Parse.operatorExpression
  exact .bind (.signedPath hn) fun _ _ _ _ => (MirrorsOn.operations hn _ (by decide)).1

/-! ### Bindings and conditionals -/

namespace Mirrors

theorem clause (hn : Within σ nested nested') :
    Mirrors σ (fun k => Clause.shift k.start k.ids) (clause σ nested)
      (fun _ => Parse.clause σ nested') s d := by
  unfold Parse.clause
  refine .bind (.skip (by simp)) fun _ t d' _ => ?_
  refine .expect (by simp) fun hname => ?_
  refine .value (.stateless (.expandName _ _) fun name => ?_)
  have ht : t.cursor.token ≠ .eof := by
    rw [hname]
    simp
  refine .bind (.advance ht) fun _ _ _ _ => ?_
  refine .bind (.skip (by simp)) fun _ _ _ _ => ?_
  refine .bind hn.mirrors fun domain _ _ _ => ?_
  refine .bind .declare fun bound _ _ _ => ?_
  exact .pure fun _ => rfl

/-- Clauses and action are mirrored, with the variables declared before counted in. -/
theorem bindingExpression {kind : BindingKind} (hn : Within σ nested nested')
    (hs : s.cursor.token ≠ .eof) :
    Mirrors σ Place.expr (bindingExpression σ nested kind)
      (fun _ => Parse.bindingExpression σ nested' kind) s d := by
  have haction : actionToken kind ≠ .eof := by cases kind <;> simp [actionToken]
  unfold Parse.bindingExpression
  refine .offset (.bind (f := fun k (p : List Clause × Expr) =>
    (p.1.map (Clause.shift k.start k.ids), k.expr p.2)) (.binding ?_) fun p t d' _ => ?_)
  · refine .bind (.advance hs) fun _ _ _ _ => ?_
    refine .bind (.commaSeparated fun _ _ => .clause hn) fun clauses _ _ _ => ?_
    refine .bind (.skip haction) fun _ _ _ _ => ?_
    refine .bind hn.mirrors fun action _ _ _ => ?_
    exact .pure fun _ => rfl
  · exact .pure fun k => (shift_nestClauses k.start k.ids _ _ [] _ _).symm

theorem conditional (hn : Within σ nested nested') (hs : s.cursor.token ≠ .eof) :
    Mirrors σ Place.expr (conditional σ nested) (fun _ => Parse.conditional σ nested') s d := by
  unfold Parse.conditional
  refine .offset ?_
  refine .bind (.advance hs) fun _ _ _ _ => ?_
  refine .bind (.expression hn) fun condition _ _ _ => ?_
  refine .bind (.skip (by simp)) fun _ _ _ _ => ?_
  refine .bind (.skip (by simp)) fun _ _ _ _ => ?_
  refine .bind hn.mirrors fun yes _ _ _ => ?_
  refine .bind (.skip (by simp)) fun _ _ _ _ => ?_
  refine .bind hn.mirrors fun no _ _ _ => ?_
  exact .pure fun _ => rfl

/-! ### All expressions -/

/-- A single expression is mirrored when the expressions within it are. -/
theorem singleWith (hn : Within σ nested nested') :
    Mirrors σ Place.expr (singleWith σ nested) (fun _ => Parse.singleWith σ nested') s d := by
  unfold Parse.singleWith
  refine .nesting ?_
  refine .bind .descend fun _ t d' _ => ?_
  refine .token (fun ht => ?_) fun _ => .operatorExpression hn
  split
  · exact .bindingExpression hn ht
  · exact .bindingExpression hn ht
  · exact .bindingExpression hn ht
  · exact .conditional hn ht
  · exact .operatorExpression hn

end Mirrors

/-- The token starts no primary expression and is no sign, slash or keyword. -/
theorem signedPath_ne_ok {e : Expr} (hs : s.cursor.token = .eof ∨ s.cursor.token = .rightParen) :
    signedPath σ nested s ≠ .ok e t := by
  intro h
  obtain ⟨signs, u, path, v, hu, hv, -, -⟩ := signedPath_ok h
  have hstop : (sign? s.cursor.token).isSome = false := by
    rcases hs with hs | hs <;> rw [hs] <;> rfl
  rw [repeatWhile_stop hstop] at hu
  cases hu
  have hrelative : relativePath σ nested s = .ok path v := by
    unfold pathExpression at hv
    rw [token_bind] at hv
    rcases hs with hs | hs
    · rw [hs] at hv
      exact hv
    · rw [hs] at hv
      exact hv
  obtain ⟨w, hw, -⟩ := nesting_ok hrelative
  obtain ⟨first, x, hx, -⟩ := bind_ok.mp hw
  obtain ⟨base, z, -, -, hz, -, -, -⟩ := step_ok hx
  unfold primary at hz
  rw [token_bind] at hz
  rcases hs with hs | hs
  · rw [hs] at hz
    obtain ⟨_, _, -, hfail⟩ := bind_ok.mp hz
    exact reject_ne_ok hfail
  · rw [hs] at hz
    obtain ⟨_, _, -, hfail⟩ := bind_ok.mp hz
    exact reject_ne_ok hfail

theorem singleWithin_ne_ok {n : Nat} {e : Expr}
    (hs : s.cursor.token = .eof ∨ s.cursor.token = .rightParen) :
    singleWithin σ n s ≠ .ok e t := by
  intro h
  cases n with
  | zero => exact reject_ne_ok h
  | succ n =>
      obtain ⟨u, hu, -⟩ := nesting_ok h
      obtain ⟨_, v, hv, hu⟩ := bind_ok.mp hu
      have hv := descend_cursor hv
      have hoperator : operatorExpression σ (singleWithin σ n) v = .ok e u := by
        rw [token_bind, hv] at hu
        rcases hs with hs | hs
        · rw [hs] at hu
          exact hu
        · rw [hs] at hu
          exact hu
      obtain ⟨operand, w, hw, -⟩ := bind_ok.mp hoperator
      exact signedPath_ne_ok (by rw [hv]; exact hs) hw

/-- A reader with no levels left fails in no other way than one that has taken too many. -/
theorem singleWithin_mirrors (n n' : Nat) : Within σ (singleWithin σ n) (singleWithin σ n') := by
  induction n generalizing n' with
  | zero => exact ⟨.reject, fun hs => singleWithin_ne_ok hs⟩
  | succ n ih =>
      refine ⟨?_, fun hs => singleWithin_ne_ok hs⟩
      cases n' with
      | succ n' => exact .singleWith (ih n')
      | zero =>
          intro s d e t h
          have hlead := (Mirrors.singleWith (d := d) (ih 0) e t h).1
          exact ⟨hlead, .inr fun k s' _ _ => ⟨_, s', reject_run .tooDeep⟩⟩

end XPath.Parse
