import XPath.Proofs.Operands
import XPath.Proofs.Stages

/-!
# Climbing precedences

A reader goes through a chain from left to right, with an expression for what is behind it. One
operation takes a step together with the tighter ones behind it (`operation_takesSteps`); a loop of
operations takes all steps down to a precedence (`operations_climbs`), and what it makes of
them is what `Joint.group` makes of them. A type operator that binds looser than the one before
it is required, and the first that does not is where the reader fails.
-/

namespace XPath

open Parse

/-! ### Expressions that are no strings -/

theorem Joint.group_stringLiteral? {first : Expr} {js : List Joint}
    (hfirst : first.stringLiteral? = none)
    (hjs : ∀ j ∈ js, ∀ left right, (j.apply left right).stringLiteral? = none) :
    (group first js).stringLiteral? = none := by
  rw [group]
  split
  · exact hfirst
  · next before loosest behind hsplit =>
      refine hjs loosest ?_ _ _
      rw [(splitLoosest_spec hsplit).1]
      exact List.mem_append_right _ List.mem_cons_self

theorem signedAt_stringLiteral? (word : Word) (n : Nat) (signs : List Sign) :
    (signedAt word n signs).stringLiteral? = none := by
  cases signs <;> rfl

namespace Step

theorem apply_jointsAt {n : Nat} {steps : List Step} {j : Joint} (h : j ∈ jointsAt n steps)
    (left right : Expr) : (j.apply left right).stringLiteral? = none := by
  induction steps generalizing n with
  | nil => exact absurd h List.not_mem_nil
  | cons s steps ih =>
      rcases List.mem_cons.mp h with rfl | h
      · cases s <;> rfl
      · exact ih h

/-- The expression made of some steps, with one for what is before them. -/
def groupAt (n : Nat) (x : Expr) (steps : List Step) : Expr :=
  Joint.group x (jointsAt n steps)

theorem groupAt_nil (n : Nat) (x : Expr) : groupAt n x [] = x :=
  Joint.group_nil x

theorem groupAt_stringLiteral? {n : Nat} {x : Expr} (hx : x.stringLiteral? = none)
    (steps : List Step) : (groupAt n x steps).stringLiteral? = none :=
  Joint.group_stringLiteral? hx fun _ hj => apply_jointsAt hj

theorem precedence_mem_jointsAt {n : Nat} {steps : List Step} {j : Joint}
    (h : j ∈ jointsAt n steps) : ∃ s ∈ steps, s.precedence = j.precedence := by
  have hmem := List.mem_map_of_mem (f := Joint.precedence) h
  rw [map_precedence_jointsAt] at hmem
  exact List.mem_map.mp hmem

/-- Steps may be grouped before one that binds no tighter is looked at. -/
theorem groupAt_append {taken more : List Step} (n : Nat) (x : Expr)
    (h : ∀ b ∈ more.head?, ∀ a ∈ taken, b.precedence ≤ a.precedence) :
    groupAt n x (taken ++ more) =
      groupAt (n + utf8Length (textOf taken)) (groupAt n x taken) more := by
  unfold groupAt
  rw [jointsAt_append]
  refine Joint.group_append x fun k hk j hj => ?_
  obtain ⟨a, ha, hj⟩ := precedence_mem_jointsAt hj
  cases more with
  | nil => cases hk
  | cons b more =>
      cases hk
      rw [precedence_jointAt, ← hj]
      exact h b rfl a ha

/-- A step takes the tighter ones behind it as its operand. -/
theorem groupAt_cons {s : Step} {taken : List Step} (n : Nat) (x : Expr)
    (h : ∀ a ∈ taken, s.precedence < a.precedence) :
    groupAt n x (s :: taken) = (s.jointAt (n + 1)).apply x
      (groupAt (n + 1 + utf8Length s.text) (s.jointAt (n + 1)).operand taken) := by
  unfold groupAt
  rw [jointsAt]
  refine Joint.group_cons x fun k hk => ?_
  obtain ⟨a, ha, hk⟩ := precedence_mem_jointsAt hk
  rw [precedence_jointAt, ← hk]
  exact h a ha

theorem loosest_le (s : Step) : loosest ≤ s.precedence := by
  cases s with
  | binary op spelling spelled signs word => exact op.loosest_le
  | typed t => exact Nat.le_trans (by decide) (Nat.le_of_lt t.op.lt_precedence)

theorem precedence_le (s : Step) : s.precedence ≤ 15 := by
  cases s with
  | binary op spelling spelled signs word => exact Nat.le_trans op.precedence_le (by decide)
  | typed t =>
      show t.op.precedence ≤ 15
      cases t.op <;> decide

end Step

/-! ### Outcomes -/

/-- What becomes of steps that have been taken, where others are left. Unless one of them clashes,
or the first of the others does, they are grouped with the expression before them, and levels
have been taken for them and not for the others. -/
def Outcome (σ : Setting) (tail : List Char) (n : Nat) (taken left : List Step) (x : Expr)
    (s : ParseState) (r : EStateM.Result Error ParseState Expr) : Prop :=
  match Step.clash? (taken ++ left.take 1) with
  | none => ∃ d k, k ≤ Step.weightOf taken ∧
      AtSteps tail (n + utf8Length (Step.textOf taken)) left d ∧
      r = .ok (Step.groupAt n x taken) { s with cursor := d, depth := s.depth + k }
  | some op => ∃ location t, t.warnings = s.warnings ∧ r = .error
      { (Fault.typeOperand (.typeOperator op)).error σ.language with location := some location } t

namespace Outcome

variable {σ : Setting} {tail : List Char} {n : Nat} {taken left more : List Step} {x : Expr}
  {s : ParseState} {r : EStateM.Result Error ParseState Expr}

theorem of_ok {d : Cursor} {k : Nat} (hclash : Step.clash? (taken ++ left.take 1) = none)
    (hk : k ≤ Step.weightOf taken)
    (hd : AtSteps tail (n + utf8Length (Step.textOf taken)) left d)
    (hr : r = .ok (Step.groupAt n x taken) { s with cursor := d, depth := s.depth + k }) :
    Outcome σ tail n taken left x s r := by
  unfold Outcome
  rw [hclash]
  exact ⟨d, k, hk, hd, hr⟩

theorem of_error {op : TypeOperator} {location : String} {t : ParseState}
    (hclash : Step.clash? (taken ++ left.take 1) = some op) (ht : t.warnings = s.warnings)
    (hr : r = .error { (Fault.typeOperand (.typeOperator op)).error σ.language with
      location := some location } t) :
    Outcome σ tail n taken left x s r := by
  unfold Outcome
  rw [hclash]
  exact ⟨location, t, ht, hr⟩

theorem cases (h : Outcome σ tail n taken left x s r) :
    (∃ op location t, Step.clash? (taken ++ left.take 1) = some op ∧ t.warnings = s.warnings ∧
      r = .error { (Fault.typeOperand (.typeOperator op)).error σ.language with
        location := some location } t) ∨
    (∃ d k, Step.clash? (taken ++ left.take 1) = none ∧ k ≤ Step.weightOf taken ∧
      AtSteps tail (n + utf8Length (Step.textOf taken)) left d ∧
      r = .ok (Step.groupAt n x taken) { s with cursor := d, depth := s.depth + k }) := by
  unfold Outcome at h
  cases hclash : Step.clash? (taken ++ left.take 1) with
  | some op =>
      rw [hclash] at h
      obtain ⟨location, t, ht, hr⟩ := h
      exact .inl ⟨op, location, t, rfl, ht, hr⟩
  | none =>
      rw [hclash] at h
      obtain ⟨d, k, hk, hd, hr⟩ := h
      exact .inr ⟨d, k, rfl, hk, hd, hr⟩

/-- Nothing is taken. -/
theorem stop (hs : AtSteps tail n left s.cursor) :
    Outcome σ tail n [] left x s (.ok x s) := by
  have hclash : Step.clash? ([] ++ left.take 1) = none := by
    cases left with
    | nil => rfl
    | cons b left => cases b <;> rfl
  refine of_ok hclash (Nat.zero_le _) (d := s.cursor) hs ?_
  rw [Step.groupAt_nil]
  rfl

/-- Steps are taken in two parts when the second starts with none that is tighter than any of the
first. -/
theorem bind {p : Parse Expr} {f : Expr → Parse Expr}
    (hle : ∀ b ∈ (more ++ left).head?, ∀ a ∈ taken, b.precedence ≤ a.precedence)
    (hp : Outcome σ tail n taken (more ++ left) x s (p s))
    (hf : ∀ d k, k ≤ Step.weightOf taken →
      AtSteps tail (n + utf8Length (Step.textOf taken)) (more ++ left) d →
      Outcome σ tail (n + utf8Length (Step.textOf taken)) more left (Step.groupAt n x taken)
        { s with cursor := d, depth := s.depth + k }
        (f (Step.groupAt n x taken) { s with cursor := d, depth := s.depth + k })) :
    Outcome σ tail n (taken ++ more) left x s ((p >>= f) s) := by
  have hclash : Step.clash? (taken ++ more ++ left.take 1) =
      (Step.clash? (taken ++ (more ++ left).take 1)).or (Step.clash? (more ++ left.take 1)) := by
    cases more with
    | nil =>
        cases left with
        | nil => cases h : Step.clash? taken <;> simp [h, Step.clash?]
        | cons b left =>
            have hsingle : Step.clash? [b] = none := by cases b <;> rfl
            simp [hsingle]
    | cons b more =>
        rw [List.append_assoc, List.cons_append, Step.clash?_append]
        rfl
  -- the first part fails if it has a clash, and else the second part decides
  rcases hp.cases with ⟨op, location, t, htaken, ht, hp⟩ | ⟨d, k, htaken, hk, hd, hp⟩
  · rw [htaken, Option.some_or] at hclash
    exact of_error hclash ht (bind_fails hp)
  · rw [htaken, Option.none_or] at hclash
    have hrest := hf d k hk hd
    rw [← bind_run (f := f) hp] at hrest
    rcases hrest.cases with ⟨op, location, t, hmore, ht, hrest⟩ | ⟨e, k', hmore, hk', he, hrest⟩
    · exact of_error (hclash.trans hmore) ht hrest
    · have hhead : ∀ b ∈ more.head?, ∀ a ∈ taken, b.precedence ≤ a.precedence := by
        intro b hb
        refine hle b ?_
        rw [List.head?_append, Option.mem_def.mp hb]
        rfl
      refine of_ok (hclash.trans hmore) (d := e) (k := k + k') ?_ ?_ ?_
      · rw [Step.weightOf_append]
        omega
      · rw [Step.textOf_append, utf8Length_append, ← Nat.add_assoc]
        exact he
      · rw [hrest, Step.groupAt_append n x hhead]
        simp only [Nat.add_assoc]

/-- All levels are given back. -/
theorem nesting {p : Parse Expr} {m : Nat}
    (h : Outcome σ tail n taken left x { s with depth := m } (p s)) :
    Outcome σ tail n taken left x s (nesting p s) := by
  rcases h.cases with ⟨op, location, t, hclash, ht, h⟩ | ⟨d, k, hclash, -, hd, h⟩
  · exact of_error hclash (by exact ht) (nesting_fails h)
  · exact of_ok hclash (Nat.zero_le _) hd (nesting_run h)

end Outcome

/-! ### Loops -/

variable {σ : Setting} {nested : Parse Expr} {tail : List Char} {n least : Nat}
  {steps : List Step} {x : Expr} {s : ParseState}

/-- A reader that takes all steps down to a least precedence. -/
def Climbs (σ : Setting) (tail : List Char) (least : Nat) (p : Expr → Parse Expr) : Prop :=
  ∀ n steps x s, AtSteps tail n steps s.cursor → s.depth + Step.weightOf steps ≤ maxDepth →
    x.stringLiteral? = none →
    Outcome σ tail n (steps.takeWhile (least ≤ ·.precedence))
      (steps.dropWhile (least ≤ ·.precedence)) x s (p x s)

/-- Steps that are taken at once: one and some behind it that are no looser, up to one that is no
tighter. -/
structure Step.Cut (first : Step) (taken left : List Step) : Prop where
  nonempty : taken ≠ []
  tighter : ∀ a ∈ taken, first.precedence ≤ a.precedence
  looser : ∀ b ∈ left.head?, b.precedence ≤ first.precedence

/-- A reader that takes some steps at once, where the first of them has a least precedence. -/
def TakesSteps (σ : Setting) (tail : List Char) (least : Nat) (p : Expr → Parse Expr) : Prop :=
  ∀ n first behind x s, least ≤ first.precedence → AtSteps tail n (first :: behind) s.cursor →
    s.depth + Step.weightOf (first :: behind) ≤ maxDepth → x.stringLiteral? = none →
    ∃ taken left, first :: behind = taken ++ left ∧ first.Cut taken left ∧
      Outcome σ tail n taken left x s (p x s)

/-- No step is taken where the first is looser. -/
theorem Step.takeWhile_looser (h : ∀ b ∈ steps.head?, b.precedence < least) :
    steps.takeWhile (least ≤ ·.precedence) = [] := by
  cases steps with
  | nil => rfl
  | cons b steps =>
      exact List.takeWhile_cons_of_neg fun hb => Nat.not_le_of_lt (h b rfl) (of_decide_eq_true hb)

theorem Step.dropWhile_looser (h : ∀ b ∈ steps.head?, b.precedence < least) :
    steps.dropWhile (least ≤ ·.precedence) = steps := by
  cases steps with
  | nil => rfl
  | cons b steps =>
      exact List.dropWhile_cons_of_neg fun hb => Nat.not_le_of_lt (h b rfl) (of_decide_eq_true hb)

theorem Outcome.stop_looser (h : ∀ b ∈ steps.head?, b.precedence < least)
    (hs : AtSteps tail n steps s.cursor) :
    Outcome σ tail n (steps.takeWhile (least ≤ ·.precedence))
      (steps.dropWhile (least ≤ ·.precedence)) x s (.ok x s) := by
  rw [Step.takeWhile_looser h, Step.dropWhile_looser h]
  exact Outcome.stop hs

theorem bindsFrom_steps (ht : Closing tail) (hs : AtSteps tail n steps s.cursor) :
    bindsFrom least s.cursor.token = steps.head?.any (least ≤ ·.precedence) := by
  unfold bindsFrom
  rw [hs.precedence ht]
  cases steps.head? <;> rfl

/-- A loop takes all steps if each of its rounds takes some. -/
theorem repeatAtMost_outcome {part : Expr → Parse Expr} (ht : Closing tail)
    (hpart : TakesSteps σ tail least part) {fuel : Nat} (hfuel : steps.length ≤ fuel)
    (hs : AtSteps tail n steps s.cursor) (hdepth : s.depth + Step.weightOf steps ≤ maxDepth)
    (hx : x.stringLiteral? = none) :
    Outcome σ tail n (steps.takeWhile (least ≤ ·.precedence))
      (steps.dropWhile (least ≤ ·.precedence)) x s
      (repeatAtMost (bindsFrom least) part fuel x s) := by
  induction fuel generalizing n steps s x with
  | zero =>
      rw [List.length_eq_zero_iff.mp (Nat.le_zero.mp hfuel)] at hs ⊢
      exact Outcome.stop hs
  | succ fuel ih =>
      have hgo : bindsFrom least s.cursor.token = steps.head?.any (least ≤ ·.precedence) :=
        bindsFrom_steps ht hs
      cases steps with
      | nil =>
          rw [repeatAtMost_stop hgo]
          exact Outcome.stop hs
      | cons first behind =>
          by_cases hfirst : least ≤ first.precedence
          · rw [List.head?_cons, Option.any_some, decide_eq_true hfirst] at hgo
            -- one round takes `taken`, and all of it is from the least precedence on
            obtain ⟨taken, left, hsplit, hcut, houtcome⟩ := hpart _ _ _ _ _ hfirst hs hdepth hx
            have hall : ∀ a ∈ taken, decide (least ≤ a.precedence) = true := fun a ha =>
              decide_eq_true (Nat.le_trans hfirst (hcut.tighter a ha))
            have hlength : left.length ≤ fuel := by
              have hpos := List.length_pos_iff.mpr hcut.nonempty
              rw [hsplit, List.length_append] at hfuel
              omega
            rw [repeatAtMost_round hgo, hsplit, List.takeWhile_append_of_pos hall,
              List.dropWhile_append_of_pos hall]
            refine Outcome.bind ?_ ?_ ?_
            · rw [List.takeWhile_append_dropWhile]
              exact fun b hb a ha => Nat.le_trans (hcut.looser b hb) (hcut.tighter a ha)
            · rw [List.takeWhile_append_dropWhile]
              exact houtcome
            · rw [List.takeWhile_append_dropWhile]
              intro d k hk hd
              refine ih hlength hd ?_ (Step.groupAt_stringLiteral? hx taken)
              rw [hsplit, Step.weightOf_append] at hdepth
              show s.depth + k + Step.weightOf left ≤ maxDepth
              omega
          · rw [List.head?_cons, Option.any_some, decide_eq_false hfirst] at hgo
            rw [repeatAtMost_stop hgo]
            refine Outcome.stop_looser ?_ hs
            rintro b ⟨⟩
            exact Nat.lt_of_not_le hfirst

theorem repeatWhile_climbs {part : Expr → Parse Expr} (ht : Closing tail)
    (hpart : TakesSteps σ tail least part) :
    Climbs σ tail least (repeatWhile (bindsFrom least) part) := by
  intro n steps x s hs hdepth hx
  rw [repeatWhile_eq]
  exact repeatAtMost_outcome ht hpart hs.length_le hs hdepth hx

/-! ### Operations -/

theorem Step.le_of_mem_takeWhile {a : Step} (h : a ∈ steps.takeWhile (least ≤ ·.precedence)) :
    least ≤ a.precedence :=
  of_decide_eq_true (List.all_eq_true.mp List.all_takeWhile a h)

theorem Step.lt_of_head_dropWhile {b : Step}
    (h : b ∈ (steps.dropWhile (least ≤ ·.precedence)).head?) : b.precedence < least := by
  have hstop := List.head?_dropWhile_not (fun a : Step => decide (least ≤ a.precedence)) steps
  rw [Option.mem_def.mp h] at hstop
  exact Nat.lt_of_not_le (of_decide_eq_false hstop)

/-- Of the steps that a round takes the first is known. -/
theorem Step.exists_cons_take (p : Step → Bool) (b : Step) (steps : List Step) :
    ∃ more, (b :: steps).takeWhile p ++ ((b :: steps).dropWhile p).take 1 = b :: more := by
  by_cases h : p b = true
  · rw [List.takeWhile_cons_of_pos h]
    exact ⟨_, rfl⟩
  · rw [List.takeWhile_cons_of_neg h, List.dropWhile_cons_of_neg h]
    exact ⟨[], rfl⟩

/-- The steps down to the precedence of the first are taken at once. -/
theorem Step.cut_takeWhile (first : Step) (behind : List Step) :
    first.Cut ((first :: behind).takeWhile (first.precedence ≤ ·.precedence))
      ((first :: behind).dropWhile (first.precedence ≤ ·.precedence)) where
  nonempty := by
    rw [List.takeWhile_cons, if_pos (decide_eq_true (Nat.le_refl _))]
    exact List.cons_ne_nil _ _
  tighter := fun _ ha => Step.le_of_mem_takeWhile ha
  looser := fun _ hb => Nat.le_of_lt (Step.lt_of_head_dropWhile hb)

/-- The steps that are tighter than the first are taken with it. -/
theorem Step.cut_cons (first : Step) (behind : List Step) :
    first.Cut (first :: behind.takeWhile (first.precedence + 1 ≤ ·.precedence))
      (behind.dropWhile (first.precedence + 1 ≤ ·.precedence)) where
  nonempty := List.cons_ne_nil _ _
  tighter := by
    intro a ha
    rcases List.mem_cons.mp ha with rfl | ha
    · exact Nat.le_refl _
    · exact Nat.le_of_lt (Step.le_of_mem_takeWhile ha)
  looser := fun _ hb => Nat.le_of_lt_succ (Step.lt_of_head_dropWhile hb)

/-- The loop for the right operand of an operator takes the steps that are tighter. -/
theorem rightOperand_climbs (ht : Closing tail) {tighter : Nat → Expr → Parse Expr}
    (htighter : ∀ k, least ≤ k → Climbs σ tail k (tighter k)) :
    Climbs σ tail least (rightOperand tighter least) := by
  refine repeatWhile_climbs ht fun n first behind x s hfirst hs hdepth hx => ?_
  refine ⟨_, _, List.takeWhile_append_dropWhile.symm, first.cut_takeWhile behind, ?_⟩
  rw [token_bind, hs.precedence ht]
  exact htighter first.precedence hfirst n (first :: behind) x s hs hdepth hx

/-- A binary operator with the operand behind it, and then the loop for what is tighter. -/
theorem operation_binary (nested : Parse Expr) (tighter : Nat → Expr → Parse Expr) (x : Expr)
    (hσ : σ.Conventional) (ht : Closing tail) {op : BinaryOperator} {spelling : String}
    {spelled : spelling ∈ op.spellings} {signs : List Sign} {word : Word}
    (hs : AtSteps tail n (.binary op spelling spelled signs word :: steps) s.cursor)
    (hdepth :
      s.depth + Step.weightOf (.binary op spelling spelled signs word :: steps) ≤ maxDepth) :
    ∃ d, AtSteps tail
        (n + 1 + utf8Length (Step.binary op spelling spelled signs word).text) steps d ∧
      operation σ nested tighter x s =
        (rightOperand tighter (op.precedence + 1)
            (signedAt word (n + 1 + utf8Length spelling.toList + 1) signs) >>=
          fun right => pure (.binary (n + 1) op x right))
          { s with cursor := d, depth := s.depth + 1 } := by
  rw [Step.weightOf, Step.weight] at hdepth
  obtain ⟨htoken, hoffset, hoperand⟩ := hs.binary
  obtain ⟨d, hd⟩ := hoperand.advance ht
  have hadvance : advance σ { s with depth := s.depth + 1 } =
      .ok () { s with cursor := d, depth := s.depth + 1 } := advance_run hd
  obtain ⟨e, he, hpath⟩ := signedPath_run hσ ht hoperand
    (s := { s with cursor := d, depth := s.depth + 1 }) hd (by
      show s.depth + 1 + signs.length ≤ maxDepth
      omega)
  have htext : n + 1 + utf8Length spelling.toList + 1 + utf8Length (signedText signs word) =
      n + 1 + utf8Length (Step.binary op spelling spelled signs word).text := by
    rw [Step.utf8Length_binary]
    omega
  refine ⟨e, htext ▸ he, ?_⟩
  unfold operation
  rw [offset_bind, token_bind, htoken]
  dsimp only
  rw [bind_run (descend_run (by omega)), bind_run hadvance, hoffset]
  exact bind_run hpath

/-- A binary operator with the operand behind it, and with the tighter steps behind that. -/
theorem binary_outcome (hσ : σ.Conventional) (ht : Closing tail)
    {tighter : Nat → Expr → Parse Expr} {op : BinaryOperator} {spelling : String}
    {spelled : spelling ∈ op.spellings} {signs : List Sign} {word : Word}
    (htighter : ∀ k, op.precedence + 1 ≤ k → Climbs σ tail k (tighter k))
    (hs : AtSteps tail n (.binary op spelling spelled signs word :: steps) s.cursor)
    (hdepth :
      s.depth + Step.weightOf (.binary op spelling spelled signs word :: steps) ≤ maxDepth) :
    Outcome σ tail n (.binary op spelling spelled signs word ::
        steps.takeWhile (op.precedence + 1 ≤ ·.precedence))
      (steps.dropWhile (op.precedence + 1 ≤ ·.precedence)) x s
      (operation σ nested tighter x s) := by
  obtain ⟨d, hd, hrun⟩ := operation_binary nested tighter x hσ ht hs hdepth
  rw [Step.weightOf, Step.weight] at hdepth
  have hright := rightOperand_climbs ht htighter _ steps
    (signedAt word (n + 1 + utf8Length spelling.toList + 1) signs)
    { s with cursor := d, depth := s.depth + 1 } hd (by
      show s.depth + 1 + Step.weightOf steps ≤ maxDepth
      omega) (signedAt_stringLiteral? word _ signs)
  rw [hrun]
  -- a binary operator clashes with nothing, so that the clashes are those behind it
  rcases hright.cases with
    ⟨op', location, t, hclash, ht, hright⟩ | ⟨e, k, hclash, hk, he, hright⟩
  · exact Outcome.of_error hclash ht (bind_fails hright)
  · have hbinds : ∀ a ∈ steps.takeWhile (op.precedence + 1 ≤ ·.precedence),
        (Step.binary op spelling spelled signs word).precedence < a.precedence :=
      fun _ ha => Step.le_of_mem_takeWhile ha
    refine Outcome.of_ok hclash (d := e) (k := 1 + k) ?_ ?_ ?_
    · rw [Step.weightOf, Step.weight]
      omega
    · rw [Step.utf8Length_textOf_cons, ← Nat.add_assoc, ← Nat.add_assoc]
      exact he
    · rw [bind_run hright, pure_run, Step.groupAt_cons n x hbinds, ← Nat.add_assoc s.depth]
      rfl

/-- A type operator with nothing behind it that binds as tightly. -/
theorem endTypeOperation_run (ht : Closing tail) (hs : AtSteps tail n steps s.cursor)
    (hnext : ∀ b ∈ steps.head?, b.precedence < least) :
    endTypeOperation σ least s = .ok () s := by
  unfold endTypeOperation
  rw [token_bind, hs.precedence ht]
  cases steps with
  | nil => rfl
  | cons b steps =>
      have hlt : ¬(least ≤ b.precedence) := Nat.not_le_of_lt (hnext b rfl)
      rw [List.head?_cons, Option.map_some, Option.any_some, decide_eq_false hlt]
      rfl

/-- A type operator with another behind it that binds as tightly. -/
theorem endTypeOperation_fails (ht : Closing tail) {t : TypeSuffix}
    (hs : AtSteps tail n (.typed t :: steps) s.cursor) (hle : least ≤ t.op.precedence) :
    ∃ location, endTypeOperation σ least s = .error
      { (Fault.typeOperand (.typeOperator t.op)).error σ.language with
        location := some location } s := by
  have hany : s.cursor.token.precedence?.any (decide <| least ≤ ·) = true := by
    rw [hs.precedence ht, List.head?_cons, Option.map_some, Option.any_some]
    exact decide_eq_true hle
  unfold endTypeOperation
  rw [token_bind, if_pos hany, hs.typed.1]
  exact ⟨_, reject_run _⟩

/-- A type operator with its target, and then the look at what is behind them. -/
theorem operation_typed (nested : Parse Expr) (tighter : Nat → Expr → Parse Expr)
    (hσ : σ.Conventional) (ht : Closing tail) {t : TypeSuffix}
    (hs : AtSteps tail n (.typed t :: steps) s.cursor)
    (hdepth : s.depth + Step.weightOf (.typed t :: steps) ≤ maxDepth)
    (hx : x.stringLiteral? = none) :
    ∃ d, AtSteps tail (n + 1 + utf8Length (Step.typed t).text) steps d ∧
      operation σ nested tighter x s =
        (endTypeOperation σ t.op.precedence >>= fun _ => pure (.typed (n + 1) t.operation x))
          { s with cursor := d, depth := s.depth + 1 } := by
  rw [Step.weightOf, Step.weight] at hdepth
  obtain ⟨htoken, hoffset, -⟩ := hs.typed
  obtain ⟨d, hd, htyped⟩ := typeOperation_run hσ ht
    (s := { s with depth := s.depth + 1 }) hs hx (n + 1)
  refine ⟨d, hd, ?_⟩
  unfold operation
  rw [offset_bind, token_bind, htoken]
  dsimp only
  rw [bind_run (descend_run (by omega)), hoffset, bind_run htyped]

theorem Step.clash?_typed_looser {t : TypeSuffix}
    (h : ∀ b ∈ steps.head?, b.precedence < t.op.precedence) :
    Step.clash? (.typed t :: steps.take 1) = none := by
  cases steps with
  | nil => rfl
  | cons b steps =>
      cases b with
      | binary op spelling spelled signs word => rfl
      | typed t' =>
          have hlt : t'.op.precedence < t.op.precedence := h _ rfl
          rw [List.take_succ_cons, List.take_zero, Step.clash?, if_pos hlt]
          rfl

/-- Only a type operator binds as tightly as one. -/
theorem Step.exists_typed_of_le {b : Step} {op : TypeOperator}
    (h : op.precedence ≤ b.precedence) : ∃ t, b = .typed t := by
  cases b with
  | binary op' spelling spelled signs word =>
      exact absurd (Nat.le_trans h op'.precedence_le) (Nat.not_le_of_lt op.lt_precedence)
  | typed t => exact ⟨t, rfl⟩

/-- A type operator with its target. Another that is no looser is not taken with it, and is where
the reader fails. -/
theorem typed_outcome (hσ : σ.Conventional) (ht : Closing tail)
    {tighter : Nat → Expr → Parse Expr} {t : TypeSuffix}
    (hs : AtSteps tail n (.typed t :: steps) s.cursor)
    (hdepth : s.depth + Step.weightOf (.typed t :: steps) ≤ maxDepth)
    (hx : x.stringLiteral? = none) :
    Outcome σ tail n (.typed t :: steps.takeWhile (t.op.precedence + 1 ≤ ·.precedence))
      (steps.dropWhile (t.op.precedence + 1 ≤ ·.precedence)) x s
      (operation σ nested tighter x s) := by
  obtain ⟨d, hd, hrun⟩ := operation_typed nested tighter hσ ht hs hdepth hx
  rw [hrun]
  -- what follows is looser, and is left, or is a type operator that may not follow
  by_cases hnext : ∀ b ∈ steps.head?, b.precedence < t.op.precedence
  · have hlooser : ∀ b ∈ steps.head?, b.precedence < t.op.precedence + 1 :=
      fun b hb => Nat.lt_succ_of_lt (hnext b hb)
    have hend : endTypeOperation σ t.op.precedence { s with cursor := d, depth := s.depth + 1 } =
        .ok () { s with cursor := d, depth := s.depth + 1 } := endTypeOperation_run ht hd hnext
    rw [Step.takeWhile_looser hlooser, Step.dropWhile_looser hlooser, bind_run hend]
    refine Outcome.of_ok (Step.clash?_typed_looser hnext) (d := d) (Nat.le_refl _) ?_ ?_
    · rw [Step.utf8Length_textOf_cons, ← Nat.add_assoc, ← Nat.add_assoc]
      exact hd
    · rw [Step.groupAt_cons n x (fun _ ha => absurd ha List.not_mem_nil)]
      rfl
  · simp only [Classical.not_forall, Nat.not_lt] at hnext
    obtain ⟨b, hb, hle⟩ := hnext
    obtain ⟨t', rfl⟩ := Step.exists_typed_of_le hle
    cases steps with
    | nil => cases hb
    | cons b steps =>
        cases hb
        have hle : t.op.precedence ≤ t'.op.precedence := hle
        obtain ⟨location, hend⟩ := endTypeOperation_fails (σ := σ)
          (s := { s with cursor := d, depth := s.depth + 1 }) ht hd hle
        obtain ⟨more, hmore⟩ := Step.exists_cons_take
          (fun b => decide (t.op.precedence + 1 ≤ b.precedence)) (.typed t') steps
        refine Outcome.of_error ?_ ?_ (bind_fails hend)
        · rw [List.cons_append, hmore, Step.clash?, if_neg (Nat.not_lt_of_le hle)]
        · rfl

/-- One round takes a step together with the tighter ones behind it. -/
theorem operation_takesSteps (hσ : σ.Conventional) (ht : Closing tail)
    {tighter : Nat → Expr → Parse Expr}
    (htighter : ∀ k, least + 1 ≤ k → Climbs σ tail k (tighter k)) :
    TakesSteps σ tail least (operation σ nested tighter) := by
  intro n first behind x s hfirst hs hdepth hx
  refine ⟨_, _, ?_, first.cut_cons behind, ?_⟩
  · rw [List.cons_append, List.takeWhile_append_dropWhile]
  · cases first with
    | binary op spelling spelled signs word =>
        exact binary_outcome hσ ht
          (fun k hk => htighter k (Nat.le_trans (Nat.succ_le_succ hfirst) hk)) hs hdepth
    | typed t => exact typed_outcome hσ ht hs hdepth hx

/-- Every level of recursion asks for a higher precedence, so that there are enough of them. -/
theorem operations_climbs (hσ : σ.Conventional) (ht : Closing tail) {tiers : Nat}
    (htiers : 16 ≤ least + tiers) : Climbs σ tail least (operations σ nested tiers least) := by
  induction tiers generalizing least with
  | zero =>
      -- no operator binds as tightly as this
      intro n steps x s hs hdepth hx
      refine Outcome.stop_looser (fun b _ => ?_) hs
      have := b.precedence_le
      omega
  | succ tiers ih =>
      have hpart : TakesSteps σ tail least (operation σ nested (operations σ nested tiers)) :=
        operation_takesSteps hσ ht fun k hk => ih (by omega)
      intro n steps x s hs hdepth hx
      exact Outcome.nesting (m := s.depth) (repeatWhile_climbs ht hpart n steps x s hs hdepth hx)

/-- All steps of a chain are taken. -/
theorem operatorExpression_outcome (hσ : σ.Conventional) (ht : Closing tail) {signs : List Sign}
    {word : Word} {c : Cursor} (hc : BeforeOperand tail n signs word steps c)
    (hs : c.advance = (.ok (), s.cursor))
    (hdepth : s.depth + (signs.length + Step.weightOf steps) ≤ maxDepth) :
    Outcome σ tail (n + utf8Length (signedText signs word)) steps [] (signedAt word n signs) s
      (operatorExpression σ nested s) := by
  obtain ⟨d, hd, hpath⟩ := signedPath_run hσ ht hc hs (by omega)
  have hclimbs : Climbs σ tail loosest (operations σ nested precedenceCount loosest) :=
    operations_climbs hσ ht (by decide)
  have hloop := hclimbs (n + utf8Length (signedText signs word)) steps (signedAt word n signs)
    { s with cursor := d } hd (by
      show s.depth + Step.weightOf steps ≤ maxDepth
      omega) (signedAt_stringLiteral? word n signs)
  have hall : ∀ b ∈ steps, decide (loosest ≤ b.precedence) = true :=
    fun b _ => decide_eq_true b.loosest_le
  have htaken : steps.takeWhile (loosest ≤ ·.precedence) = steps := by
    rw [← List.append_nil steps, List.takeWhile_append_of_pos hall, List.takeWhile_nil]
  have hleft : steps.dropWhile (loosest ≤ ·.precedence) = [] := by
    rw [← List.append_nil steps, List.dropWhile_append_of_pos hall, List.dropWhile_nil]
  rw [htaken, hleft] at hloop
  unfold operatorExpression
  rw [bind_run hpath]
  exact hloop

/-- A single expression that starts with a name or a sign is a chain. -/
theorem singleWith_outcome (hσ : σ.Conventional) (ht : Closing tail) {signs : List Sign}
    {word : Word} {c : Cursor} (hc : BeforeOperand tail n signs word steps c)
    (hs : c.advance = (.ok (), s.cursor))
    (hdepth : s.depth + nestedCost + (signs.length + Step.weightOf steps) ≤ maxDepth) :
    Outcome σ tail (n + utf8Length (signedText signs word)) steps [] (signedAt word n signs) s
      (singleWith σ nested s) := by
  have hchain : Outcome σ tail (n + utf8Length (signedText signs word)) steps []
      (signedAt word n signs) { s with depth := s.depth + nestedCost }
      (operatorExpression σ nested { s with depth := s.depth + nestedCost }) :=
    operatorExpression_outcome hσ ht hc hs hdepth
  unfold singleWith
  refine Outcome.nesting (m := s.depth + nestedCost) ?_
  rw [bind_run (descend_run (by omega)), token_bind]
  cases signs with
  | nil =>
      obtain ⟨d, hd, htoken, -⟩ := hc.name ht
      rw [hs] at hd
      cases hd
      rw [htoken]
      exact hchain
  | cons sg signs =>
      obtain ⟨d, hd, htoken, -⟩ := hc.sign
      rw [hs] at hd
      cases hd
      rw [htoken]
      exact hchain

end XPath
