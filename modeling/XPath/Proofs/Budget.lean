import XPath.Proofs.Balance
import XPath.Proofs.PairHosts

/-!
# The budget of levels

How many levels are in use when an expression is reached makes no difference to what is read of it,
unless the levels run out (`Parse.single_withDepth`). The reader with more levels in use goes
first here: it does what the other one does until it fails for too many levels.
-/

namespace XPath

open Parse

/-- Two readers at one place, the first one with `n` more levels in use. -/
def Pair.deeper (σ : Setting) (n : Nat) : Pair where
  left := σ
  right := σ
  Beside c c' := c' = c
  Starts _ := True
  Failing c e c' e' := c' = c ∧ e' = e
  Gone e := ∃ c, e = report σ c .tooDeep
  extra := n
  offset m := m
  axis _ _ axis := axis

/-- Two states are the same but for the levels in use. -/
theorem Parse.eq_withDepth {s t : ParseState} (hcursor : s.cursor = t.cursor)
    (hscope : s.scope = t.scope) (hnextId : s.nextId = t.nextId)
    (hwarnings : s.warnings = t.warnings) : s = { t with depth := s.depth } := by
  cases s
  cases t
  simp_all

namespace Pair

variable {σ : Setting} {n : Nat}

theorem passes_deeper (e : Error) : (Pair.deeper σ n).Passes e := by
  rintro c _ rfl
  exact ⟨rfl, rfl⟩

instance lawful_deeper : (Pair.deeper σ n).Lawful :=
  .of_shared id (fun _ => rfl) (fun _ => rfl) (fun _ _ => ⟨rfl, fun _ => trivial⟩)
    (fun _ _ => ⟨rfl, rfl⟩) (fun f _ => passes_deeper (f.error σ.language))
    (fun _ c => ⟨c, rfl⟩)

instance answers_deeper : (Pair.deeper σ n).Answers :=
  .of_setting rfl (fun _ _ _ => rfl) (fun e _ => passes_deeper e)
    (fun f _ => passes_deeper (f.error σ.language))
    (fun _ _ _ _ _ => passes_deeper (Fault.error _ σ.language))
    fun _ => ⟨passes_deeper (Fault.error _ σ.language), passes_deeper (Fault.error _ σ.language)⟩

theorem tree_deeper (e : Expr) : (Pair.deeper σ n).tree e = e :=
  Expr.relocate_eq_self (fun _ => rfl) (fun _ => rfl) (fun _ _ _ => rfl) e

/-- The results are the same but for the levels in use, or the first reader has run out of
levels. -/
theorem Agree.eq_withState {r r' : EStateM.Result Error ParseState Expr}
    (h : (Pair.deeper σ n).Agree ((Pair.deeper σ n).Gives (Pair.deeper σ n).tree) r r')
    (hscope : (final r).scope = (final r').scope) :
    r = Parse.withState (fun t => { t with depth := (final r).depth }) r' ∨ TooDeep σ r := by
  cases h with
  | @ok e t _ t' hgives =>
      obtain ⟨rfl, hlinked⟩ := hgives
      rw [tree_deeper]
      exact .inl (congrArg (EStateM.Result.ok e)
        (eq_withDepth hlinked.cursor.symm hscope hlinked.nextId.symm hlinked.warnings.symm))
  | @fail _ e t t' hfailing hnextId hwarnings =>
      obtain ⟨hcursor, rfl⟩ := hfailing
      exact .inl (congrArg (EStateM.Result.error e)
        (eq_withDepth hcursor.symm hscope hnextId.symm hwarnings.symm))
  | gone hgone =>
      obtain ⟨c, rfl⟩ := hgone
      exact .inr ⟨_, _, rfl⟩

end Pair

namespace Parse

/-- A single expression is read alike whatever the number of levels in use is, with the same cursor,
scope and warnings after it, unless there are too many of them; and as many are in use afterwards
as before. -/
theorem single_withDepth (σ : Setting) (s : ParseState) {d d' : Nat} (h : d ≤ d') :
    (single σ { s with depth := d' } =
        withState (fun t => { t with depth := d' }) (single σ { s with depth := d }) ∨
      TooDeep σ (single σ { s with depth := d' })) ∧
    (final (single σ { s with depth := d })).depth = d ∧
    (final (single σ { s with depth := d' })).depth = d' := by
  have heven : Even { s with depth := d } (final (single σ { s with depth := d })) :=
    Keeps.singleWithin _ _
  have heven' : Even { s with depth := d' } (final (single σ { s with depth := d' })) :=
    Keeps.singleWithin _ _
  refine ⟨?_, heven.depth, heven'.depth⟩
  have hlinked : (Pair.deeper σ (d' - d)).Linked { s with depth := d' } { s with depth := d } :=
    ⟨rfl, rfl, rfl, (Nat.add_sub_of_le h).symm, rfl⟩
  have hagree : (Pair.deeper σ (d' - d)).Agree _ (single σ { s with depth := d' })
      (single σ { s with depth := d }) := (Pair.alike (maxDepth / nestedCost)).agree hlinked trivial
  have hsame := hagree.eq_withState (heven'.balanced.scope.trans heven.balanced.scope.symm)
  rw [heven'.depth] at hsame
  exact hsame

/-- An expression in parentheses takes `2 * nestedCost` levels. It is read if they are left. -/
theorem single_withDepth_of_parentheses :
    let σ : Setting := ⟨.expression, ({} : StaticContext).resolver⟩
    let s : ParseState := { cursor := (Cursor.ofSource "(1)" 0).advance.2 }
    0 ≤ 496 ∧ 0 ≤ 497 ∧
      (∃ e t, single σ { s with depth := 0 } = .ok e t ∧
        single σ { s with depth := 496 } = .ok e { t with depth := 496 }) ∧
      TooDeep σ (single σ { s with depth := 497 }) := by
  intro σ s
  have hread : (Parser.run ⟨σ, { s with depth := 496 }⟩ single).1.isOk = true := by decide +kernel
  have hfails : ¬(Parser.run ⟨σ, { s with depth := 497 }⟩ single).1.isOk = true := by
    decide +kernel
  rw [Parser.run_isOk] at hread hfails
  obtain ⟨e, t, hread⟩ := hread
  have hread : single σ { s with depth := 496 } = .ok e t := hread
  obtain ⟨hsame, -, -⟩ := single_withDepth σ s (Nat.zero_le 496)
  obtain ⟨hdeep, -, -⟩ := single_withDepth σ s (Nat.zero_le 497)
  rcases hsame with hsame | ⟨_, _, hsame⟩
  · cases hflat : single σ { s with depth := 0 } with
    | ok e' t' =>
        rw [hflat] at hsame hdeep
        refine ⟨Nat.zero_le _, Nat.zero_le _, ⟨e', t', rfl, hsame⟩, hdeep.resolve_left fun h => ?_⟩
        exact hfails ⟨_, _, h⟩
    | error e' t' =>
        rw [hflat, hread] at hsame
        cases hsame
  · rw [hread] at hsame
    cases hsame

end Parse

end XPath
