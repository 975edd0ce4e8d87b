import XPath.Proofs.Assembling
import XPath.Proofs.Enclosing

/-!
# Steps against the order of the document

The predicates on such a step number its nodes in the order of the axis. So the nodes are put back
into the order of the document behind these predicates, and that is done once for each such step
(`Parser.reversed_once`). The proof goes down the positions in the tree: a bare step, with any
number of predicates on it, is found only under the node that puts it into order.
-/

namespace XPath

open Parse

namespace Expr

/-! ### Positions -/

/-- The part at a position, given by the numbers of the parts on the way from the root. -/
def at? : Expr → List Nat → Option Expr
  | e, [] => some e
  | e, i :: position => e.children[i]?.bind (at? · position)

theorem at?_cons {e sub : Expr} {i : Nat} {position : List Nat}
    (h : e.at? (i :: position) = some sub) :
    ∃ part, e.children[i]? = some part ∧ part ∈ e.children ∧ part.at? position = some sub := by
  obtain ⟨part, hpart, hsub⟩ := Option.bind_eq_some_iff.mp h
  exact ⟨part, hpart, List.mem_of_getElem? hpart, hsub⟩

/-- What changes an expression part by part keeps the positions. -/
theorem at?_map {g : Expr → Expr} (hg : ∀ e, (g e).children = e.children.map g) (e : Expr)
    (position : List Nat) : (g e).at? position = (e.at? position).map g := by
  induction position generalizing e with
  | nil => rfl
  | cons i position ih =>
      rw [at?, at?, hg, List.getElem?_map]
      cases e.children[i]? with
      | none => rfl
      | some part => exact ih part

theorem exists_occurs_of_at? {e sub : Expr} {position : List Nat}
    (h : e.at? position = some sub) : ∃ bs, e.Occurs bs sub := by
  induction position generalizing e with
  | nil =>
      cases h
      exact ⟨[], .here _⟩
  | cons i position ih =>
      obtain ⟨part, -, hmem, hsub⟩ := at?_cons h
      obtain ⟨bs, hocc⟩ := ih hsub
      obtain ⟨new, hnew⟩ := exists_mem_scopedParts hmem
      exact ⟨bs ++ new, .inside hnew hocc⟩

/-! ### Predicates -/

/-- The expression consists of a base and this many predicates on it. -/
inductive FiltersOn (base : Expr) : Nat → Expr → Prop
  | base : FiltersOn base 0 base
  | predicate {count n : Nat} {e condition : Expr} : FiltersOn base count e →
      FiltersOn base (count + 1) (filter n e condition)

theorem FiltersOn.trans {a b c : Expr} {i j : Nat} (h : FiltersOn a i b) (h' : FiltersOn b j c) :
    FiltersOn a (i + j) c := by
  induction h' with
  | base => exact h
  | predicate _ ih => exact .predicate ih

theorem FiltersOn.isBare {base e : Expr} {count : Nat} (h : FiltersOn base count e) :
    e.isBare = base.isBare := by
  induction h with
  | base => rfl
  | predicate _ ih => exact ih

/-- The axes that number nodes against the order of the document. -/
def reverseAxes : List Axis :=
  [.ancestor, .ancestorOrSelf, .preceding, .precedingSibling]

theorem mem_reverseAxes {axis : Axis} : axis ∈ reverseAxes ↔ axis.isReverse = true := by
  cases axis <;> decide

/-- The node puts a step into the order of the document. -/
def isReversed : Expr → Bool
  | reverse _ _ => true
  | _ => false

theorem exists_step_of_isBare {e : Expr} (h : e.isBare = true) :
    ∃ count n axis test, FiltersOn (axisStep n axis test) count e ∧ axis ∈ reverseAxes := by
  induction e using parts_induction with
  | step e ih =>
      cases e with
      | axisStep n axis test => exact ⟨0, n, axis, test, .base, mem_reverseAxes.mpr h⟩
      | filter n base condition =>
          obtain ⟨count, m, axis, test, hfilters, haxis⟩ := ih base (by simp [children]) h
          exact ⟨count + 1, m, axis, test, .predicate hfilters, haxis⟩
      | _ => cases h

/-! ### Going down -/

/-- A bare part is the inside of what puts it into order, or the base of a predicate. -/
theorem IsOrdered.bare_part {e part : Expr} {i : Nat} (h : e.IsOrdered)
    (hpart : e.children[i]? = some part) (hbare : part.isBare = true) :
    i = 0 ∧ ((∃ n, e = reverse n part) ∨ ∃ n condition, e = filter n part condition) := by
  have hmem := List.mem_of_getElem? hpart
  cases e with
  | reverse n inner =>
      cases i with
      | zero =>
          cases hpart
          exact ⟨rfl, .inl ⟨n, rfl⟩⟩
      | succ i => cases hpart
  | filter n base condition =>
      have hcondition : condition.isBare = false := h
      rcases i with _ | _ | i
      · cases hpart
        exact ⟨rfl, .inr ⟨n, condition, rfl⟩⟩
      · cases hpart
        rw [hcondition] at hbare
        cases hbare
      · cases hpart
  | _ =>
      rw [h part hmem] at hbare
      cases hbare

/-- Where a step against the order of the document stands: it is what the whole expression puts
predicates on, or what a node puts into order after some predicates. -/
theorem position_of_reverseStep {σ : Setting} {c : Cursor} {e : Expr} (h : e.Assembled σ c)
    {position : List Nat} {n : Nat} {axis : Axis} {test : NodeTest}
    (hstep : e.at? position = some (axisStep n axis test)) (haxis : axis ∈ reverseAxes) :
    (∃ count, position = List.replicate count 0 ∧ FiltersOn (axisStep n axis test) count e) ∨
      ∃ above m inner count, position = above ++ 0 :: List.replicate count 0 ∧
        e.at? above = some (reverse m inner) ∧ FiltersOn (axisStep n axis test) count inner := by
  induction position generalizing e with
  | nil =>
      cases hstep
      exact .inl ⟨0, rfl, .base⟩
  | cons i position ih =>
      obtain ⟨part, hpart, hmem, hsub⟩ := at?_cons hstep
      rcases ih (h.part hmem) hsub with ⟨count, rfl, hfilters⟩ | ⟨above, m, inner, count, rfl, h⟩
      · -- the part is a bare step with predicates, so only two nodes can be above it
        have hbare : part.isBare = true := hfilters.isBare.trans (mem_reverseAxes.mp haxis)
        obtain ⟨rfl, ⟨m, rfl⟩ | ⟨m, condition, rfl⟩⟩ := (h [] e (.here e)).2.bare_part hpart hbare
        · exact .inr ⟨[], m, part, count, rfl, rfl, hfilters⟩
        · exact .inl ⟨count + 1, rfl, .predicate hfilters⟩
      · refine .inr ⟨i :: above, m, inner, count, rfl, ?_, h.2⟩
        rw [at?, hpart]
        exact h.1

end Expr

/-! ### Reading predicates -/

namespace Parse

variable {σ : Setting} {nested : Parse Expr} {s t : ParseState}

/-- From the one state to the other, this many predicates on a base have been read, and no more
follow. -/
inductive PredicatesRead (σ : Setting) (nested : Parse Expr) :
    Nat → Expr → ParseState → Expr → ParseState → Prop
  | none {e : Expr} {s : ParseState} : s.cursor.token ≠ .leftBracket →
      PredicatesRead σ nested 0 e s e s
  | more {count : Nat} {base e e' : Expr} {s t u : ParseState} :
      s.cursor.token = .leftBracket → predicate σ nested base s = .ok e t →
      PredicatesRead σ nested count e t e' u → PredicatesRead σ nested (count + 1) base s e' u

theorem PredicatesRead.filtersOn {count : Nat} {base e : Expr}
    (h : PredicatesRead σ nested count base s e t) : Expr.FiltersOn base count e := by
  induction h with
  | none _ => exact .base
  | more _ hfirst _ ih =>
      obtain ⟨_, condition, _, -, -, -, -, rfl⟩ := predicate_ok hfirst
      rw [Nat.add_comm]
      exact Expr.FiltersOn.trans (.predicate .base) ih

/-- The loop has enough rounds for all predicates that follow, since each one reads on. -/
theorem predicatesRead_of_repeatAtMost {levels : Nat} {n : Nat} {base e : Expr}
    (h : repeatAtMost (· = .leftBracket) (predicate σ (singleWithin σ levels)) n base s = .ok e t)
    (hn : s.cursor.token = .leftBracket → s.cursor.rest.length < n) :
    ∃ count, PredicatesRead σ (singleWithin σ levels) count base s e t := by
  induction n generalizing base s with
  | zero =>
      obtain ⟨rfl, rfl⟩ := pure_ok.mp h
      exact ⟨0, .none fun htoken => absurd (hn htoken) (Nat.not_lt_zero _)⟩
  | succ n ih =>
      by_cases htoken : s.cursor.token = .leftBracket
      · rw [repeatAtMost_round (by simp [htoken])] at h
        obtain ⟨first, u, hu, h⟩ := bind_ok.mp h
        have hshortens : s.cursor.Shortens u.cursor :=
          (MirrorsOn.predicate (d := 0) (singleWithin_mirrors levels levels)
            (by simp [htoken])).2 first u hu
        obtain ⟨count, hothers⟩ := ih h fun hagain => by
          rcases hshortens with hlength | ⟨-, hspent | hspent⟩
          · have := hn htoken
            omega
          · rw [hspent] at hagain
            cases hagain
          · rw [hspent] at hagain
            cases hagain
        exact ⟨count + 1, .more htoken hu hothers⟩
      · rw [repeatAtMost_stop (by simp [htoken])] at h
        obtain ⟨rfl, rfl⟩ := pure_ok.mp h
        exact ⟨0, .none htoken⟩

/-- A step against the order of the document is put back into it behind all of its predicates. -/
theorem step_of_axis {levels : Nat} {startsPattern : Bool} {e : Expr} {axis : Axis}
    (h : step σ (singleWithin σ levels) startsPattern s = .ok e t)
    (htoken : s.cursor.token = .axis) (haxis : Axis.ofName? s.cursor.value = some axis)
    (hreverse : axis.isReverse = true) :
    ∃ count test inner u v, e = .reverse inner.offset inner ∧
      Expr.FiltersOn (.axisStep s.cursor.offset axis test) count inner ∧
        PredicatesRead σ (singleWithin σ levels) count (.axisStep s.cursor.offset axis test) u
          inner v ∧ t.cursor = v.cursor := by
  obtain ⟨base, u, inner, v, hu, hv, rfl, rfl⟩ := step_ok h
  have hstep : axisStep σ s = .ok base u := by
    unfold primary at hu
    rw [token_bind, htoken] at hu
    exact hu
  obtain ⟨axis', _, test, haxis', -, -, rfl⟩ := axisStep_ok hstep
  obtain rfl : axis' = axis := Option.some.inj (haxis'.symm.trans haxis)
  obtain ⟨count, hpredicates⟩ :=
    predicatesRead_of_repeatAtMost (repeatWhile_eq ▸ hv) fun _ => Nat.lt_succ_self _
  refine ⟨count, test, inner, u, _, ?_, hpredicates.filtersOn, hpredicates, rfl⟩
  exact if_pos hreverse

/-- Predicates on an expression in parentheses stay outside of it. -/
theorem step_of_parentheses {levels : Nat} {startsPattern : Bool} {e : Expr}
    (h : step σ (singleWithin σ levels) startsPattern s = .ok e t)
    (htoken : s.cursor.token = .leftParen) :
    ∃ count inner u v, parenthesized σ (singleWithin σ levels) s = .ok inner u ∧
      Expr.FiltersOn inner count e ∧
        PredicatesRead σ (singleWithin σ levels) count inner u e v ∧ t.cursor = v.cursor := by
  obtain ⟨base, u, filtered, v, hu, hv, rfl, rfl⟩ := step_ok h
  have hbase : parenthesized σ (singleWithin σ levels) s = .ok base u := by
    unfold primary at hu
    rw [token_bind, htoken] at hu
    exact hu
  have hforward : isReverseStep base = false := by
    obtain ⟨_, -, ⟨-, rfl⟩ | ⟨_, hinner, -⟩⟩ := parenthesized_ok hbase
    · rfl
    · exact expression_forward hinner
  rw [hforward]
  obtain ⟨count, hpredicates⟩ :=
    predicatesRead_of_repeatAtMost (repeatWhile_eq ▸ hv) fun _ => Nat.lt_succ_self _
  exact ⟨count, base, u, _, hbase, hpredicates.filtersOn, hpredicates, rfl⟩

end Parse

/-! ### Whole expressions -/

/-- Steps against the order of the document are put back into it once each, behind their own
predicates: under every node that does so there is such a step with predicates and nothing else,
and every such step is under such a node. The predicates on the step itself are inside, those on
a step in parentheses outside. -/
theorem Parser.reversed_once {p : Parser} {terminator : Token} {e : Expr}
    (h : (p.expression terminator).1 = .ok e) :
    (∀ position n inner, e.at? position = some (.reverse n inner) →
      ∃ count m axis test, Expr.FiltersOn (.axisStep m axis test) count inner ∧
        axis ∈ Expr.reverseAxes) ∧
    (∀ position n axis test, e.at? position = some (.axisStep n axis test) →
      axis ∈ Expr.reverseAxes → ∃ above m inner count,
        position = above ++ 0 :: List.replicate count 0 ∧
          e.at? above = some (.reverse m inner) ∧
            Expr.FiltersOn (.axisStep n axis test) count inner) ∧
    ∀ levels startsPattern s e t,
      step p.setting (singleWithin p.setting levels) startsPattern s = .ok e t →
      (∀ axis, s.cursor.token = .axis → Axis.ofName? s.cursor.value = some axis →
        axis ∈ Expr.reverseAxes → ∃ count test inner u v, e = .reverse inner.offset inner ∧
          Expr.FiltersOn (.axisStep s.cursor.offset axis test) count inner ∧
            PredicatesRead p.setting (singleWithin p.setting levels) count
              (.axisStep s.cursor.offset axis test) u inner v ∧ t.cursor = v.cursor) ∧
      (s.cursor.token = .leftParen → ∃ count inner u v,
        parenthesized p.setting (singleWithin p.setting levels) s = .ok inner u ∧
          Expr.FiltersOn inner count e ∧
            PredicatesRead p.setting (singleWithin p.setting levels) count inner u e v ∧
              t.cursor = v.cursor) := by
  have hwhole : ∃ c, e.Whole p.setting c := by
    unfold Parser.expression Parser.run at h
    split at h
    · next e' t hrun =>
        cases h
        exact ⟨_, complete_assembled hrun⟩
    · cases h
  obtain ⟨c, hassembled, hforward⟩ := hwhole
  refine ⟨fun position n inner hat => ?_, fun position n axis test hat haxis => ?_,
    fun levels startsPattern s e t hstep => ⟨fun axis htoken hname haxis => ?_, fun htoken => ?_⟩⟩
  · obtain ⟨bs, hocc⟩ := Expr.exists_occurs_of_at? hat
    exact Expr.exists_step_of_isBare (hassembled bs _ hocc).2
  · rcases Expr.position_of_reverseStep hassembled hat haxis with ⟨count, -, hfilters⟩ | h
    · -- the whole expression is not a bare step
      rw [hfilters.isBare] at hforward
      exact absurd (Expr.mem_reverseAxes.mp haxis) (Bool.eq_false_iff.mp hforward)
    · exact h
  · exact step_of_axis hstep htoken hname (Expr.mem_reverseAxes.mp haxis)
  · exact step_of_parentheses hstep htoken

/-- A predicate on a step and one on the step in parentheses. -/
theorem Parser.reversed_once_of_predicates :
    ∃ e n inner count m axis test, ((Parser.ofSource "(ancestor::a[1])[2]" 0 .expression
        ({} : StaticContext).resolver []).expression .eof).1 = .ok e ∧
      e.at? [0] = some (.reverse n inner) ∧
        Expr.FiltersOn (.axisStep m axis test) count inner ∧ axis ∈ Expr.reverseAxes := by
  obtain ⟨e, he, hinside⟩ := exists_of_any (r := ((Parser.ofSource "(ancestor::a[1])[2]" 0
    .expression ({} : StaticContext).resolver []).expression .eof).1)
    (c := fun e => (e.at? [0]).any Expr.isReversed) (by decide +kernel)
  obtain ⟨part, hat, hpart⟩ := (Option.any_eq_true _ _).mp hinside
  cases part with
  | reverse n inner =>
      obtain ⟨count, m, axis, test, hfilters, haxis⟩ :=
        (Parser.reversed_once he).1 [0] n inner hat
      exact ⟨e, n, inner, count, m, axis, test, he, hat, hfilters, haxis⟩
  | _ => cases hpart

end XPath
