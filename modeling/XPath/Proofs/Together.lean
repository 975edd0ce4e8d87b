import XPath.Proofs.PairReading

/-!
# Readers of one source with two hosts

Two readers of one source do the same as long as their hosts answer alike. A pair of them
(`Pair.together`) is in one state all the time, so that a part which does not ask about what the
hosts disagree on gives the same for both (`Pair.Agree.same`). Where only the successes of the
first reader count, all that is needed is that the second one repeats them (`Parse.Repeats`),
and for node tests and types it does when it does for names.
-/

namespace XPath

open Parse

/-- Two readers with hosts of their own, of which the first one may fail in some ways where the
second one goes on. -/
def Pair.together (σ σ' : Setting) (Gone : Error → Prop) : Pair where
  left := σ
  right := σ'
  Beside c c' := c' = c
  Starts _ := True
  Failing _ e _ e' := e' = e
  Gone := Gone
  extra := 0
  offset n := n
  axis _ _ axis := axis

namespace Pair

variable {α : Type} {σ σ' : Setting} {Gone : Error → Prop} {s s' : ParseState}

theorem lawful_together (hlanguage : σ'.language = σ.language) :
    (together σ σ' Gone).Lawful := by
  have hreport : ∀ c f, report σ' c f = report σ c f := fun c f => by
    unfold report Parse.failure
    rw [hlanguage]
  refine .of_shared id (fun _ => rfl) (fun _ => rfl) (fun _ _ => ⟨rfl, fun _ => trivial⟩)
    (fun _ _ => hreport _ _) ?_ (fun h => absurd rfl h)
  rintro f - _ c rfl
  exact hreport c f

theorem linked_together (s : ParseState) : (together σ σ' Gone).Linked s s :=
  ⟨rfl, rfl, rfl, rfl, rfl⟩

/-- Both readers are in one state. -/
theorem eq_of_linked (h : (together σ σ' Gone).Linked s s') : s' = s := by
  obtain ⟨hcursor, hscope, hnextId, hdepth, hwarnings⟩ := h
  have hcursor : s'.cursor = s.cursor := hcursor
  have hdepth : s.depth = s'.depth := hdepth
  cases s
  cases s'
  simp_all

theorem tree_together (e : Expr) : (together σ σ' Gone).tree e = e :=
  Expr.relocate_eq_self (fun _ => rfl) (fun _ => rfl) (fun _ _ _ => rfl) e

theorem mild_together : (together σ σ' Gone).relocation.IsMild :=
  ⟨fun _ _ h => h, fun _ _ _ => .inl rfl⟩

namespace Agree

/-- What both readers do alike they agree on. -/
theorem same (r : EStateM.Result Error ParseState α) :
    (together σ σ' Gone).Agree (fun a t b t' => b = a ∧ t' = t) r r := by
  cases r with
  | ok a t => exact .ok ⟨rfl, rfl⟩
  | error e t => exact .fail rfl rfl rfl

/-- A part that reads nothing and is the same for both. -/
theorem stateless {p q : Parse α} (hp : Stateless p) (heq : q = p)
    (h : (together σ σ' Gone).Linked s s') :
    (together σ σ' Gone).Agree (Stays s s') (p s) (q s') := by
  subst heq
  obtain rfl := eq_of_linked h
  refine ((same (q s')).also fun a t hr => (hp s' a t hr).1).mono ?_
  rintro a t b t' ⟨⟨rfl, rfl⟩, rfl⟩
  exact ⟨rfl, rfl, rfl⟩

/-- A part that gives an expression and is the same for both. -/
theorem expr {p q : Parse Expr} (heq : q = p) (h : (together σ σ' Gone).Linked s s') :
    (together σ σ' Gone).Agree ((together σ σ' Gone).Gives (together σ σ' Gone).tree)
      (p s) (q s') := by
  subst heq
  obtain rfl := eq_of_linked h
  refine (same (q s')).mono ?_
  rintro a t b t' ⟨rfl, rfl⟩
  exact ⟨(tree_together b).symm, linked_together t'⟩

end Agree

/-- What comes of both readers is the same, unless the first one fails in a way of its own. -/
theorem reading_of_agree {action : Setting → Parse α} {Q : α → ParseState → α → ParseState → Prop}
    (hsame : ∀ {a t b t'}, Q a t b t' → b = a ∧ t' = t)
    (h : (together σ σ' Gone).Agree Q (action σ s) (action σ' s)) :
    Parser.reading (Parser.run ⟨σ', s⟩ action) = Parser.reading (Parser.run ⟨σ, s⟩ action) ∨
      ∃ e, (Parser.reading (Parser.run ⟨σ, s⟩ action)).outcome = .error e ∧ Gone e := by
  unfold Parser.run
  dsimp only
  generalize action σ s = r, action σ' s = r' at h
  cases h with
  | ok hgives =>
      obtain ⟨rfl, rfl⟩ := hsame hgives
      exact .inl rfl
  | fail herror _ hwarnings =>
      refine .inl ?_
      unfold Parser.reading
      rw [show _ = _ from herror, hwarnings]
  | gone hgone => exact .inr ⟨_, rfl, hgone⟩

end Pair

/-! ### Successes that are repeated -/

namespace Parse

variable {α : Type} {σ σ' : Setting}

theorem Stateless.knownType (lexical : String) (name : ExpandedName) :
    Stateless (knownType σ lexical name) := by
  unfold Parse.knownType
  split
  · exact .reject _
  · exact .pure _

theorem Stateless.allowedTest : Stateless (allowedTest σ) := by
  unfold Parse.allowedTest
  split
  · exact .pure _
  · exact .reject _

/-- What the first part gives, the second one gives as well. -/
def Repeats (p q : Parse α) : Prop :=
  ∀ s a t, p s = .ok a t → q s = .ok a t

/-- Nothing is said of the failures of the first reader. -/
abbrev successes (σ σ' : Setting) : Pair :=
  .together σ σ' fun _ => True

namespace Repeats

/-- Where the readers agree, a success is one of both. -/
theorem ok_of_agree {r r' : EStateM.Result Error ParseState α} {a : α} {t : ParseState}
    (h : (successes σ σ').Agree ((successes σ σ').Gives id) r r') (hr : r = .ok a t) :
    r' = .ok a t := by
  subst hr
  cases h with
  | ok hgives =>
      obtain ⟨rfl, hlinked⟩ := hgives
      rw [Pair.eq_of_linked hlinked]

theorem agree {p q : Parse α} (hrepeats : Repeats p q) (hp : Stateless p) {s s' : ParseState}
    (h : (successes σ σ').Linked s s') :
    (successes σ σ').Agree (Pair.Stays s s') (p s) (q s') := by
  obtain rfl := Pair.eq_of_linked h
  cases hr : p s' with
  | ok a t =>
      obtain rfl := (hp s' a t hr).1
      rw [hrepeats t a t hr]
      exact .ok ⟨rfl, rfl, rfl⟩
  | error e t => exact .gone trivial

end Repeats

end Parse

end XPath
