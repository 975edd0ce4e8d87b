import XPath.Proofs.Conduct
import XPath.Proofs.Lockstep
import XPath.Proofs.Relocation

/-!
# Two readers side by side

Two readers that read the same tokens agree: both give a value, or both fail for the same reason.
They may read different sources, for different languages or with different hosts. A `Pair` says
where their cursors may stand at the same time, how their failures belong together, and how the
tree of the one is found in that of the other. What has to be known of it is what it means to read
one token (`Pair.Lawful`) and to ask the hosts (`Pair.TypeAnswers`, `Pair.Answers`).
`Pair.Agree` is the relation between the two results, with a property of the values and states,
and each production keeps the readers side by side.
-/

namespace XPath

namespace Parse

variable {α : Type}

/-- The result with something else in the state after it. -/
def withState (g : ParseState → ParseState) :
    EStateM.Result Error ParseState α → EStateM.Result Error ParseState α
  | .ok a t => .ok a (g t)
  | .error e t => .error e (g t)

end Parse

/-- An expression may start behind the token. Behind a slash a path goes on, and behind a closing
parenthesis an expression has ended. -/
def Token.opensExpression : Token → Bool
  | .slash | .slashSlash | .rightParen => false
  | _ => true

/-- The fault is one of syntax, or one in a name or type. -/
def Fault.isPlain (f : Fault) : Bool :=
  match f.ownCode? with
  | none | some .XPTY0004 | some .XPST0051 | some .XPST0008 => true
  | _ => false

open Parse

/-- Two readers. What is said of failures is said of the first one's cursor and error, and then
of the second one's. -/
structure Pair where
  left : Setting
  right : Setting
  /-- where the cursors of both may stand -/
  Beside : Cursor → Cursor → Prop
  /-- where an expression may start -/
  Starts : Cursor → Prop
  /-- how both may fail -/
  Failing : Cursor → Error → Cursor → Error → Prop
  /-- failures of the first reader after which the second one may do anything -/
  Gone : Error → Prop
  /-- the levels that the first reader has in use and the second one has not -/
  extra : Nat
  /-- where the second reader finds what the first one finds at an offset -/
  offset : Nat → Nat
  /-- the axis that the second reader finds for a step of the first one -/
  axis : Nat → NodeTest → Axis → Axis

namespace Pair

variable {α β : Type} (P : Pair)

/-- From the trees of the first reader to those of the second one. -/
def relocation : Relocation where
  offset := P.offset
  id i := i
  axis := P.axis

/-- What the second reader gives where the first one gives this expression. -/
abbrev tree (e : Expr) : Expr :=
  e.relocate P.relocation

/-- Both readers have read the same. -/
structure Linked (s s' : ParseState) : Prop where
  cursor : P.Beside s.cursor s'.cursor
  scope : s'.scope = s.scope
  nextId : s'.nextId = s.nextId
  depth : s.depth = s'.depth + P.extra
  warnings : s'.warnings = s.warnings

/-- Two results agree: both are values, of which a property holds together with the states after
them, or both are errors that belong together, or the first one is an error after which the
second one does not matter. -/
inductive Agree (Q : α → ParseState → β → ParseState → Prop) :
    EStateM.Result Error ParseState α → EStateM.Result Error ParseState β → Prop
  | ok {a : α} {t : ParseState} {b : β} {t' : ParseState} : Q a t b t' →
      Agree Q (.ok a t) (.ok b t')
  | fail {e e' : Error} {t t' : ParseState} : P.Failing t.cursor e t'.cursor e' →
      t'.nextId = t.nextId → t'.warnings = t.warnings → Agree Q (.error e t) (.error e' t')
  | gone {e : Error} {t : ParseState} {r : EStateM.Result Error ParseState β} : P.Gone e →
      Agree Q (.error e t) r

/-- The values correspond and the readers stay side by side. -/
def Gives (f : α → β) (a : α) (t : ParseState) (b : β) (t' : ParseState) : Prop :=
  b = f a ∧ P.Linked t t'

/-- The values are the same and nothing has been read. -/
def Stays (s s' : ParseState) (a : α) (t : ParseState) (b : α) (t' : ParseState) : Prop :=
  b = a ∧ t = s ∧ t' = s'

/-- Both readers report this fault, each in its way. -/
def Reports (f : Fault) : Prop :=
  ∀ c c', P.Beside c c' → P.Failing c (report P.left c f) c' (report P.right c' f)

/-! ### What has to be known -/

/-- Both readers read the same next token from wherever they stand side by side, and report the
same faults. Nothing is read beyond a closing brace. -/
class Lawful : Prop where
  token : ∀ {c c'}, P.Beside c c' → c'.token = c.token
  value : ∀ {c c'}, P.Beside c c' → c'.value = c.value
  seen : ∀ {c c'}, P.Beside c c' → c'.seen = c.seen
  offset : ∀ {c c'}, P.Beside c c' → c'.offset = P.offset c.offset
  length : ∀ {c c'}, P.Beside c c' → c.rest.length ≤ c'.rest.length
  endOperand : ∀ {c c'}, P.Beside c c' → c.token ≠ .rightBrace →
    P.Beside c.endOperand c'.endOperand
  advance : ∀ {c c' d}, P.Beside c c' → c.token ≠ .rightBrace → c.advance = (.ok (), d) →
    ∃ d', c'.advance = (.ok (), d') ∧ P.Beside d d' ∧
      (c.token.opensExpression = true → P.Starts d)
  lexical : ∀ {c c' d e}, P.Beside c c' → c.token ≠ .rightBrace → c.advance = (.error e, d) →
    P.Gone (report P.left d (.lexical e)) ∨ ∃ d', c'.advance = (.error e, d') ∧
      P.Failing d (report P.left d (.lexical e)) d' (report P.right d' (.lexical e))
  plain : ∀ f : Fault, f.isPlain = true → P.Reports f
  tooDeep : P.extra ≠ 0 → ∀ c, P.Gone (report P.left c .tooDeep)

variable {P} {s s' : ParseState}

/-- Where both readers have one cursor, only what stays known of it has to be said. -/
theorem Lawful.of_shared (hshared : ∀ {c c'}, P.Beside c c' → c' = c)
    (hoffset : ∀ n, P.offset n = n)
    (hendOperand : ∀ {c}, P.Beside c c → P.Beside c.endOperand c.endOperand)
    (hadvance : ∀ {c d}, P.Beside c c → c.advance = (.ok (), d) →
      P.Beside d d ∧ (c.token.opensExpression = true → P.Starts d))
    (hlexical : ∀ {c d e}, P.Beside c c → c.advance = (.error e, d) →
      P.Failing d (report P.left d (.lexical e)) d (report P.right d (.lexical e)))
    (hplain : ∀ f : Fault, f.isPlain = true → P.Reports f)
    (htooDeep : P.extra ≠ 0 → ∀ c, P.Gone (report P.left c .tooDeep)) : P.Lawful where
  token h := by rw [hshared h]
  value h := by rw [hshared h]
  seen h := by rw [hshared h]
  offset h := by rw [hshared h, hoffset]
  length h := hshared h ▸ Nat.le_refl _
  endOperand {c c'} h _ := by
    obtain rfl : c' = c := hshared h
    exact hendOperand h
  advance {c c' d} h _ hd := by
    obtain rfl : c' = c := hshared h
    exact ⟨d, hd, hadvance h hd⟩
  lexical {c c' d e} h _ hd := by
    obtain rfl : c' = c := hshared h
    exact .inr ⟨d, hd, hlexical h hd⟩
  plain := hplain
  tooDeep := htooDeep

theorem describe_eq [P.Lawful] {c c' : Cursor} (h : P.Beside c c') :
    c'.describe = c.describe := by
  unfold Cursor.describe
  rw [Lawful.token h, Lawful.value h]

namespace Linked

/-- Readers stay side by side when their cursors do, and nothing else changes. -/
theorem withCursor {c c' : Cursor} (h : P.Linked s s') (hc : P.Beside c c') :
    P.Linked { s with cursor := c } { s' with cursor := c' } :=
  ⟨hc, h.scope, h.nextId, h.depth, h.warnings⟩

end Linked

namespace Agree

variable {γ δ : Type} {p : Parse α} {p' : Parse β} {q : α → Parse γ} {q' : β → Parse δ}
  {Q : α → ParseState → β → ParseState → Prop} {R : γ → ParseState → δ → ParseState → Prop}

/-! ### Steps in a row -/

theorem mono {Q' : α → ParseState → β → ParseState → Prop}
    {r : EStateM.Result Error ParseState α} {r' : EStateM.Result Error ParseState β}
    (h : P.Agree Q r r') (hQ : ∀ a t b t', Q a t b t' → Q' a t b t') : P.Agree Q' r r' := by
  cases h with
  | ok h => exact .ok (hQ _ _ _ _ h)
  | fail he hids hwarnings => exact .fail he hids hwarnings
  | gone he => exact .gone he

/-- What is known of the first reader alone. -/
theorem also {S : α → ParseState → Prop} {r : EStateM.Result Error ParseState α}
    {r' : EStateM.Result Error ParseState β} (h : P.Agree Q r r')
    (hS : ∀ a t, r = .ok a t → S a t) :
    P.Agree (fun a t b t' => Q a t b t' ∧ S a t) r r' := by
  cases h with
  | ok h => exact .ok ⟨h, hS _ _ rfl⟩
  | fail he hids hwarnings => exact .fail he hids hwarnings
  | gone he => exact .gone he

/-- An error agrees with whatever the second reader makes of an error. -/
theorem fails {Q' : γ → ParseState → δ → ParseState → Prop} {e : Error} {t : ParseState}
    {r₁ : EStateM.Result Error ParseState β} {r' : EStateM.Result Error ParseState δ}
    (h : P.Agree Q (.error e t) r₁) (hr : ∀ e' t', r₁ = .error e' t' → r' = .error e' t') :
    P.Agree Q' (.error e t) r' := by
  cases h with
  | @fail _ e' _ t' he hids hwarnings =>
      rw [hr e' t' rfl]
      exact .fail he hids hwarnings
  | gone he => exact .gone he

/-- Readers that agree on a first step and on what is made of it agree on both. -/
theorem bind (hp : P.Agree Q (p s) (p' s'))
    (hq : ∀ a t b t', Q a t b t' → P.Agree R (q a t) (q' b t')) :
    P.Agree R ((p >>= q) s) ((p' >>= q') s') := by
  cases hr : p s with
  | ok a t =>
      rw [hr] at hp
      cases hr' : p' s' with
      | ok b t' =>
          rw [hr'] at hp
          cases hp with
          | ok h =>
              rw [bind_run hr, bind_run hr']
              exact hq a t b t' h
      | error e' t' =>
          rw [hr'] at hp
          cases hp
  | error e t =>
      rw [hr] at hp
      rw [bind_fails hr]
      cases hr' : p' s' with
      | ok b t' =>
          rw [hr'] at hp
          cases hp with
          | gone he => exact .gone he
      | error e' t' =>
          rw [hr'] at hp
          cases hp with
          | fail he hids hwarnings =>
              rw [bind_fails hr']
              exact .fail he hids hwarnings
          | gone he => exact .gone he

theorem pure {a : α} {b : β} (h : Q a s b s') :
    P.Agree Q ((Pure.pure a : Parse α) s) ((Pure.pure b : Parse β) s') :=
  .ok h

/-! ### What the readers look at -/

section Steps

variable [P.Lawful]

/-- Readers side by side look at the same token. -/
theorem token {q : Token → Parse γ} {q' : Token → Parse δ} (h : P.Linked s s')
    (hq : ∀ k, s.cursor.token = k → P.Agree R (q k s) (q' k s')) :
    P.Agree R ((Parse.token >>= q) s) ((Parse.token >>= q') s') := by
  rw [token_bind, token_bind, Lawful.token h.cursor]
  exact hq _ rfl

theorem value {q : String → Parse γ} {q' : String → Parse δ} (h : P.Linked s s')
    (hq : ∀ text, s.cursor.value = text → P.Agree R (q text s) (q' text s')) :
    P.Agree R ((Parse.value >>= q) s) ((Parse.value >>= q') s') := by
  rw [value_bind, value_bind, Lawful.value h.cursor]
  exact hq _ rfl

theorem offset {q : Nat → Parse γ} {q' : Nat → Parse δ} (h : P.Linked s s')
    (hq : ∀ n, s.cursor.offset = n → P.Agree R (q n s) (q' (P.offset n) s')) :
    P.Agree R ((Parse.offset >>= q) s) ((Parse.offset >>= q') s') := by
  rw [offset_bind, offset_bind, Lawful.offset h.cursor]
  exact hq _ rfl

theorem found {q : String → Parse γ} {q' : String → Parse δ} (h : P.Linked s s')
    (hq : ∀ shown, P.Agree R (q shown s) (q' shown s')) :
    P.Agree R ((Parse.found >>= q) s) ((Parse.found >>= q') s') := by
  have hright : (Parse.found >>= q') s' = q' s.cursor.describe s' := by
    rw [← describe_eq h.cursor]
    rfl
  rw [hright]
  exact hq _

/-! ### Faults -/

omit [P.Lawful] in
/-- A fault that both report is reported by both here. -/
theorem rejects {f : Fault} (hf : P.Reports f) (h : P.Linked s s') :
    P.Agree Q (Parse.reject P.left f s) (Parse.reject P.right f s') :=
  .fail (hf _ _ h.cursor) h.nextId h.warnings

theorem reject {f : Fault} (h : P.Linked s s') (hf : f.isPlain = true) :
    P.Agree Q (Parse.reject P.left f s) (Parse.reject P.right f s') :=
  .rejects (Lawful.plain f hf) h

omit [P.Lawful] in
theorem rejects_bind {f : Fault} {q : α → Parse γ} {q' : β → Parse δ} (hf : P.Reports f)
    (h : P.Linked s s') :
    P.Agree R ((Parse.reject P.left f >>= q) s) ((Parse.reject P.right f >>= q') s') :=
  .bind (Q := fun _ _ _ _ => False) (.rejects hf h) fun _ _ _ _ => False.elim

theorem reject_bind {f : Fault} {q : α → Parse γ} {q' : β → Parse δ} (h : P.Linked s s')
    (hf : f.isPlain = true) :
    P.Agree R ((Parse.reject P.left f >>= q) s) ((Parse.reject P.right f >>= q') s') :=
  .rejects_bind (Lawful.plain f hf) h

/-! ### Moving on -/

/-- Both readers go on by one token, or fail at the same one. -/
theorem advance {q : Unit → Parse γ} {q' : Unit → Parse δ} (h : P.Linked s s')
    (hs : s.cursor.token ≠ .rightBrace)
    (hq : ∀ t t', P.Linked t t' →
      (s.cursor.token.opensExpression = true → P.Starts t.cursor) →
        P.Agree R (q () t) (q' () t')) :
    P.Agree R ((Parse.advance P.left >>= q) s) ((Parse.advance P.right >>= q') s') := by
  cases hc : s.cursor.advance with | mk outcome c =>
  cases outcome with
  | ok _ =>
      obtain ⟨c', hc', hbeside, hstarts⟩ := Lawful.advance h.cursor hs hc
      rw [bind_run (advance_run hc), bind_run (advance_run hc')]
      exact hq _ _ (h.withCursor hbeside) hstarts
  | error e =>
      have hleft : Parse.advance P.left s =
          .error (report P.left c (.lexical e)) { s with cursor := c } := by
        unfold Parse.advance
        rw [get_bind, hc]
        rfl
      rw [bind_fails hleft]
      rcases Lawful.lexical h.cursor hs hc with hgone | ⟨c', hc', hfailing⟩
      · exact .gone hgone
      · have hright : Parse.advance P.right s' =
            .error (report P.right c' (.lexical e)) { s' with cursor := c' } := by
          unfold Parse.advance
          rw [get_bind, hc']
          rfl
        rw [bind_fails hright]
        exact .fail hfailing h.nextId h.warnings

theorem expect {k : Token} {q : Unit → Parse γ} {q' : Unit → Parse δ} (h : P.Linked s s')
    (hq : s.cursor.token = k → P.Agree R (q () s) (q' () s')) :
    P.Agree R ((Parse.expect P.left k >>= q) s) ((Parse.expect P.right k >>= q') s') := by
  by_cases hk : s.cursor.token = k
  · rw [bind_run (expect_run hk), bind_run (expect_run ((Lawful.token h.cursor).trans hk))]
    exact hq hk
  · refine .bind (Q := fun _ _ _ _ => False) ?_ fun _ _ _ _ => False.elim
    unfold Parse.expect
    refine token h fun t ht => ?_
    rw [if_pos (ht ▸ hk), if_pos (ht ▸ hk)]
    exact found h fun shown => reject h rfl

theorem skip {k : Token} {q : Unit → Parse γ} {q' : Unit → Parse δ} (h : P.Linked s s')
    (hk : k ≠ .rightBrace)
    (hq : ∀ t t', P.Linked t t' → (k.opensExpression = true → P.Starts t.cursor) →
      P.Agree R (q () t) (q' () t')) :
    P.Agree R ((Parse.skip P.left k >>= q) s) ((Parse.skip P.right k >>= q') s') := by
  unfold Parse.skip
  rw [bind_assoc, bind_assoc]
  refine expect h fun htoken => ?_
  subst htoken
  exact advance h hk hq

theorem skipMark {q : Unit → Parse γ} {q' : Unit → Parse δ} (h : P.Linked s s')
    (hs : s.cursor.token ≠ .rightBrace)
    (hq : ∀ t t', P.Linked t t' → P.Agree R (q () t) (q' () t')) :
    P.Agree R ((Parse.skipMark P.left >>= q) s) ((Parse.skipMark P.right >>= q') s') := by
  unfold Parse.skipMark
  rw [bind_assoc, bind_assoc]
  exact advance (h.withCursor (Lawful.endOperand h.cursor hs)) (by simp [Cursor.endOperand])
    fun t t' ht _ => hq t t' ht

theorem warn {message : String} {q : Unit → Parse γ} {q' : Unit → Parse δ} (h : P.Linked s s')
    (hq : ∀ t t', P.Linked t t' → t.cursor = s.cursor → P.Agree R (q () t) (q' () t')) :
    P.Agree R ((Parse.warn message >>= q) s) ((Parse.warn message >>= q') s') := by
  have hplace : place s'.cursor = place s.cursor := by
    unfold place Cursor.excerpt
    rw [Lawful.seen h.cursor]
  refine hq { s with warnings := _ } { s' with warnings := _ }
    ⟨h.cursor, h.scope, h.nextId, h.depth, ?_⟩ rfl
  show s'.warnings ++ [place s'.cursor ++ message] = s.warnings ++ [place s.cursor ++ message]
  rw [h.warnings, hplace]

/-! ### Nesting and scope -/

/-- Both readers take the same levels, and the second one has as many left at least. -/
theorem descend {levels : Nat} {q : Unit → Parse γ} {q' : Unit → Parse δ} (h : P.Linked s s')
    (hq : ∀ t t', P.Linked t t' → t.cursor = s.cursor → P.Agree R (q () t) (q' () t')) :
    P.Agree R ((Parse.descend P.left levels >>= q) s)
      ((Parse.descend P.right levels >>= q') s') := by
  have hlinked : P.Linked { s with depth := s.depth + levels }
      { s' with depth := s'.depth + levels } :=
    ⟨h.cursor, h.scope, h.nextId, by rw [h.depth, Nat.add_right_comm], h.warnings⟩
  by_cases hleft : s.depth + levels ≤ maxDepth
  · have hright : s'.depth + levels ≤ maxDepth := by have := h.depth; omega
    rw [bind_run (descend_run hleft), bind_run (descend_run hright)]
    exact hq _ _ hlinked rfl
  · rw [bind_fails (descend_fails hleft)]
    by_cases hextra : P.extra = 0
    · have hright : ¬s'.depth + levels ≤ maxDepth := by have := h.depth; omega
      rw [bind_fails (descend_fails hright)]
      exact .fail (Lawful.plain .tooDeep rfl _ _ h.cursor) h.nextId h.warnings
    · exact .gone (Lawful.tooDeep hextra s.cursor)

end Steps

/-- Both results go on in other states, in which the cursors are the same and no ids or warnings
have been lost. -/
theorem withState (g g' : ParseState → ParseState)
    (hg : ∀ t, (g t).cursor = t.cursor ∧ (g t).nextId = t.nextId ∧ (g t).warnings = t.warnings)
    (hg' : ∀ t, (g' t).cursor = t.cursor ∧ (g' t).nextId = t.nextId ∧
      (g' t).warnings = t.warnings)
    {Q' : α → ParseState → β → ParseState → Prop} {r : EStateM.Result Error ParseState α}
    {r' : EStateM.Result Error ParseState β} (h : P.Agree Q r r')
    (hQ : ∀ a t b t', Q a t b t' → Q' a (g t) b (g' t')) :
    P.Agree Q' (Parse.withState g r) (Parse.withState g' r') := by
  cases h with
  | ok h => exact .ok (hQ _ _ _ _ h)
  | @fail e e' t t' he hids hwarnings =>
      obtain ⟨hcursor, hnextId, hkept⟩ := hg t
      obtain ⟨hcursor', hnextId', hkept'⟩ := hg' t'
      refine .fail ?_ ?_ ?_
      · rw [hcursor, hcursor']
        exact he
      · rw [hnextId, hnextId', hids]
      · rw [hkept, hkept', hwarnings]
  | gone he => exact .gone he

/-- Levels are given back by both readers. -/
theorem nesting {f : α → β} (h : P.Linked s s') (hp : P.Agree (P.Gives f) (p s) (p' s')) :
    P.Agree (P.Gives f) (Parse.nesting p s) (Parse.nesting p' s') := by
  have heq : ∀ {γ : Type} (p : Parse γ) (s : ParseState), Parse.nesting p s =
      Parse.withState (fun t => { t with depth := s.depth }) (p s) := fun p s => by
    unfold Parse.nesting
    cases p s <;> rfl
  rw [heq, heq]
  refine hp.withState (fun t => { t with depth := s.depth }) (fun t => { t with depth := s'.depth })
    (fun _ => ⟨rfl, rfl, rfl⟩) (fun _ => ⟨rfl, rfl, rfl⟩) ?_
  rintro a t b t' ⟨hb, ht⟩
  exact ⟨hb, ht.cursor, ht.scope, ht.nextId, h.depth, ht.warnings⟩

theorem binding {f : α → β} (h : P.Linked s s') (hp : P.Agree (P.Gives f) (p s) (p' s')) :
    P.Agree (P.Gives f) (Parse.binding p s) (Parse.binding p' s') := by
  have heq : ∀ {γ : Type} (p : Parse γ) (s : ParseState), Parse.binding p s =
      Parse.withState (fun t => { t with scope := s.scope }) (p s) := fun p s => by
    unfold Parse.binding
    cases p s <;> rfl
  rw [heq, heq]
  refine hp.withState (fun t => { t with scope := s.scope }) (fun t => { t with scope := s'.scope })
    (fun _ => ⟨rfl, rfl, rfl⟩) (fun _ => ⟨rfl, rfl, rfl⟩) ?_
  rintro a t b t' ⟨hb, ht⟩
  exact ⟨hb, ht.cursor, h.scope, ht.nextId, ht.depth, ht.warnings⟩

theorem declare {name : ExpandedName} (h : P.Linked s s') :
    P.Agree (P.Gives id) (Parse.declare name s) (Parse.declare name s') := by
  have hbound : (⟨s'.nextId, name, .singleItem⟩ : RangeVariable) =
      ⟨s.nextId, name, .singleItem⟩ := by
    rw [h.nextId]
  refine .ok ⟨hbound, h.cursor, ?_, ?_, h.depth, h.warnings⟩
  · show (⟨s'.nextId, name, .singleItem⟩ : RangeVariable) :: s'.scope = _
    rw [hbound, h.scope]
  · show s'.nextId + 1 = s.nextId + 1
    rw [h.nextId]

/-! ### Repetition -/

section Repetition

variable [P.Lawful] {f : α → α} {go : Token → Bool} {part part' : α → Parse α}

/-- Both readers stop at the same token. The first one has enough rounds left for that, since each
round reads on, and the second one has as many or more. What each round keeps holds at the end. -/
theorem repeatAtMost {K : ParseState → Prop} (heof : go .eof = false)
    (hparen : go .rightParen = false)
    (hshort : ∀ a s b t, go s.cursor.token = true → part a s = .ok b t →
      s.cursor.Shortens t.cursor)
    (hround : ∀ a s s', P.Linked s s' → K s → go s.cursor.token = true →
      P.Agree (fun b t b' t' => P.Gives f b t b' t' ∧ K t) (part a s) (part' (f a) s'))
    (n n' : Nat) (hn : n ≤ n') {a : α} (h : P.Linked s s') (hs : K s)
    (hlength : go s.cursor.token = true → s.cursor.rest.length < n) :
    P.Agree (fun b t b' t' => P.Gives f b t b' t' ∧ K t) (Parse.repeatAtMost go part n a s)
      (Parse.repeatAtMost go part' n' (f a) s') := by
  have hstop : ∀ {n n' : Nat} {a : α} {s s' : ParseState}, P.Linked s s' → K s →
      go s.cursor.token = false →
        P.Agree (fun b t b' t' => P.Gives f b t b' t' ∧ K t)
          (Parse.repeatAtMost go part n a s) (Parse.repeatAtMost go part' n' (f a) s') := by
    intro n n' a s s' h hs hgo
    rw [repeatAtMost_stop hgo, repeatAtMost_stop (by rw [Lawful.token h.cursor, hgo])]
    exact .ok ⟨⟨rfl, h⟩, hs⟩
  induction n generalizing n' a s s' with
  | zero =>
      cases hgo : go s.cursor.token with
      | false => exact hstop h hs hgo
      | true => exact absurd (hlength hgo) (Nat.not_lt_zero _)
  | succ n ih =>
      obtain ⟨n', rfl⟩ : ∃ m, n' = m + 1 := ⟨n' - 1, by omega⟩
      cases hgo : go s.cursor.token with
      | false => exact hstop h hs hgo
      | true =>
          have hgo' : go s'.cursor.token = true := by rw [Lawful.token h.cursor, hgo]
          rw [repeatAtMost_round hgo, repeatAtMost_round hgo']
          have hpart := (hround a s s' h hs hgo).also fun b t hr => hshort a s b t hgo hr
          refine .bind hpart ?_
          rintro b t b' t' ⟨⟨⟨rfl, ht⟩, hkept⟩, hshortens⟩
          refine ih n' (by omega) ht hkept fun hgo' => ?_
          rcases hshortens with hless | ⟨-, hspent | hspent⟩
          · have := hlength hgo
            omega
          · rw [hspent, heof] at hgo'
            cases hgo'
          · rw [hspent, hparen] at hgo'
            cases hgo'

/-- A loop that keeps something to its end. -/
theorem repeatKeeping {K : ParseState → Prop} (heof : go .eof = false)
    (hparen : go .rightParen = false)
    (hshort : ∀ a s b t, go s.cursor.token = true → part a s = .ok b t →
      s.cursor.Shortens t.cursor)
    (hround : ∀ a s s', P.Linked s s' → K s → go s.cursor.token = true →
      P.Agree (fun b t b' t' => P.Gives f b t b' t' ∧ K t) (part a s) (part' (f a) s'))
    {a : α} (h : P.Linked s s') (hs : K s) :
    P.Agree (fun b t b' t' => P.Gives f b t b' t' ∧ K t) (Parse.repeatWhile go part a s)
      (Parse.repeatWhile go part' (f a) s') :=
  repeatAtMost heof hparen hshort hround _ _ (Nat.succ_le_succ (Lawful.length h.cursor)) h hs
    fun _ => Nat.lt_succ_self _

/-- Both readers make the same rounds, since the same tokens ask for them. -/
theorem repeatWhile (heof : go .eof = false) (hparen : go .rightParen = false)
    (hshort : ∀ a s b t, go s.cursor.token = true → part a s = .ok b t →
      s.cursor.Shortens t.cursor)
    (hround : ∀ a s s', P.Linked s s' → go s.cursor.token = true →
      P.Agree (P.Gives f) (part a s) (part' (f a) s')) {a : α} (h : P.Linked s s') :
    P.Agree (P.Gives f) (Parse.repeatWhile go part a s) (Parse.repeatWhile go part' (f a) s') :=
  (repeatKeeping (K := fun _ => True) heof hparen hshort
    (fun a s s' h _ hgo => (hround a s s' h hgo).mono fun _ _ _ _ hgives => ⟨hgives, trivial⟩) h
      trivial).mono fun _ _ _ _ hgives => hgives.1

/-- Several parts with commas between them, where the first one may start and none reads back. -/
theorem commaSeparated {part part' : Parse α}
    (hlead : ∀ s a t, part s = .ok a t → s.cursor.LeadsTo t.cursor)
    (hpart : ∀ {s s'}, P.Linked s s' → P.Starts s.cursor →
      P.Agree (P.Gives f) (part s) (part' s'))
    (h : P.Linked s s') (hs : P.Starts s.cursor) :
    P.Agree (P.Gives (List.map f)) (Parse.commaSeparated P.left part s)
      (Parse.commaSeparated P.right part' s') := by
  unfold Parse.commaSeparated
  refine .bind (hpart h hs) ?_
  rintro first t b t' ⟨rfl, ht⟩
  refine .bind (Q := P.Gives (List.map f)) (repeatWhile rfl rfl ?_ ?_ ht) ?_
  · intro others s others' t hgo hr
    obtain ⟨_, u, hu, hr⟩ := bind_ok.mp hr
    obtain ⟨c, hc, rfl⟩ := advance_ok hu
    obtain ⟨a, v, hv, hr⟩ := bind_ok.mp hr
    obtain ⟨-, rfl⟩ := pure_ok.mp hr
    exact (Cursor.shortens_of_advance hc).trans (hlead _ a v hv)
  · intro others s s' h hgo
    have hcomma : s.cursor.token = .comma := of_decide_eq_true hgo
    refine advance h (by rw [hcomma]; simp) fun t t' ht hstarts => ?_
    refine .bind (hpart ht (hstarts (by rw [hcomma]; rfl))) ?_
    rintro a u b u' ⟨rfl, hu⟩
    exact .pure ⟨rfl, hu⟩
  · rintro others u others' u' ⟨rfl, hu⟩
    exact .pure ⟨by simp, hu⟩

end Repetition

end Agree

end Pair

/-! ### Asking about types -/

namespace Parse

/-- The type that a name means in a kind test. -/
def knownType (σ : Setting) (lexical : String) (name : ExpandedName) : Parse SchemaType :=
  match σ.host.schemaType? name with
  | none => reject σ (.unknownType lexical)
  | some type => pure type

/-- What is read of a sequence type after the first token of a source. -/
def wholeType (σ : Setting) : Parse SequenceType := do
  let type ← sequenceType σ
  if (← token) = .eof then return type else reject σ (.beyondType (← found))

/-- The test for namespace nodes, if there may be one. -/
def allowedTest (σ : Setting) : Parse NodeTest :=
  if σ.host.namespaceTests then pure (.kind .namespaceNode) else reject σ .namespaceTest

end Parse

namespace Pair

variable {P : Pair}

/-- The answers of the two hosts about names and types agree. -/
class TypeAnswers (P : Pair) : Prop extends P.Lawful where
  expandName : ∀ {s s'}, P.Linked s s' → ∀ lexical b, P.Agree (Stays s s')
    (expandName P.left lexical b s) (expandName P.right lexical b s')
  atomicType : ∀ {s s'}, P.Linked s s' → ∀ lexical, P.Agree (Stays s s')
    (atomicType P.left lexical s) (atomicType P.right lexical s')
  knownType : ∀ {s s'}, P.Linked s s' → ∀ lexical name, P.Agree (Stays s s')
    (knownType P.left lexical name s) (knownType P.right lexical name s')
  allowedTest : ∀ {s s'}, P.Linked s s' →
    P.Agree (Stays s s') (allowedTest P.left s) (allowedTest P.right s')

namespace Agree

variable [P.TypeAnswers] {s s' : ParseState}

/-! ### Kind tests -/

/-- What is behind the type in a test. -/
theorem nillable {k : NodeKind} (type : SchemaType) (h : P.Linked s s')
    (hname : s.cursor.token = .name) :
    P.Agree (P.Gives id)
      ((do
        Parse.advance P.left
        let nillable := k = NodeKind.element && (← Parse.token) = Token.questionMark
        if nillable then Parse.advance P.left
        return NodeTest.content k type nillable) s)
      ((do
        Parse.advance P.right
        let nillable := k = NodeKind.element && (← Parse.token) = Token.questionMark
        if nillable then Parse.advance P.right
        return NodeTest.content k type nillable) s') := by
  refine .advance h (by simp [hname]) fun t t' ht _ => ?_
  refine .token ht fun token htoken => ?_
  dsimp only
  split
  · next hmark =>
      have hbrace : t.cursor.token ≠ .rightBrace := by
        rintro hbrace
        rw [← htoken, hbrace] at hmark
        simp at hmark
      exact .advance ht hbrace fun u u' hu _ => .pure ⟨rfl, hu⟩
  · exact .pure ⟨rfl, ht⟩

theorem contentTest {k : NodeKind} (h : P.Linked s s') :
    P.Agree (P.Gives id) (contentTest P.left k s) (contentTest P.right k s') := by
  unfold Parse.contentTest
  refine .token h fun token htoken => ?_
  split
  · exact .reject h rfl
  · exact .reject h rfl
  · refine .value h fun lexical _ => ?_
    refine .bind (TypeAnswers.expandName h lexical true) ?_
    rintro _ _ name _ ⟨rfl, rfl, rfl⟩
    have hknown := TypeAnswers.knownType h lexical name
    unfold Parse.knownType at hknown
    cases hleft : P.left.host.schemaType? name with
    | none =>
        rw [hleft] at hknown
        refine hknown.fails fun e' t' he' => ?_
        cases hright : P.right.host.schemaType? name with
        | none =>
            rw [hright] at he'
            cases he'
            rfl
        | some type =>
            rw [hright] at he'
            cases he'
    | some type =>
        rw [hleft] at hknown
        cases hright : P.right.host.schemaType? name with
        | none =>
            rw [hright] at hknown
            cases hknown
        | some type' =>
            rw [hright] at hknown
            cases hknown with
            | ok hsame =>
                obtain ⟨rfl, -, -⟩ := hsame
                dsimp only
                split
                · exact .warn h fun t t' ht hcursor => nillable type' ht (by rw [hcursor, htoken])
                · exact nillable type' h htoken
  · exact .reject h rfl

/-- The name or star at the start of the arguments stays the current token. -/
theorem testName {k : NodeKind} {bySchema : Bool} (h : P.Linked s s') :
    P.Agree (fun a t b t' => Stays s s' a t b t' ∧ s.cursor.token ≠ .rightBrace)
      (testName P.left k bySchema s) (testName P.right k bySchema s') := by
  unfold Parse.testName
  refine .token h fun token htoken => ?_
  split
  · split
    · exact .reject h rfl
    · exact .pure ⟨⟨rfl, rfl, rfl⟩, by simp [htoken]⟩
  · split
    · exact .reject h rfl
    · exact .pure ⟨⟨rfl, rfl, rfl⟩, by simp [htoken]⟩
  · refine .value h fun lexical _ => ?_
    refine .bind (TypeAnswers.expandName h lexical _) ?_
    rintro name _ _ _ ⟨rfl, rfl, rfl⟩
    exact .pure ⟨⟨rfl, rfl, rfl⟩, by simp [htoken]⟩
  · exact .reject h rfl

theorem namedTest {k : NodeKind} {bySchema : Bool} (h : P.Linked s s') :
    P.Agree (P.Gives id) (namedTest P.left k bySchema s) (namedTest P.right k bySchema s') := by
  unfold Parse.namedTest
  refine .value h fun lexical _ => ?_
  refine .bind (testName h) ?_
  rintro name? _ _ _ ⟨⟨rfl, rfl, rfl⟩, hbrace⟩
  refine .advance h hbrace fun t t' ht _ => ?_
  refine .token ht fun token htoken => ?_
  split
  · refine .advance ht (by simp [htoken]) fun u u' hu _ => ?_
    split
    · exact .pure ⟨rfl, hu⟩
    · split
      · exact .pure ⟨rfl, hu⟩
      · split
        · exact .reject hu rfl
        · exact .reject hu rfl
  · dsimp only
    split
    · exact .reject_bind ht rfl
    · refine .advance ht (by simp [htoken]) fun u u' hu _ => ?_
      refine .bind (contentTest hu) ?_
      rintro content v _ v' ⟨rfl, hv⟩
      refine .skip hv (by simp) fun w w' hw _ => ?_
      split
      · exact .pure ⟨rfl, hw⟩
      · exact .pure ⟨rfl, hw⟩
  · exact .reject ht rfl

theorem elementTest {k : NodeKind} {bySchema : Bool} (h : P.Linked s s')
    (hs : s.cursor.token ≠ .rightBrace) :
    P.Agree (P.Gives id) (elementTest P.left k bySchema s)
      (elementTest P.right k bySchema s') := by
  unfold Parse.elementTest
  refine .advance h hs fun t t' ht _ => ?_
  refine .token ht fun token htoken => ?_
  split
  · next hclose =>
      dsimp only
      split
      · exact .reject_bind ht rfl
      · exact .advance ht (by simp [htoken, hclose]) fun u u' hu _ => .pure ⟨rfl, hu⟩
  · exact namedTest ht

/-- Arguments, or the lack of them, and what follows from that. -/
theorem emptyArguments {α β : Type} {q : Bool → Parse α} {q' : Bool → Parse β}
    {Q : α → ParseState → β → ParseState → Prop} (h : P.Linked s s')
    (hs : s.cursor.token ≠ .rightBrace)
    (hq : ∀ b t t', P.Linked t t' → P.Agree Q (q b t) (q' b t')) :
    P.Agree Q ((emptyArguments P.left >>= q) s) ((emptyArguments P.right >>= q') s') := by
  unfold Parse.emptyArguments
  simp only [bind_assoc]
  refine .advance h hs fun t t' ht _ => ?_
  refine .token ht fun token htoken => ?_
  split
  · next hclose =>
      simp only [bind_assoc, pure_bind]
      exact .advance ht (by simp [htoken, hclose]) fun u u' hu _ => hq true u u' hu
  · exact hq false t t' ht

theorem plainTest {word : String} {test : NodeTest} (h : P.Linked s s')
    (hs : s.cursor.token ≠ .rightBrace) :
    P.Agree (P.Gives id) (plainTest P.left word test s) (plainTest P.right word test s') := by
  refine .emptyArguments h hs fun b t t' ht => ?_
  split
  · exact .pure ⟨rfl, ht⟩
  · exact .reject ht rfl

theorem namespaceTest (h : P.Linked s s') (hs : s.cursor.token ≠ .rightBrace) :
    P.Agree (P.Gives id) (namespaceTest P.left s) (namespaceTest P.right s') := by
  refine .emptyArguments h hs fun b t t' ht => ?_
  cases b with
  | true =>
      refine (TypeAnswers.allowedTest ht).mono ?_
      rintro test _ _ _ ⟨rfl, rfl, rfl⟩
      exact ⟨rfl, ht⟩
  | false => exact .reject ht rfl

theorem documentTest (h : P.Linked s s') (hs : s.cursor.token ≠ .rightBrace) :
    P.Agree (P.Gives id) (documentTest P.left s) (documentTest P.right s') := by
  refine .emptyArguments h hs fun b t t' ht => ?_
  split
  · exact .pure ⟨rfl, ht⟩
  · refine .value ht fun word _ => ?_
    refine .token ht fun token htoken => ?_
    split
    · next hkeyword =>
        refine .bind (elementTest ht (by simp [htoken, hkeyword.1])) ?_
        rintro inner u _ u' ⟨rfl, hu⟩
        exact .skip hu (by simp) fun v v' hv _ => .pure ⟨rfl, hv⟩
    · exact .reject ht rfl

theorem instructionTarget (h : P.Linked s s') :
    P.Agree (fun a t b t' => Stays s s' a t b t' ∧ s.cursor.token ≠ .rightBrace)
      (instructionTarget P.left s) (instructionTarget P.right s') := by
  unfold Parse.instructionTarget
  refine .value h fun text _ => ?_
  refine .token h fun token htoken => ?_
  split
  · dsimp only
    split
    · exact .pure ⟨⟨rfl, rfl, rfl⟩, by simp [htoken]⟩
    · exact .reject h rfl
  · cases LexicalQName.parse? text with
    | none => exact .reject h rfl
    | some n =>
        dsimp only
        split
        · exact .pure ⟨⟨rfl, rfl, rfl⟩, by simp [htoken]⟩
        · exact .reject h rfl
  · exact .reject h rfl

theorem instructionTest (h : P.Linked s s') (hs : s.cursor.token ≠ .rightBrace) :
    P.Agree (P.Gives id) (instructionTest P.left s) (instructionTest P.right s') := by
  refine .emptyArguments h hs fun b t t' ht => ?_
  split
  · exact .pure ⟨rfl, ht⟩
  · refine .bind (instructionTarget ht) ?_
    rintro target _ _ _ ⟨⟨rfl, rfl, rfl⟩, hbrace⟩
    refine .advance ht hbrace fun u u' hu _ => ?_
    exact .skip hu (by simp) fun v v' hv _ => .pure ⟨rfl, hv⟩

/-- A test that starts with a keyword comes out the same, case by case on the keyword. -/
theorem kindTest (h : P.Linked s s') (hs : s.cursor.token ≠ .rightBrace) :
    P.Agree (P.Gives id) (kindTest P.left s) (kindTest P.right s') := by
  unfold Parse.kindTest
  refine .value h fun word _ => ?_
  split
  · exact plainTest h hs
  · exact plainTest h hs
  · exact plainTest h hs
  · exact namespaceTest h hs
  · exact documentTest h hs
  · exact instructionTest h hs
  · exact elementTest h hs
  · exact elementTest h hs
  · exact elementTest h hs
  · exact elementTest h hs
  · simp only [discard, map_const, Function.comp_apply, bind_map_left]
    exact .emptyArguments h hs fun b t t' ht => .reject ht rfl
  · exact .reject h rfl

/-! ### Sequence types -/

theorem plainType {type : ItemType} (h : P.Linked s s') (hs : s.cursor.token ≠ .rightBrace) :
    P.Agree (P.Gives id) (plainType P.left type s) (plainType P.right type s') := by
  refine .advance h hs fun _ _ ht _ => ?_
  exact .skip ht (by simp) fun _ _ hu _ => .pure ⟨rfl, hu⟩

theorem itemType (h : P.Linked s s') :
    P.Agree (P.Gives id) (itemType P.left s) (itemType P.right s') := by
  unfold Parse.itemType
  refine .token h fun token htoken => ?_
  split
  · refine .value h fun lexical _ => ?_
    refine .bind (TypeAnswers.atomicType h lexical) ?_
    rintro type _ _ _ ⟨rfl, rfl, rfl⟩
    exact .advance h (by simp [htoken]) fun t t' ht _ => .pure ⟨rfl, ht⟩
  · have hs : s.cursor.token ≠ .rightBrace := by simp [htoken]
    refine .value h fun word _ => ?_
    split
    · exact plainType h hs
    · exact plainType h hs
    · refine .bind (kindTest h hs) ?_
      rintro test t _ t' ⟨rfl, ht⟩
      exact .pure ⟨rfl, ht⟩
  · exact .reject h rfl

/-- A type comes out the same with the mark behind it. -/
theorem sequenceType (h : P.Linked s s') :
    P.Agree (P.Gives id) (sequenceType P.left s) (sequenceType P.right s') := by
  unfold Parse.sequenceType
  refine .bind (itemType h) ?_
  rintro item t _ t' ⟨rfl, ht⟩
  split
  · exact .pure ⟨rfl, ht⟩
  · refine .token ht fun token htoken => ?_
    cases hmark : occurrenceMark? token with
    | none => exact .pure ⟨rfl, ht⟩
    | some occurrence =>
        have hbrace : t.cursor.token ≠ .rightBrace := by
          rintro hbrace
          rw [← htoken, hbrace] at hmark
          cases hmark
        exact .skipMark ht hbrace fun u u' hu => .pure ⟨rfl, hu⟩

/-- A sequence type with nothing after it. -/
theorem wholeType (h : P.Linked s s') :
    P.Agree (P.Gives id) (wholeType P.left s) (wholeType P.right s') := by
  refine .bind (sequenceType h) ?_
  rintro type t _ t' ⟨rfl, ht⟩
  refine .token ht fun token htoken => ?_
  split
  · exact .pure ⟨rfl, ht⟩
  · exact .found ht fun shown => .reject ht rfl

end Agree

end Pair

end XPath
