import XPath.Proofs.Balance
import XPath.Proofs.Discipline
import XPath.Proofs.Tiling

/-!
# What errors show of the source

What a cursor has seen is the text of its source from where it started up to its position, also
when a token could not be read (`Cursor.Shows`). So the place of an error quotes that text, or its
last characters. Whether it has been cut is not kept: it is recognised again by the three dots, so
that a short text which starts with three dots itself is reported as if it had been cut
(`Parser.location_of_failure`).
-/

namespace XPath

open Parse

namespace Cursor

variable {source : String} {start : Nat} {c : Cursor}

/-- The cursor has seen the text of the source from an offset to its position, and has the text
after it still before it. -/
def Shows (source : String) (start : Nat) (c : Cursor) : Prop :=
  ∃ before, source.toList = before ++ (c.seen.reverse ++ c.rest) ∧ utf8Length before = start ∧
    c.position = start + utf8Length c.seen.reverse

theorem Shows.slice (h : c.Shows source start) :
    IsSlice source start c.position c.seen.reverse := by
  obtain ⟨before, hsource, hlength, hposition⟩ := h
  exact ⟨before, c.rest, hsource, hlength, hposition⟩

theorem ofSource_shows (source : String) (start : Nat) :
    (ofSource source start).Shows source (ofSource source start).position := by
  obtain ⟨before, hsource, hlength⟩ := (ofSource_stands source start).rest
  exact ⟨before, hsource, hlength, rfl⟩

theorem Shows.move (h : c.Shows source start) {text rest : List Char}
    (hrest : c.rest = text ++ rest) : (c.move text rest).Shows source start := by
  obtain ⟨before, hsource, hlength, hposition⟩ := h
  refine ⟨before, ?_, hlength, ?_⟩
  · simp [Cursor.move, hsource, hrest]
  · simp only [Cursor.move, List.reverse_append, List.reverse_reverse, utf8Length_append]
    omega

/-- What has been seen does not depend on how the current token is taken. -/
theorem Shows.of_eq {d : Cursor} (h : c.Shows source start) (hseen : d.seen = c.seen)
    (hrest : d.rest = c.rest) (hposition : d.position = c.position) : d.Shows source start := by
  unfold Shows at h ⊢
  rw [hseen, hrest, hposition]
  exact h

/-- Nothing is lost when a token is read, and nothing when it cannot be read. -/
theorem Shows.advance (h : c.Shows source start) : c.advance.2.Shows source start := by
  cases hgap : Token.trivia c.rest with
  | none =>
      simp only [Cursor.advance, hgap]
      exact h
  | some skipped =>
      obtain ⟨gap, rest⟩ := skipped
      obtain ⟨hsplit, -, -⟩ := Token.trivia_eq_some_iff.mp hgap
      have hgone : (c.move gap rest).Shows source start := h.move hsplit
      cases hread : Lexeme.read c.token rest with
      | ok l =>
          have hcovers : rest = l.text ++ l.rest := by
            by_cases hnil : rest = []
            · subst hnil
              cases hread
              rfl
            · exact (Lexeme.read_covers hnil hread).1
          rw [advance_eq hgap hread]
          exact (hgone.move hcovers).of_eq rfl rfl rfl
      | error e =>
          simp only [Cursor.advance, hgap]
          rw [show (c.move gap rest).token = c.token from rfl, hread]
          cases e with
          | strayCharacter d =>
              obtain ⟨ds, rfl⟩ := Lexeme.read_strayCharacter hread
              have hmove : ((c.move gap (d :: ds)).move [d] ds).Shows source start := hgone.move rfl
              exact hmove.of_eq rfl rfl rfl
          | unmatchedQuote =>
              have hmove : ((c.move gap rest).move rest []).Shows source start :=
                hgone.move (List.append_nil rest).symm
              exact hmove.of_eq rfl rfl rfl
          | unclosedComment => exact hgone.of_eq rfl rfl rfl

/-! ### Excerpts -/

/-- The end of a text, as much of it as is shown. -/
def tail (text : List Char) : List Char :=
  text.drop (text.length - excerptLength)

theorem excerpt_eq (c : Cursor) :
    c.excerpt = if c.seen.length ≤ excerptLength then String.ofList c.seen.reverse
      else "..." ++ String.ofList (tail c.seen.reverse) := by
  have htail : (c.seen.take excerptLength).reverse = tail c.seen.reverse := by
    rw [tail, List.reverse_take, List.length_reverse]
  unfold excerpt
  rw [htail]
  by_cases hshort : c.seen.length ≤ excerptLength
  · rw [if_pos hshort, List.drop_eq_nil_of_le hshort, tail, List.length_reverse,
      Nat.sub_eq_zero_of_le hshort]
    rfl
  · have hcut : (c.seen.drop excerptLength).isEmpty = false := by
      rw [List.isEmpty_eq_false_iff, ne_eq, List.drop_eq_nil_iff]
      exact hshort
    rw [if_neg hshort, hcut]
    rfl

end Cursor

/-! ### The place of an error -/

/-- The place that is due to a text that has been read: all of it, or the end of a text that is
longer than what is shown. -/
def Parse.duePlace (text : List Char) : String :=
  if text.length ≤ Cursor.excerptLength then "in \x7b" ++ String.ofList text ++ "\x7d:\n    "
  else "near \x7b..." ++ String.ofList (Cursor.tail text) ++ "\x7d:\n    "

/-- A text that is shown in full but looks as if it had been cut. -/
def LooksCut (text : List Char) : Prop :=
  text.length ≤ Cursor.excerptLength ∧ "...".toList <+: text

theorem place_of_looksCut {c : Cursor} (h : LooksCut c.seen.reverse) :
    place c = "near \x7b" ++ String.ofList c.seen.reverse ++ "\x7d:\n    " := by
  obtain ⟨hshort, hdots⟩ := h
  rw [List.length_reverse] at hshort
  unfold place
  rw [Cursor.excerpt_eq, if_pos hshort, String.toList_ofList (l := c.seen.reverse),
    if_pos (List.isPrefixOf_iff_prefix.mpr hdots)]
  rfl

theorem place_of_not_looksCut {c : Cursor} (h : ¬LooksCut c.seen.reverse) :
    place c = duePlace c.seen.reverse := by
  unfold place duePlace
  rw [Cursor.excerpt_eq, List.length_reverse]
  by_cases hshort : c.seen.length ≤ Cursor.excerptLength
  · have hdots : ¬("...".toList <+: c.seen.reverse) := fun hdots =>
      h ⟨by rw [List.length_reverse]; exact hshort, hdots⟩
    rw [if_pos hshort, if_pos hshort, String.toList_ofList (l := c.seen.reverse),
      if_neg fun hprefix => hdots (List.isPrefixOf_iff_prefix.mp hprefix)]
    rfl
  · have hdots : "...".toList.isPrefixOf
        ("..." ++ String.ofList (Cursor.tail c.seen.reverse)).toList = true := by
      rw [String.toList_append]
      exact List.isPrefixOf_iff_prefix.mpr (List.prefix_append _ _)
    rw [if_neg hshort, if_neg hshort, if_pos hdots]
    apply String.toList_injective
    simp

/-! ### Readers whose cursors show what they have read -/

/-- A reader beside itself, whose cursor shows what has been read, and what is known of its
errors. -/
def Pair.showing (σ : Setting) (source : String) (start : Nat)
    (Explains : Cursor → Error → Prop) : Pair where
  left := σ
  right := σ
  Beside c c' := c' = c ∧ c.Shows source start
  Starts _ := True
  Failing c e _ _ := c.Shows source start ∧ Explains c e
  Gone _ := False
  extra := 0
  offset n := n
  axis _ _ axis := axis

/-- What is known of the errors of a reader is known of every fault that it reports, and of every
error that its host raises. -/
structure Explaining (σ : Setting) (Explains : Cursor → Error → Prop) : Prop where
  report : ∀ c f, Explains c (report σ c f)
  raised : ∀ c e, σ.host.Raises e → Explains c (failure σ c e)

/-- The cursor shows what has been read, after a failure as well, and the error is as it has to
be. -/
def Told (Explains : Cursor → Error → Prop) (source : String) (start : Nat) {α : Type}
    (r : EStateM.Result Error ParseState α) : Prop :=
  (final r).cursor.Shows source start ∧ ∀ e t, r = .error e t → Explains t.cursor e

section Showing

variable {σ : Setting} {source : String} {start : Nat} {Explains : Cursor → Error → Prop}
  {s : ParseState}

theorem Pair.reports_showing (hexplains : Explaining σ Explains) (f : Fault) :
    (Pair.showing σ source start Explains).Reports f := by
  rintro c _ ⟨-, hshows⟩
  exact ⟨hshows, hexplains.report c f⟩

theorem Pair.lawful_showing (hexplains : Explaining σ Explains) :
    (Pair.showing σ source start Explains).Lawful := by
  refine .of_shared And.left (fun _ => rfl) (fun h => ⟨rfl, h.2⟩) ?_ ?_
    (fun f _ => reports_showing hexplains f) (fun h => absurd rfl h)
  · rintro c d ⟨-, hshows⟩ hd
    have hd' := hshows.advance
    rw [hd] at hd'
    exact ⟨⟨rfl, hd'⟩, fun _ => trivial⟩
  · rintro c d e ⟨-, hshows⟩ hd
    have hd' := hshows.advance
    rw [hd] at hd'
    exact ⟨hd', hexplains.report d (.lexical e)⟩

theorem Pair.Agree.told {α : Type} {Q : α → ParseState → α → ParseState → Prop}
    {r : EStateM.Result Error ParseState α}
    (h : (Pair.showing σ source start Explains).Agree Q r r)
    (hQ : ∀ a t b t', Q a t b t' → t.cursor.Shows source start) :
    Told Explains source start r := by
  cases r with
  | ok a t =>
      cases h with
      | ok h =>
          refine ⟨hQ _ _ _ _ h, ?_⟩
          rintro e t ⟨⟩
  | error e t =>
      cases h with
      | fail h =>
          refine ⟨h.1, ?_⟩
          rintro _ _ ⟨⟩
          exact h.2
      | gone h => exact h.elim

/-- The first token of a source, and what is read after it. -/
theorem told_after_advance {α : Type} {q : Parse α} (hexplains : Explaining σ Explains)
    (hs : s.cursor.Shows source start)
    (hq : ∀ t, (Pair.showing σ source start Explains).Linked t t →
      Told Explains source start (q t)) :
    Told Explains source start ((Parse.advance σ >>= fun _ => q) s) := by
  have hafter := hs.advance
  cases hc : s.cursor.advance with | mk outcome c =>
  rw [hc] at hafter
  cases outcome with
  | ok _ =>
      rw [bind_run (advance_run hc)]
      exact hq _ ⟨⟨rfl, hafter⟩, rfl, rfl, rfl, rfl⟩
  | error e =>
      have hfails : Parse.advance σ s =
          .error (report σ c (.lexical e)) { s with cursor := c } := by
        unfold Parse.advance
        rw [get_bind, hc]
        rfl
      rw [bind_fails hfails]
      refine ⟨hafter, ?_⟩
      rintro _ _ ⟨⟩
      exact hexplains.report c (.lexical e)

theorem told_of_complete (hexplains : Explaining σ Explains) (terminator : Token)
    (hs : s.cursor.Shows source start) :
    Told Explains source start (complete σ terminator s) := by
  let P := Pair.showing σ source start Explains
  have : P.Lawful := Pair.lawful_showing hexplains
  have : P.Answers := by
    refine .of_setting rfl (fun _ _ _ => rfl) ?_ (fun f _ => Pair.reports_showing hexplains f)
      (fun c _ _ _ _ => Pair.reports_showing hexplains (.malformedFunctionName c.value))
      (fun _ => ⟨Pair.reports_showing hexplains _, Pair.reports_showing hexplains _⟩)
    rintro e he c c' ⟨-, hshows⟩
    exact ⟨hshows, hexplains.raised c e he⟩
  have hend : terminator = .rightBrace → ∀ c c', P.Beside c c' → c.token = .eof →
      P.Failing c (report P.left c .unclosedTemplate) c' (report P.right c' .unclosedTemplate) :=
    fun _ c c' h _ => Pair.reports_showing hexplains .unclosedTemplate c c' h
  refine told_after_advance (q := untilToken σ terminator) hexplains hs
    fun t ht => (Pair.Agree.untilToken (P := P) hend ht trivial).told ?_
  rintro _ _ _ _ ⟨⟨-, hlinked⟩, -⟩
  exact hlinked.cursor.2

theorem told_of_completeType (hexplains : Explaining σ Explains)
    (hs : s.cursor.Shows source start) :
    Told Explains source start (completeType σ s) := by
  let P := Pair.showing σ source start Explains
  have : P.Lawful := Pair.lawful_showing hexplains
  have : P.TypeAnswers := by
    refine .of_host rfl ?_
    rintro q e he c c' ⟨-, hshows⟩
    exact ⟨hshows, hexplains.raised c e (.ofQualifier q he)⟩
  refine told_after_advance (q := wholeType σ) hexplains hs
    fun t ht => (Pair.Agree.wholeType (P := P) ht).told ?_
  rintro _ _ _ _ ⟨-, hlinked⟩
  exact hlinked.cursor.2

/-- Nothing has to be known of the errors. -/
theorem explaining_trivial : Explaining σ fun _ _ => True :=
  ⟨fun _ _ => trivial, fun _ _ _ => trivial⟩

/-- Declarations raise errors that are faults themselves. -/
theorem explaining_report {language : Language} {context : StaticContext} :
    Explaining ⟨language, context.resolver⟩
      fun c e => ∃ f, e = report ⟨language, context.resolver⟩ c f := by
  refine ⟨fun _ f => ⟨f, rfl⟩, fun c e he => ?_⟩
  obtain ⟨f, -, herror⟩ := StaticContext.fault_of_raises he
  exact ⟨f, congrArg (failure _ c) (herror language)⟩

end Showing

namespace Parser

variable {source : String} {start : Nat}

theorem shows_call {p : Parser} (h : p.state.cursor.Shows source start) (c : Call) :
    (p.call c).state.cursor.Shows source start := by
  cases c with
  | expression terminator =>
      show (p.run (Parse.complete · terminator)).2.state.cursor.Shows source start
      rw [run_snd]
      exact (told_of_complete explaining_trivial terminator h).1
  | sequenceType =>
      show (p.run Parse.completeType).2.state.cursor.Shows source start
      rw [run_snd]
      exact (told_of_completeType explaining_trivial h).1

/-- Whatever a reader has been asked for, its cursor shows what it has read since its start. -/
theorem shows_calls {p : Parser} (h : p.state.cursor.Shows source start) (cs : List Call) :
    (p.calls cs).state.cursor.Shows source start := by
  induction cs generalizing p with
  | nil => exact h
  | cons c cs ih => exact ih (shows_call h c)

end Parser

/-! ### Errors and what has been read -/

/-- The error is located at the text of a source between two byte offsets. A text that looks cut
is shown in full but said to be near; every other one has the place that is due to it. -/
def Error.IsLocated (language : Language) (source : String) (start stop : Nat) (e : Error) : Prop :=
  ∃ text, IsSlice source start stop text ∧
    (LooksCut text → e.location = some (language.displayName ++ " syntax error near \x7b" ++
      String.ofList text ++ "\x7d:\n    ")) ∧
    (¬LooksCut text → e.location = some (language.displayName ++ " syntax error " ++ duePlace text))

theorem isLocated_report {language : Language} {host : Resolver} {source : String} {start : Nat}
    {c : Cursor} (h : c.Shows source start) (f : Fault) :
    (report ⟨language, host⟩ c f).IsLocated language source start c.position := by
  have hlocation : (report ⟨language, host⟩ c f).location =
      some (language.displayName ++ " syntax error " ++ place c) := rfl
  refine ⟨c.seen.reverse, h.slice, fun hcut => ?_, fun hcut => ?_⟩
  · rw [hlocation, place_of_looksCut hcut]
    apply congrArg some
    apply String.toList_injective
    simp
  · rw [hlocation, place_of_not_looksCut hcut]

/-- The place of what went wrong. -/
def Error.locationOf {α : Type} : Except Error α → Option String
  | .ok _ => none
  | .error e => e.location

namespace Parser

variable {source : String} {start : Nat} {language : Language} {context : StaticContext}

theorem calls_setting (p : Parser) (cs : List Call) : (p.calls cs).setting = p.setting := by
  induction cs generalizing p with
  | nil => rfl
  | cons c cs ih =>
      refine (ih (p.call c)).trans ?_
      cases c with
      | expression terminator =>
          show (p.run (Parse.complete · terminator)).2.setting = p.setting
          rw [run_snd]
      | sequenceType =>
          show (p.run Parse.completeType).2.setting = p.setting
          rw [run_snd]

theorem isLocated_of_run {α : Type} {p after : Parser} {action : Setting → Parse α} {e : Error}
    (hsetting : p.setting = ⟨language, context.resolver⟩)
    (htold : Told (fun c e => ∃ f, e = report ⟨language, context.resolver⟩ c f) source start
      (action ⟨language, context.resolver⟩ p.state))
    (h : p.run action = (.error e, after)) :
    e.IsLocated language source start after.state.cursor.position := by
  obtain ⟨hr, -⟩ := run_error h
  rw [hsetting] at hr
  rw [hr] at htold
  obtain ⟨hshows, hfault⟩ := htold
  obtain ⟨f, rfl⟩ := hfault _ _ rfl
  exact isLocated_report hshows f

/-- Whatever a reader has been asked for before, an error is located at the text of the source from
where the reader started up to where it stands when it fails. The place is the one that is due to
that text unless the text is shown in full and starts with three dots. -/
theorem location_of_failure (source : String) (start : Nat) (language : Language)
    (context : StaticContext) (warnings : List String) (cs : List Call) :
    let fresh := ofSource source start language context.resolver warnings
    (∀ terminator e after, (fresh.calls cs).expression terminator = (.error e, after) →
      e.IsLocated language source fresh.state.cursor.position after.state.cursor.position) ∧
      ∀ e after, (fresh.calls cs).sequenceType = (.error e, after) →
        e.IsLocated language source fresh.state.cursor.position after.state.cursor.position := by
  intro fresh
  have hsetting : (fresh.calls cs).setting = ⟨language, context.resolver⟩ := calls_setting fresh cs
  have hshows : (fresh.calls cs).state.cursor.Shows source fresh.state.cursor.position :=
    shows_calls (Cursor.ofSource_shows source start) cs
  exact ⟨fun terminator e after h =>
      isLocated_of_run hsetting (told_of_complete explaining_report terminator hshows) h,
    fun e after h => isLocated_of_run hsetting (told_of_completeType explaining_report hshows) h⟩

/-- A reader that has failed once is asked again, and reports all that it has read since its
start. -/
theorem location_of_failure_of_two_calls :
    let fresh := ofSource "1 2 +" 0 .expression (StaticContext.resolver {}) []
    ∃ e after, (fresh.calls [.expression .eof]).expression .eof = (.error e, after) ∧
      e.IsLocated .expression "1 2 +" 0 after.state.cursor.position ∧
      e.location = some "XPath syntax error in \x7b1 2 +\x7d:\n    " := by
  intro fresh
  have hlocation : Error.locationOf ((fresh.calls [.expression .eof]).expression .eof).1 =
      some "XPath syntax error in \x7b1 2 +\x7d:\n    " := by
    decide +kernel
  cases hr : (fresh.calls [.expression .eof]).expression .eof with | mk outcome after =>
  rw [hr] at hlocation
  cases outcome with
  | ok e => cases hlocation
  | error e =>
      exact ⟨e, after, rfl, (location_of_failure "1 2 +" 0 .expression {} []
        [.expression .eof]).1 .eof e after hr, hlocation⟩

/-- Three dots are read and shown in full, and are reported as the end of a longer text. -/
theorem location_ne_duePlace_of_dots :
    let fresh := ofSource "..." 0 .expression (StaticContext.resolver {}) []
    ∃ e after, fresh.expression .eof = (.error e, after) ∧
      IsSlice "..." fresh.state.cursor.position after.state.cursor.position "...".toList ∧
      "...".toList.length ≤ Cursor.excerptLength ∧
      e.location ≠ some (Language.expression.displayName ++ " syntax error " ++
        duePlace "...".toList) := by
  intro fresh
  have hlocation : Error.locationOf (fresh.expression .eof).1 =
      some "XPath syntax error near \x7b...\x7d:\n    " := by
    decide +kernel
  have hposition : (fresh.expression .eof).2.state.cursor.position = 3 := by decide +kernel
  cases hr : fresh.expression .eof with | mk outcome after =>
  rw [hr] at hlocation hposition
  cases outcome with
  | ok e => cases hlocation
  | error e =>
      have hlocation : e.location = _ := hlocation
      have hposition : after.state.cursor.position = 3 := hposition
      refine ⟨e, after, rfl, ⟨[], [], rfl, rfl, ?_⟩, by decide, ?_⟩
      · rw [hposition]
        decide +kernel
      · rw [hlocation]
        decide +kernel

end Parser

end XPath
