import XPath.Parser
import XPath.Proofs.Literals
import XPath.Proofs.PairHosts

/-!
# What errors look like

Whatever is wrong with a source, the error that reports it is made in one way: a fault, with its
message and its code for the language, at the place up to which the source has been read. That is
shown with a reader beside itself (`Pair.alone`). A host that answers from declarations raises
errors that are faults themselves. From the faults that each entry point can meet follow the codes
that it can return (`errors_disciplined`).
-/

namespace XPath

open Parse

/-! ### Calls and ends -/

theorem parse?_isWord {word : List Char} (h : IsWord word) :
    ∃ n, LexicalQName.parse? (String.ofList word) = some n := by
  cases h with
  | simple hname => exact ⟨_, parse?_unqualified (by rw [String.toList_ofList]; exact hname)⟩
  | @qualified qualifier name hqualifier hname =>
      refine ⟨⟨String.ofList qualifier, String.ofList name⟩, ?_⟩
      rw [← parse?_qualified (by rw [String.toList_ofList]; exact hqualifier)
        (by rw [String.toList_ofList]; exact hname)]
      congr 1
      apply String.toList_injective
      simp

theorem Token.ne_of_isLink {t : Token} (h : t.isLink = true) :
    t ≠ .axis ∧ t ≠ .function ∧ t ≠ .nodeKind := by
  refine ⟨?_, ?_, ?_⟩ <;>
  · rintro rfl
    cases h

/-- No axis or call is a symbol or a word that links two expressions. -/
theorem Token.Spells.shape {t : Token} {value : String} {text : List Char}
    (h : t.Spells value text) :
    (t = .axis → text = value.toList ++ [':', ':']) ∧
      (t = .function ∨ t = .nodeKind → t = ofCallWord value ∧ ∃ word gap, IsWord word ∧
        value = String.ofList word ∧ text = word ++ gap ++ ['(']) := by
  cases h with
  | axis => exact ⟨fun _ => by rw [String.toList_ofList], by simp⟩
  | @call word _ hword =>
      refine ⟨fun ht => ?_, fun _ => ⟨rfl, _, _, hword, rfl, rfl⟩⟩
      rcases ofCallWord_cases (String.ofList word) with h | ⟨h, -⟩ | h <;> simp [h] at ht
  | symbol hmem =>
      have hsymbols : ∀ symbol ∈ symbols, symbol.2 ≠ .axis ∧ symbol.2 ≠ .function ∧
          symbol.2 ≠ .nodeKind := by decide
      obtain ⟨haxis, hfunction, hkind⟩ := hsymbols _ hmem
      exact ⟨fun ht => absurd ht haxis, fun ht => (ht.elim hfunction hkind).elim⟩
  | linkWord hword =>
      obtain ⟨haxis, hfunction, hkind⟩ := ne_of_isLink (linkWord?_isLink hword)
      exact ⟨fun ht => absurd ht haxis, fun ht => (ht.elim hfunction hkind).elim⟩
  | bindingWord hword =>
      obtain ⟨haxis, hfunction, hkind⟩ := ne_of_isLink (bindingWord?_isLink hword)
      exact ⟨fun ht => absurd ht haxis, fun ht => (ht.elim hfunction hkind).elim⟩
  | _ => simp

/-- The word of a call can be a name, and behind the end of a source there is nothing. -/
structure Cursor.IsSound (c : Cursor) : Prop where
  function : c.token = .function → ∃ n, LexicalQName.parse? c.value = some n
  eof : c.token = .eof → c.rest = []

theorem Cursor.isSound_of_advance {c d : Cursor} (h : c.advance = (.ok (), d)) : d.IsSound := by
  obtain ⟨gap, rest, l, -, hread, rfl⟩ := advance_ok h
  by_cases hrest : rest = []
  · subst hrest
    cases hread
    refine ⟨?_, fun _ => rfl⟩
    rintro ⟨⟩
  · obtain ⟨-, hspells⟩ := Lexeme.read_covers hrest hread
    refine ⟨fun hfunction => ?_, fun heof => absurd heof hspells.ne_eof⟩
    obtain ⟨-, word, -, hword, hvalue, -⟩ := hspells.shape.2 (.inl hfunction)
    show ∃ n, LexicalQName.parse? l.value = some n
    rw [hvalue]
    exact parse?_isWord hword

/-! ### A reader beside itself -/

/-- A reader beside itself, and what is known of its faults. -/
def Pair.alone (σ : Setting) (Allows : Cursor → Fault → Prop) : Pair where
  left := σ
  right := σ
  Beside c c' := c' = c ∧ c.IsSound
  Starts _ := True
  Failing c e _ _ := ∃ f, Allows c f ∧ e = report σ c f
  Gone _ := False
  extra := 0
  offset n := n
  axis _ _ axis := axis

section Alone

variable {σ : Setting} {Allows : Cursor → Fault → Prop} {s : ParseState}

theorem Pair.lawful_alone (hplain : ∀ c f, f.isPlain = true → Allows c f) :
    (Pair.alone σ Allows).Lawful :=
  .of_shared And.left (fun _ => rfl) (fun _ => ⟨rfl, ⟨by rintro ⟨⟩, by rintro ⟨⟩⟩⟩)
    (fun _ hd => ⟨⟨rfl, Cursor.isSound_of_advance hd⟩, fun _ => trivial⟩)
    (fun {_ d e} _ _ => ⟨.lexical e, hplain d (.lexical e) rfl, rfl⟩)
    (fun f hf c _ _ => ⟨f, hplain c f hf, rfl⟩) (fun h => absurd rfl h)

/-- What fails has met a fault that is known of. -/
theorem Pair.Agree.fault {α : Type} {Q : α → ParseState → α → ParseState → Prop}
    {r : EStateM.Result Error ParseState α} {e : Error} {t : ParseState}
    (h : (Pair.alone σ Allows).Agree Q r r) (hr : r = .error e t) :
    ∃ f, Allows t.cursor f ∧ e = report σ t.cursor f := by
  subst hr
  cases h with
  | fail h => exact h
  | gone h => exact h.elim

/-- The first token of a source, and what is read after it. -/
theorem fault_after_advance {α : Type} {Q : α → ParseState → α → ParseState → Prop}
    {q : Parse α} {e : Error} {t : ParseState} (hplain : ∀ c f, f.isPlain = true → Allows c f)
    (hq : ∀ s, (Pair.alone σ Allows).Linked s s → (Pair.alone σ Allows).Agree Q (q s) (q s))
    (h : (Parse.advance σ >>= fun _ => q) s = .error e t) :
    ∃ f, Allows t.cursor f ∧ e = report σ t.cursor f := by
  cases hc : s.cursor.advance with | mk outcome c =>
  cases outcome with
  | ok _ =>
      rw [bind_run (advance_run hc)] at h
      exact (hq _ ⟨⟨rfl, Cursor.isSound_of_advance hc⟩, rfl, rfl, rfl, rfl⟩).fault h
  | error e' =>
      have hfails : Parse.advance σ s =
          .error (report σ c (.lexical e')) { s with cursor := c } := by
        unfold Parse.advance
        rw [get_bind, hc]
        rfl
      rw [bind_fails hfails] at h
      cases h
      exact ⟨_, hplain c (.lexical e') rfl, rfl⟩

end Alone

/-! ### Declared hosts -/

/-- Declarations answer with faults of two kinds. -/
theorem StaticContext.fault_of_raises {c : StaticContext} {e : Error} (h : c.resolver.Raises e) :
    ∃ f : Fault, ((∃ message, f = .undeclaredQualifier message) ∨
      ∃ name, f = .undeclaredVariable name) ∧ ∀ language, e = f.error language := by
  cases h with
  | ofQualifier qualifier h =>
      have h : c.namespaceOf qualifier = .error e := h
      unfold StaticContext.namespaceOf at h
      split at h
      · cases h
      · cases h
        exact ⟨_, .inl ⟨_, rfl⟩, fun _ => rfl⟩
  | ofVariable name h =>
      have h : c.variableType name = .error e := h
      unfold StaticContext.variableType at h
      split at h
      · cases h
      · cases h
        exact ⟨.undeclaredVariable name.render, .inr ⟨_, rfl⟩, fun _ => rfl⟩
  | ofFunction name arity h => cases h

/-- The faults that can be met in a language, when reading up to a token. -/
def Fault.Occurs (language : Language) (terminator : Token) (c : Cursor) : Fault → Prop
  | .malformedFunctionName _ => False
  | .unclosedTemplate => terminator = .rightBrace ∧ c.rest = []
  | .currentGroup | .currentGroupingKey => language = .pattern
  | _ => True

theorem Fault.occurs_of_isPlain {f : Fault} (h : f.isPlain = true) (language : Language)
    (terminator : Token) (c : Cursor) : f.Occurs language terminator c := by
  cases f with
  | malformedFunctionName _ => cases h
  | unclosedTemplate => cases h
  | currentGroup => cases h
  | currentGroupingKey => cases h
  | _ => trivial

theorem Fault.occurs_of_isResolved {f : Fault} (h : f.isResolved = true) (language : Language)
    (terminator : Token) (c : Cursor) : f.Occurs language terminator c := by
  cases f with
  | malformedFunctionName _ => cases h
  | unclosedTemplate => cases h
  | currentGroup => cases h
  | currentGroupingKey => cases h
  | _ => trivial

/-- An expression or pattern that is not read has met a fault of which a property holds, if it holds
of all that can be met: of those of syntax, of those in a name that has been resolved, of functions
that mean nothing outside a group, and of a template that is not closed. -/
theorem fault_of_allowed {language : Language} {context : StaticContext} {terminator : Token}
    {s t : ParseState} {e : Error} (Allows : Cursor → Fault → Prop)
    (hplain : ∀ c f, f.isPlain = true → Allows c f)
    (harises : ∀ c f, f.Arises context.resolver → Allows c f)
    (hgroups : language = .pattern → ∀ c, Allows c .currentGroup ∧ Allows c .currentGroupingKey)
    (hclosed : terminator = .rightBrace → ∀ c, c.rest = [] → Allows c .unclosedTemplate)
    (h : complete ⟨language, context.resolver⟩ terminator s = .error e t) :
    ∃ f : Fault, Allows t.cursor f ∧ e = report ⟨language, context.resolver⟩ t.cursor f := by
  let P := Pair.alone ⟨language, context.resolver⟩ Allows
  have : P.Lawful := Pair.lawful_alone hplain
  have : P.Answers := by
    refine .of_setting rfl (fun _ _ _ => rfl) ?_ ?_ ?_ ?_
    · rintro e he c c' -
      obtain ⟨f, hf, herror⟩ := StaticContext.fault_of_raises he
      refine ⟨f, ?_, congrArg (failure _ c) (herror language)⟩
      rcases hf with ⟨_, rfl⟩ | ⟨_, rfl⟩
      · exact harises c _ ⟨rfl, trivial⟩
      · exact hplain c _ rfl
    · exact fun f hf c c' _ => ⟨f, harises c f hf, rfl⟩
    · rintro c c' ⟨-, hsound⟩ htoken hnone
      obtain ⟨n, hn⟩ := hsound.function htoken
      rw [hn] at hnone
      cases hnone
    · exact fun hlanguage => ⟨fun c c' _ => ⟨.currentGroup, (hgroups hlanguage c).1, rfl⟩,
        fun c c' _ => ⟨.currentGroupingKey, (hgroups hlanguage c).2, rfl⟩⟩
  have hend : terminator = .rightBrace → ∀ c c', P.Beside c c' → c.token = .eof →
      P.Failing c (report P.left c .unclosedTemplate) c' (report P.right c' .unclosedTemplate) := by
    rintro hterminator c c' ⟨-, hsound⟩ heof
    exact ⟨.unclosedTemplate, hclosed hterminator c (hsound.eof heof), rfl⟩
  exact fault_after_advance (q := untilToken ⟨language, context.resolver⟩ terminator) hplain
    (fun s hs => Pair.Agree.untilToken (P := P) hend hs trivial) h

/-- An expression or pattern that is not read has met a fault of the language. -/
theorem fault_of_complete {language : Language} {context : StaticContext} {terminator : Token}
    {s t : ParseState} {e : Error}
    (h : complete ⟨language, context.resolver⟩ terminator s = .error e t) :
    ∃ f : Fault, f.Occurs language terminator t.cursor ∧
      e = report ⟨language, context.resolver⟩ t.cursor f :=
  fault_of_allowed (Fault.Occurs language terminator)
    (fun c _ hf => Fault.occurs_of_isPlain hf language terminator c)
    (fun c _ hf => Fault.occurs_of_isResolved hf.isResolved language terminator c)
    (fun hlanguage _ => ⟨hlanguage, hlanguage⟩) (fun hterminator _ hrest => ⟨hterminator, hrest⟩) h

/-- A sequence type that is not read has met a fault of syntax, or one in a name or type. -/
theorem fault_of_completeType {language : Language} {context : StaticContext} {s t : ParseState}
    {e : Error} (h : completeType ⟨language, context.resolver⟩ s = .error e t) :
    ∃ f : Fault, (f.isPlain = true ∨ ∃ message, f = .undeclaredQualifier message) ∧
      e = report ⟨language, context.resolver⟩ t.cursor f := by
  let Allows (_ : Cursor) (f : Fault) : Prop :=
    f.isPlain = true ∨ ∃ message, f = .undeclaredQualifier message
  have hplain : ∀ c f, f.isPlain = true → Allows c f := fun _ _ => .inl
  let P := Pair.alone ⟨language, context.resolver⟩ Allows
  have : P.Lawful := Pair.lawful_alone hplain
  have : P.TypeAnswers := by
    refine .of_host rfl ?_
    rintro q e he c c' -
    obtain ⟨f, hf, herror⟩ := StaticContext.fault_of_raises (.ofQualifier q he)
    refine ⟨f, ?_, congrArg (failure _ c) (herror language)⟩
    rcases hf with ⟨_, rfl⟩ | ⟨_, rfl⟩
    · exact .inr ⟨_, rfl⟩
    · exact .inl rfl
  exact fault_after_advance (q := wholeType ⟨language, context.resolver⟩) hplain
    (fun s hs => Pair.Agree.wholeType (P := P) hs) h

/-! ### Errors of the entry points -/

namespace Error

/-- The error has one of these codes. -/
def HasCode (codes : List ErrorCode) (e : Error) : Prop :=
  ∃ code ∈ codes, e.code = code.name

/-- The error is found before evaluation, says first in which language something is wrong, and
has a cause only if a number could not be read. -/
structure IsDisciplined (language : Language) (e : Error) : Prop where
  static : e.kind = .static
  located : ∃ location, e.location = some location ∧
    language.displayName.toList <+: location.toList
  cause : e.hasCause = true → "Invalid numeric literal".toList <+: e.message.toList

end Error

theorem isDisciplined_report {language : Language} {host : Resolver} (c : Cursor) (f : Fault) :
    (report ⟨language, host⟩ c f).IsDisciplined language where
  static := rfl
  located := ⟨location language c, rfl, by simp [location]⟩
  cause := by
    intro hcause
    cases f with
    | malformedNumber text =>
        show "Invalid numeric literal".toList <+:
          ("Invalid numeric literal \"" ++ text ++ "\"").toList
        refine ⟨" \"".toList ++ text.toList ++ "\"".toList, ?_⟩
        simp
    | _ => cases hcause

theorem hasCode_report {codes : List ErrorCode} {σ : Setting} {c : Cursor} {f : Fault}
    (h : f.ownCode?.getD σ.language.defaultCode ∈ codes) : (report σ c f).HasCode codes :=
  ⟨_, h, rfl⟩

/-- The codes of faults in expressions, but for a template that is not closed. -/
def expressionCodes : List ErrorCode :=
  [.XPST0003, .XPST0008, .XPST0017, .XPST0051, .XPST0080, .XPST0081, .XPTY0004, .FORG0001,
    .FONS0004]

/-- The codes of faults in patterns. -/
def patternCodes : List ErrorCode :=
  [.XTSE0340, .XPST0008, .XPST0017, .XPST0051, .XPST0080, .XPST0081, .XPTY0004, .FORG0001,
    .FONS0004, .XTSE1060, .XTSE1070]

/-- The codes of faults in sequence types. -/
def sequenceTypeCodes : List ErrorCode :=
  [.XPST0003, .XPST0008, .XPST0051, .XPST0081, .XPTY0004]

namespace Fault

/-- An expression reports the fault with the code of a syntax error. -/
def isSyntactic (f : Fault) : Prop :=
  f.ownCode?.getD .XPST0003 = .XPST0003

theorem code_of_expression {f : Fault} {terminator : Token} {c : Cursor}
    (h : f.Occurs .expression terminator c) :
    f.ownCode?.getD .XPST0003 ∈ expressionCodes ∨ f = .unclosedTemplate := by
  cases f with
  | unclosedTemplate => exact .inr rfl
  | currentGroup => cases h
  | currentGroupingKey => cases h
  | _ => exact .inl (by simp [ownCode?, expressionCodes])

theorem code_of_pattern {f : Fault} {c : Cursor} (h : f.Occurs .pattern .eof c) :
    f.ownCode?.getD .XTSE0340 ∈ patternCodes := by
  cases f with
  | unclosedTemplate => cases h.1
  | malformedFunctionName name => cases h
  | _ => simp [ownCode?, patternCodes]

theorem code_of_isSyntactic {f : Fault} {c : Cursor} (h : f.Occurs .pattern .eof c)
    (hsyntactic : f.isSyntactic) : f.ownCode?.getD .XTSE0340 = .XTSE0340 := by
  cases f with
  | malformedFunctionName name => cases h
  | _ => simp_all [isSyntactic, ownCode?]

theorem code_of_type {f : Fault}
    (h : f.isPlain = true ∨ ∃ message, f = .undeclaredQualifier message) :
    f.ownCode?.getD .XPST0003 ∈ sequenceTypeCodes := by
  rcases h with h | ⟨message, rfl⟩
  · unfold isPlain at h
    split at h
    · next hcode => simp [hcode, sequenceTypeCodes]
    · next hcode => simp [hcode, sequenceTypeCodes]
    · next hcode => simp [hcode, sequenceTypeCodes]
    · next hcode => simp [hcode, sequenceTypeCodes]
    · cases h
  · simp [ownCode?, sequenceTypeCodes]

end Fault

theorem Parser.run_error {α : Type} {p after : Parser} {action : Setting → Parse α} {e : Error}
    (h : p.run action = (.error e, after)) :
    action p.setting p.state = .error e after.state ∧ after.setting = p.setting := by
  unfold Parser.run at h
  split at h
  · cases h
  · next hr =>
      cases h
      exact ⟨hr, rfl⟩

/-- The code of what went wrong. -/
def Error.codeOf {α : Type} : Except Error α → Option ExpandedName
  | .ok _ => none
  | .error e => some e.code

theorem exists_error {α : Type} {r : Except Error α} {code : ErrorCode}
    (h : Error.codeOf r = some code.name) : ∃ e, r = .error e ∧ e.HasCode [code] := by
  cases r with
  | ok a => cases h
  | error e => exact ⟨e, rfl, code, List.mem_singleton_self _, Option.some.inj h⟩

/-- Every error of an entry point is static, is located in the language of that entry point, and
has a cause only if a number could not be read. It has one of the codes of its language, and a
template that is not closed is an error only where the source ends before a closing brace. What an
expression reports as an error of syntax is reported with another code in a pattern, and patterns
alone report functions that mean nothing outside a group. -/
theorem errors_disciplined (context : StaticContext) (source : String) (warnings : List String) :
    (∀ start terminator e,
      (readExpressionAt source start terminator context.resolver warnings).outcome = .error e →
        e.IsDisciplined .expression ∧ (e.HasCode expressionCodes ∨
          e.HasCode [.XTSE0350] ∧ terminator = .rightBrace ∧
            ((Parser.ofSource source start .expression context.resolver warnings).expression
              terminator).2.state.cursor.rest = [])) ∧
      (∀ e, (readPattern source context.resolver warnings).outcome = .error e →
        e.IsDisciplined .pattern ∧ e.HasCode patternCodes ∧
          ∃ (f : Fault) (c : Cursor), e = report ⟨.pattern, context.resolver⟩ c f ∧
            (f.isSyntactic → e.HasCode [.XTSE0340])) ∧
      (∀ e, (readSequenceType source context.resolver warnings).outcome = .error e →
        e.IsDisciplined .sequenceType ∧ e.HasCode sequenceTypeCodes) ∧
      ∀ code ∈ [ErrorCode.XTSE1060, .XTSE1070], ∃ source e,
        (readPattern source (StaticContext.resolver {}) []).outcome = .error e ∧
          e.HasCode [code] := by
  refine ⟨fun start terminator e h => ?_, fun e h => ?_, fun e h => ?_, ?_⟩
  · obtain ⟨hr, -⟩ := Parser.run_error (Prod.ext h rfl)
    obtain ⟨f, hf, rfl⟩ := fault_of_complete hr
    refine ⟨isDisciplined_report _ f, ?_⟩
    rcases Fault.code_of_expression hf with hcode | rfl
    · exact .inl (hasCode_report hcode)
    · exact .inr ⟨hasCode_report (List.mem_singleton.mpr rfl), hf⟩
  · obtain ⟨hr, -⟩ := Parser.run_error (Prod.ext h rfl)
    obtain ⟨f, hf, rfl⟩ := fault_of_complete hr
    refine ⟨isDisciplined_report _ f, hasCode_report (Fault.code_of_pattern hf), f, _, rfl,
      fun hsyntactic => hasCode_report ?_⟩
    rw [List.mem_singleton]
    exact Fault.code_of_isSyntactic hf hsyntactic
  · obtain ⟨hr, -⟩ := Parser.run_error (Prod.ext h rfl)
    obtain ⟨f, hf, rfl⟩ := fault_of_completeType hr
    exact ⟨isDisciplined_report _ f, hasCode_report (Fault.code_of_type hf)⟩
  · rintro code hcode
    rw [List.mem_cons, List.mem_singleton] at hcode
    rcases hcode with rfl | rfl
    · exact ⟨"current-group()", exists_error (by decide +kernel)⟩
    · exact ⟨"current-grouping-key()", exists_error (by decide +kernel)⟩

/-- A template without its closing brace, and a pattern with a stray character. -/
theorem errors_disciplined_of_unclosed :
    (∃ e, (readExpressionAt "a" 0 .rightBrace (StaticContext.resolver {}) []).outcome = .error e ∧
        e.IsDisciplined .expression ∧ e.HasCode [.XTSE0350]) ∧
      ∃ e, (readPattern "a;" (StaticContext.resolver {}) []).outcome = .error e ∧
        e.IsDisciplined .pattern ∧ e.HasCode patternCodes := by
  obtain ⟨e, he, hcode⟩ : ∃ e, (readExpressionAt "a" 0 .rightBrace (StaticContext.resolver {})
      []).outcome = .error e ∧ e.HasCode [.XTSE0350] := exists_error (by decide +kernel)
  obtain ⟨e', he', -⟩ : ∃ e, (readPattern "a;" (StaticContext.resolver {}) []).outcome = .error e ∧
      e.HasCode [.XTSE0340] := exists_error (by decide +kernel)
  obtain ⟨hdisciplined, hcodes, -⟩ := (errors_disciplined {} "a;" []).2.1 e' he'
  exact ⟨⟨e, he, ((errors_disciplined {} "a" []).1 0 .rightBrace e he).1, hcode⟩, e', he',
    hdisciplined, hcodes⟩

end XPath
