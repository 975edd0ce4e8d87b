import XPath.Proofs.Conduct
import XPath.Proofs.Excerpts
import XPath.Proofs.Languages
import XPath.Proofs.Tiling

/-!
# Names are valid when they are resolved

The scanner and the resolver define names in two ways. The scanner takes name characters up to the
first other one and looks behind a colon; the resolver splits a text at its first colon and checks
both parts. They agree: whatever is read as a name or as the name of a function can be split, and
the words of axes, namespace wildcards, kind tests and conditionals are names without a colon
(`Token.IsNamed`). Every action of a reader passes that on from token to token (`Parse.naming`), and
resolves names only where the current token has one, so that no reader fails with a malformed name
(`Parse.Resolves`).
-/

namespace XPath

open Parse

/-! ### Tokens with names -/

namespace Token

/-- The value of the token is a word. -/
def holdsWord : Token → Bool
  | axis | namespaceWildcard | nodeKind | ifWord => true
  | _ => false

/-- A name that is the value of a token can be split, and a word is a name without a colon. -/
structure IsNamed (t : Token) (value : String) : Prop where
  name : t.holdsName = true → ∃ n, LexicalQName.parse? value = some n
  word : t.holdsWord = true → isNCName value.toList = true

theorem isNamed_of_neither {t : Token} {value : String} (hname : t.holdsName = false)
    (hword : t.holdsWord = false) : t.IsNamed value :=
  ⟨fun h => absurd (hname.symm.trans h) Bool.false_ne_true,
    fun h => absurd (hword.symm.trans h) Bool.false_ne_true⟩

theorem isNamed_of_isLink {t : Token} {value : String} (h : t.isLink = true) : t.IsNamed value := by
  cases t with
  | name | function | axis | namespaceWildcard | nodeKind | ifWord => cases h
  | _ => exact isNamed_of_neither rfl rfl

theorem isNCName_of_mem_kindWords {word : String} (h : word ∈ kindWords) :
    isNCName word.toList = true := by
  have hwords : ∀ w ∈ kindWords, isNCName w.toList = true := by decide +kernel
  exact hwords word h

/-- The word of a call is a name, and if it is no name of a function it has no colon. -/
theorem isNamed_ofCallWord {word : List Char} (h : IsWord word) :
    (ofCallWord (String.ofList word)).IsNamed (String.ofList word) := by
  unfold ofCallWord
  split
  · next hif =>
      rw [hif]
      exact ⟨fun h => (nomatch h), fun _ => by decide +kernel⟩
  · split
    · next hkind => exact ⟨fun h => (nomatch h), fun _ => isNCName_of_mem_kindWords hkind⟩
    · exact ⟨fun _ => parse?_isWord h, fun h => nomatch h⟩

theorem Spells.isNamed {t : Token} {value : String} {text : List Char} (h : t.Spells value text) :
    t.IsNamed value := by
  cases h with
  | symbol hmem =>
      have hsymbols : ∀ symbol ∈ symbols, symbol.2.holdsName = false ∧
          symbol.2.holdsWord = false := by decide
      exact isNamed_of_neither (hsymbols _ hmem).1 (hsymbols _ hmem).2
  | name hword => exact ⟨fun _ => parse?_isWord hword, fun h => nomatch h⟩
  | linkWord hword => exact isNamed_of_isLink (linkWord?_isLink hword)
  | bindingWord hword => exact isNamed_of_isLink (bindingWord?_isLink hword)
  | call hword => exact isNamed_ofCallWord hword
  | axis hword | namespaceWildcard hword =>
      exact ⟨fun h => (nomatch h), fun _ => by rw [String.toList_ofList]; exact hword⟩
  | _ => exact isNamed_of_neither rfl rfl

end Token

namespace Cursor

/-- The current token holds a name or a word only if that is one. -/
def IsNamed (c : Cursor) : Prop :=
  c.token.IsNamed c.value

theorem isNamed_of_advance {c d : Cursor} (h : c.advance = (.ok (), d)) : d.IsNamed := by
  obtain ⟨gap, rest, l, -, hread, rfl⟩ := advance_ok h
  by_cases hrest : rest = []
  · subst hrest
    cases hread
    exact Token.isNamed_of_neither rfl rfl
  · exact (Lexeme.read_covers hrest hread).2.isNamed

end Cursor

/-! ### Faults in the form of names -/

namespace Fault

/-- Whether a text starts with a letter that messages about malformed names start with. -/
def startsMalformed (text : String) : Option Bool :=
  text.toList.head?.map fun c => c = 'I' || c = 'F'

/-- Whether a text ends with a mark that messages about malformed names end with. -/
def endsMalformed (text : String) : Option Bool :=
  text.toList.getLast?.map fun c => c = '\x7d' || c = ')'

theorem startsMalformed_append {s t : String} {b : Bool} (h : startsMalformed s = some b) :
    startsMalformed (s ++ t) = some b := by
  unfold startsMalformed at h ⊢
  obtain ⟨c, hc, rfl⟩ := Option.map_eq_some_iff.mp h
  rw [String.toList_append, List.head?_append, hc]
  rfl

theorem endsMalformed_append {s t : String} {b : Bool} (h : endsMalformed t = some b) :
    endsMalformed (s ++ t) = some b := by
  unfold endsMalformed at h ⊢
  obtain ⟨c, hc, rfl⟩ := Option.map_eq_some_iff.mp h
  rw [String.toList_append, List.getLast?_append, hc]
  rfl

theorem message_of_malformed {f : Fault} (h : f.isMalformedName = true) :
    startsMalformed f.message = some true ∧ endsMalformed f.message = some true := by
  cases f with
  | malformedName | malformedFunctionName | instructionName =>
      exact ⟨startsMalformed_append (startsMalformed_append (by decide)),
        endsMalformed_append (by decide)⟩
  | _ => cases h

/-- Messages of other faults with the code of a syntax error start with other letters. That of a
number starts with the same letter, and that of a kind test with the text; they end otherwise. -/
theorem message_of_other {f : Fault} (h : f.isMalformedName = false) (hcode : f.ownCode? = none) :
    startsMalformed f.message = some false ∨ endsMalformed f.message = some false := by
  cases f with
  | malformedName | malformedFunctionName | instructionName => cases h
  | kindTest | malformedNumber => exact .inr (endsMalformed_append (by decide))
  | expected =>
      exact .inl (startsMalformed_append (startsMalformed_append (startsMalformed_append
        (by decide))))
  | lexical e =>
      cases e with
      | strayCharacter c =>
          exact .inl (startsMalformed_append (startsMalformed_append (by decide)))
      | _ => exact .inl (by decide)
  | _ =>
      first
      | (cases hcode; done)
      | exact .inl (by decide)
      | exact .inl (startsMalformed_append (by decide))
      | exact .inl (startsMalformed_append (startsMalformed_append (by decide)))

/-- A malformed name has the code of a syntax error, and no other fault has that as its own code. -/
theorem ownCode?_of_malformed {f f' : Fault} {language : Language} (hf : f.isMalformedName = true)
    (hf' : f'.isMalformedName = false)
    (h : f'.ownCode?.getD language.defaultCode = f.ownCode?.getD language.defaultCode) :
    f'.ownCode? = none := by
  have hsyntax : f.ownCode? = none ∨ f.ownCode? = some .XPST0003 := by
    cases f with
    | malformedName | instructionName => exact .inl rfl
    | malformedFunctionName => exact .inr rfl
    | _ => cases hf
  have hother : f'.ownCode? ≠ some .XPST0003 ∧ f'.ownCode? ≠ some .XTSE0340 := by
    cases f' with
    | malformedFunctionName => cases hf'
    | _ => exact ⟨nofun, nofun⟩
  cases hown : f'.ownCode? with
  | none => rfl
  | some code =>
      rw [hown] at h hother
      have hcode : code = f.ownCode?.getD language.defaultCode := h
      rcases hsyntax with hf | hf <;> rw [hf] at hcode
      · cases language with
        | pattern => exact absurd (congrArg some hcode) hother.2
        | _ => exact absurd (congrArg some hcode) hother.1
      · exact absurd (congrArg some hcode) hother.1

/-- No other fault is reported as a malformed name. -/
theorem report_ne_of_malformed {σ : Setting} {c c' : Cursor} {f f' : Fault}
    (hf : f.isMalformedName = true) (hf' : f'.isMalformedName = false) :
    report σ c' f' ≠ report σ c f := by
  intro h
  have hmessage : f'.message = f.message := congrArg Error.message h
  have hown : f'.ownCode? = none :=
    ownCode?_of_malformed hf hf' (ErrorCode.name_injective (congrArg Error.code h))
  obtain ⟨hstart, hend⟩ := message_of_malformed hf
  rcases message_of_other hf' hown with h | h
  · rw [hmessage, hstart] at h
    cases h
  · rw [hmessage, hend] at h
    cases h

end Fault

namespace Parse

variable {α β : Type} {σ : Setting} {s t : ParseState}

/-- The error reports a fault that is not a malformed name, or is an answer of the host. -/
def IsExcused (σ : Setting) (e : Error) : Prop :=
  (∃ c f, f.isMalformedName = false ∧ e = report σ c f) ∨
    ∃ c e', σ.host.Raises e' ∧ e = failure σ c e'

/-- What came of an action does not tell of a malformed name, and neither does the token that it
leaves. -/
def Tells (σ : Setting) : EStateM.Result Error ParseState α → Prop
  | .ok _ t => t.cursor.IsNamed
  | .error e _ => IsExcused σ e

/-- At a token that holds what is said of it, and that satisfies `A`, the action does not fail with
a malformed name, and leads to such a token again. -/
def Resolves (σ : Setting) (A : Cursor → Prop) (p : Parse α) : Prop :=
  ∀ s, s.cursor.IsNamed → A s.cursor → Tells σ (p s)

/-- Every token that is read holds what is said of it, so that its name can be split. -/
def naming (σ : Setting) : Conduct σ where
  Holds := Cursor.IsNamed
  Permits := IsExcused σ
  holds_advance := Cursor.isNamed_of_advance
  permits_report c f hf := .inl ⟨c, f, hf, rfl⟩
  permits_failure c e he := .inr ⟨c, e, he, rfl⟩
  splits h hname := .inl (h.name hname)

variable {K : ParseState → ParseState → Prop}

theorem Tells.of_kept {r : EStateM.Result Error ParseState α} (h : (naming σ).Kept K s r) :
    Tells σ r := by
  cases r with
  | ok a t => exact h.2
  | error e t => exact h.2

theorem Resolves.of_obeys {A : Cursor → Prop} {p : Parse α} (hp : Obeys (naming σ) K A p) :
    Resolves σ A p :=
  fun s hs hA => .of_kept (hp s hs hA)

namespace Tells

theorem bind {p : Parse α} {q : α → Parse β} (hp : Tells σ (p s))
    (hq : ∀ a, Resolves σ (fun _ => True) (q a)) : Tells σ ((p >>= q) s) := by
  cases h : p s with
  | ok a t =>
      rw [h] at hp
      rw [bind_run h]
      exact hq a t hp trivial
  | error e t =>
      rw [h] at hp
      rw [bind_fails h]
      exact hp

/-! ### Whole sources -/

/-- Whatever the current token holds, the first one that is read holds what is said of it. -/
theorem complete (terminator : Token) (s : ParseState) : Tells σ (complete σ terminator s) :=
  .bind (.of_kept (K := Even) (.advance s)) fun _ => .of_obeys (.upTo terminator)

theorem completeType (s : ParseState) : Tells σ (completeType σ s) :=
  .bind (.of_kept (K := Even) (.advance s)) fun _ => .of_obeys .wholeType

end Tells

end Parse

namespace Parser

/-- The call of the reader fails with this error. -/
def Fails (p : Parser) (e : Error) : Call → Prop
  | .expression terminator => (p.expression terminator).1 = .error e
  | .sequenceType => p.sequenceType.1 = .error e

theorem isExcused_of_fails {p : Parser} {call : Call} {e : Error} (h : p.Fails e call) :
    IsExcused p.setting e := by
  have hrun : ∀ {α : Type} {action : Setting → Parse α},
      Tells p.setting (action p.setting p.state) → (p.run action).1 = .error e →
        IsExcused p.setting e := by
    intro α action htells h
    obtain ⟨hrun, -⟩ := run_error (Prod.ext h rfl)
    rw [hrun] at htells
    exact htells
  cases call with
  | expression terminator => exact hrun (.complete terminator p.state) h
  | sequenceType => exact hrun (.completeType p.state) h

/-- Names are valid by the time they are resolved. Whatever has been asked of a cursor before, the
name that the next token holds can be split into an optional qualifier and a local name, both names
without a colon, of which the value is made up again; and the word that it holds is a name without a
colon. So no call of a reader, in whichever language and whatever calls have gone before, fails with
a malformed name, unless that is an answer of its host, and with a host that answers from
declarations none does. No production goes on after a part of it has failed: a call that came to a
malformed name would fail with it. -/
theorem names_valid (source : String) (start : Nat) :
    (∀ calls d, ((Cursor.ofSource source start).run calls).advance = (.ok (), d) →
      (d.token = .name ∨ d.token = .function → ∃ n, LexicalQName.parse? d.value = some n ∧
        isNCName n.localName.toList = true ∧
          (n.qualifier = "" ∧ d.value = n.localName ∨
            isNCName n.qualifier.toList = true ∧
              d.value = n.qualifier ++ ":" ++ n.localName)) ∧
      (d.token = .axis ∨ d.token = .namespaceWildcard ∨ d.token = .nodeKind ∨ d.token = .ifWord →
        isNCName d.value.toList = true)) ∧
    (∀ language host warnings cs call e c f,
      ((ofSource source start language host warnings).calls cs).Fails e call →
        f.isMalformedName = true → e = report ⟨language, host⟩ c f →
          ∃ c' e', host.Raises e' ∧ e = failure ⟨language, host⟩ c' e') ∧
    ∀ language (context : StaticContext) warnings cs call e c f,
      ((ofSource source start language context.resolver warnings).calls cs).Fails e call →
        f.isMalformedName = true → e ≠ report ⟨language, context.resolver⟩ c f := by
  have hexcused : ∀ {language host warnings cs call e},
      ((ofSource source start language host warnings).calls cs).Fails e call →
        IsExcused ⟨language, host⟩ e := by
    intro language host warnings cs call e h
    have hcall := isExcused_of_fails h
    rw [calls_setting] at hcall
    exact hcall
  refine ⟨fun calls d hd => ⟨fun h => ?_, fun h => ?_⟩, ?_, ?_⟩
  · obtain ⟨n, hn⟩ :=
      (Cursor.isNamed_of_advance hd).name (by rcases h with h | h <;> rw [h] <;> rfl)
    exact ⟨n, hn, (parse?_spec hn).1, (parse?_spec hn).2⟩
  · exact (Cursor.isNamed_of_advance hd).word (by rcases h with h | h | h | h <;> rw [h] <;> rfl)
  · rintro language host warnings cs call e c f he hf heq
    rcases hexcused he with ⟨c', f', hf', rfl⟩ | hraised
    · exact absurd heq (Fault.report_ne_of_malformed hf hf')
    · exact hraised
  · rintro language context warnings cs call e c f he hf heq
    rcases hexcused he with ⟨c', f', hf', rfl⟩ | ⟨c', e', hraised, rfl⟩
    · exact Fault.report_ne_of_malformed hf hf' heq
    · obtain ⟨f', hf', herror⟩ := StaticContext.fault_of_raises hraised
      have hother : f'.isMalformedName = false := by
        rcases hf' with ⟨message, rfl⟩ | ⟨name, rfl⟩ <;> rfl
      rw [herror language] at heq
      exact Fault.report_ne_of_malformed hf hother heq

/-- The fourth token is a call with a qualifier, which nothing declares. -/
theorem names_valid_of_undeclared :
    let c := (Cursor.ofSource "child::p:*[f:g(1)]" 0).run [.next, .next, .next]
    let p := ofSource "child::p:*[f:g(1)]" 0 .pattern
      ({ namespaces := [("p", "urn:p")] } : StaticContext).resolver []
    (∃ d, c.advance = (.ok (), d) ∧ d.token = .function ∧
      ∃ n, LexicalQName.parse? d.value = some n ∧ isNCName n.localName.toList = true) ∧
    ∃ e, p.Fails e (.expression .eof) ∧
      ∀ c f, f.isMalformedName = true → e ≠ report p.setting c f := by
  intro c p
  have hvalid := names_valid "child::p:*[f:g(1)]" 0
  have hd : c.advance = (.ok (), c.advance.2) := Prod.ext rfl rfl
  have htoken : c.advance.2.token = .function := rfl
  obtain ⟨n, hn, hlocal, -⟩ := (hvalid.1 _ _ hd).1 (.inr htoken)
  refine ⟨⟨_, hd, htoken, n, hn, hlocal⟩, ?_⟩
  have hfails : (p.expression .eof).1.toOption = none := by decide +kernel
  cases he : (p.expression .eof).1 with
  | ok e =>
      rw [he] at hfails
      cases hfails
  | error e =>
      exact ⟨e, he, fun c f => hvalid.2.2 .pattern _ [] [] (.expression .eof) e c f he⟩

end Parser

end XPath
