import XPath.Proofs.Directions
import XPath.Proofs.Languages

/-!
# Tests for documents without an axis

A step that tests for documents and names no axis stays at its node when it is the first one of a
path in a pattern, and goes to the children everywhere else. Every path in a pattern has such a
first step, also one in a predicate or an argument, so that the axis depends on nothing but what
stands right before the step: it goes to the children exactly behind a slash
(`documentStep_axis`). Where a step stands is known in two ways. A reader that goes to the children
has read a slash just before (`Parse.StepAt`). That none has been read before a step that stays
follows from reading the pattern beside itself (`Pair.alongside`).
-/

namespace XPath

open Parse

/-! ### Places in a source -/

/-- A slash stands before the offset, with nothing but blanks and comments between. -/
def BehindSlash (source : String) (n : Nat) : Prop :=
  ∃ m gap, IsSlice source m n ('/' :: gap) ∧ Token.IsTrivia 0 gap

/-- The keyword of tests for documents is written at the offset. A step along an axis that is
written down starts with the axis, so that the test of a step that starts here has none. -/
def DocumentWord (source : String) (n : Nat) : Prop :=
  ∃ m, IsSlice source n m "document-node".toList

namespace Token

/-- The marks of steps are symbols. -/
theorem Spells.of_stepMark {t : Token} {value : String} {text : List Char}
    (h : t.Spells value text) (ht : isSeparator t = true ∨ t = .atSign) : (text, t) ∈ symbols := by
  have hlink : t.isLink = false := by
    cases t with
    | slash | slashSlash | atSign => rfl
    | _ => simp [isSeparator] at ht
  cases h with
  | symbol hmem => exact hmem
  | linkWord hword => simp [linkWord?_isLink hword] at hlink
  | bindingWord hword => simp [bindingWord?_isLink hword] at hlink
  | @call word =>
      rcases ofCallWord_cases (String.ofList word) with h | ⟨h, -⟩ | h <;>
        simp [h, isSeparator] at ht
  | _ => simp [isSeparator] at ht

/-- The keyword of a test is written as the word of a call is. -/
theorem Spells.of_nodeKind {value : String} {text : List Char} (h : nodeKind.Spells value text) :
    value ∈ kindWords ∧ ∃ more, text = value.toList ++ more := by
  obtain ⟨hcall, word, gap, -, rfl, rfl⟩ := h.shape.2 (.inr rfl)
  refine ⟨?_, gap ++ ['('], by simp⟩
  rcases ofCallWord_cases (String.ofList word) with h | ⟨-, hkind⟩ | h
  · cases hcall.trans h
  · exact hkind
  · cases hcall.trans h

/-- No blank, slash or closing parenthesis ends a token behind which an expression may start. -/
theorem Spells.of_opens {t : Token} {value : String} {text : List Char} {c : Char}
    (h : t.Spells value text) (ht : t.opensExpression = true) (hlast : text.getLast? = some c)
    (hc : c ∈ endMarks) : c = '\x7d' := by
  have hsymbols : ∀ symbol ∈ symbols, symbol.2.opensExpression = true →
      (symbol.1.getLast?.all fun c => !endMarks.contains c || c = '\x7d') = true := by decide
  have hmark := hsymbols _ (h.of_mark hc hlast) ht
  simpa [hlast, hc] using hmark

theorem mem_endMarks {c : Char} (h : (Text.isBlank c = true ∨ c = ')') ∨ c = '/') :
    c ∈ endMarks ∧ c ≠ '\x7d' := by
  rcases h with (hblank | rfl) | rfl
  · simp only [Text.isBlank, Bool.or_eq_true, decide_eq_true_eq] at hblank
    rcases hblank with ((rfl | rfl) | rfl) | rfl <;> decide
  · decide
  · decide

end Token

namespace Cursor

variable {source : String} {b d : Cursor}

/-- Where an expression may start, what has been read ends in no blank, slash or closing
parenthesis. -/
theorem Reaches.last_read (h : (ofSource source 0).Reaches b)
    (hopens : b.token.opensExpression = true) (hmore : b.rest ≠ []) {before after : List Char}
    (hsource : source.toList = before ++ after) (hlength : utf8Length before = b.position)
    {c : Char} (hlast : before.getLast? = some c) (hc : c ∈ Token.endMarks) : c = '\x7d' := by
  by_cases heof : b.token = .eof
  · -- nothing has been read yet, since at the end of the source nothing would be left
    cases h with
    | refl =>
        have hstart : (ofSource source 0).position = 0 :=
          Nat.le_zero.mp (ofSource_position source 0).1
        have hnone : [] ++ source.toList = before ++ after := hsource
        obtain ⟨rfl, -⟩ := prefix_unique hnone (hlength.trans hstart).symm
        cases hlast
    | advance _ hadvance =>
        obtain ⟨gap, rest, l, -, hread, rfl⟩ := advance_ok hadvance
        obtain rfl := (Lexeme.token_eq_eof_iff hread).mp heof
        cases hread
        exact absurd rfl hmore
    | endOperand _ => cases heof
  · have hparen : b.token ≠ .rightParen := by
      intro hparen
      rw [hparen] at hopens
      cases hopens
    obtain ⟨text, hslice, hspells⟩ := h.slice heof hparen
    obtain ⟨before', after', hsource', hlength'⟩ := hslice.ends
    obtain ⟨rfl, -⟩ := prefix_unique (hsource.symm.trans hsource') (hlength.trans hlength'.symm)
    have htext := List.getLast?_eq_some_getLast hspells.ne_nil
    rw [List.getLast?_append, htext, Option.some_or] at hlast
    exact hspells.of_opens hopens (htext.trans hlast) hc

/-- Where an expression may start, no slash has just been read: the token before it does not end
in one, and a slash in a comment has the end of the comment behind it. -/
theorem Reaches.not_behindSlash (h : (ofSource source 0).Reaches b)
    (hopens : b.token.opensExpression = true) (hadvance : b.advance = (.ok (), d))
    (hd : d.token ≠ .eof) : ¬BehindSlash source d.offset := by
  rintro ⟨m, gap', hslash, hgap'⟩
  have hstands := stands_of_reaches (ofSource_stands source 0) h
  obtain ⟨gap, text, hstep⟩ := hstands.step hadvance hd
  obtain ⟨before, after, hsource, hlength, hoffset⟩ := hstep.gap_slice
  obtain ⟨before', after', hsource', hlength'⟩ := hslash.ends
  have hmore : b.rest ≠ [] := by
    intro hrest
    obtain ⟨e, he, heof⟩ := advance_nil hrest
    rw [he] at hadvance
    cases hadvance
    exact hd heof
  -- both ways to cut the text before the token give the whole of it
  obtain ⟨hcut, -⟩ : before ++ gap = before' ++ '/' :: gap' ∧ after = after' := by
    refine prefix_unique ?_ ?_
    · rw [List.append_assoc, ← hsource, hsource']
    · rw [utf8Length_append, hlength, hlength', hoffset]
  have hmarks : ∀ {c : Char}, before.getLast? = some c →
      ¬((Text.isBlank c = true ∨ c = ')') ∨ c = '/') := by
    intro c hlast hc
    obtain ⟨hmark, hbrace⟩ := Token.mem_endMarks hc
    exact hbrace (h.last_read hopens hmore hsource hlength hlast hmark)
  rcases List.append_eq_append_iff.mp hcut with ⟨more, rfl, hgap⟩ | ⟨more, rfl, hslashGap⟩
  · -- the slash is within the trivia before the token
    have hcutGap : Token.IsTrivia 0 ((more ++ ['/']) ++ gap') := by
      rw [List.append_assoc, List.singleton_append, ← hgap]
      exact hstep.gap_isTrivia
    rcases hcutGap.cut hgap' (List.getLast?_concat) with hblank | hparen
    · exact absurd hblank (by decide)
    · exact absurd hparen (by decide)
  · cases more with
    | nil =>
        -- a slash starts no trivia
        rw [List.nil_append] at hslashGap
        rw [← hslashGap] at hstep
        obtain ⟨⟩ | ⟨hblank, -⟩ := hstep.gap_isTrivia
        exact absurd hblank (by decide)
    | cons c more =>
        simp only [List.cons_append, List.cons.injEq] at hslashGap
        obtain ⟨rfl, rfl⟩ := hslashGap
        rw [List.getLast?_append, List.getLast?_cons, Option.some_or] at hmarks
        cases hlast : more.getLast? with
        | none =>
            rw [hlast] at hmarks
            exact hmarks rfl (.inr rfl)
        | some c =>
            rw [hlast] at hmarks
            exact hmarks rfl (.inl (hgap'.cut hstep.gap_isTrivia hlast))

/-- Behind a separator a slash has just been read. -/
theorem Reaches.behindSlash (h : (ofSource source 0).Reaches b)
    (hseparator : isSeparator b.token = true) (hadvance : b.advance = (.ok (), d))
    (hd : d.token ≠ .eof) : BehindSlash source d.offset := by
  have hstands := stands_of_reaches (ofSource_stands source 0) h
  obtain ⟨gap, _, hstep⟩ := hstands.step hadvance hd
  have hread : b.token ≠ .eof ∧ b.token ≠ .rightParen := by
    constructor <;>
    · intro htoken
      rw [htoken] at hseparator
      cases hseparator
  obtain ⟨text, hslice, hspells⟩ := h.slice hread.1 hread.2
  have hsymbols : ∀ symbol ∈ Token.symbols, isSeparator symbol.2 = true →
      symbol.1.getLast? = some '/' := by decide
  obtain ⟨more, rfl⟩ := List.getLast?_eq_some_iff.mp
    (hsymbols _ (hspells.of_stepMark (.inl hseparator)) hseparator)
  obtain ⟨before, after, hsource, hlength, hposition⟩ := hslice
  obtain ⟨before', after', hsource', hlength', hoffset⟩ := hstep.gap_slice
  obtain ⟨rfl, -⟩ : before' = (before ++ more) ++ ['/'] ∧ gap ++ after' = after := by
    refine prefix_unique ?_ ?_
    · rw [← hsource', hsource]
      simp
    · rw [hlength', hposition, ← hlength]
      simp only [utf8Length_append]
      omega
  refine ⟨utf8Length (before ++ more), gap, ⟨before ++ more, after', ?_, rfl, ?_⟩,
    hstep.gap_isTrivia⟩
  · rw [hsource']
    simp
  · rw [hoffset, ← hlength', utf8Length_append _ ['/'], utf8Length_cons]
    show _ + utf8Length ['/'] + _ = _ + (_ + _)
    simp only [utf8Length, List.foldr]
    omega

end Cursor

namespace Parse

/-- No name or mark of an axis goes together with the keyword of tests for documents. -/
theorem AxisAt.not_documentWord {source : String} {n : Nat} {axis : Axis}
    (h : AxisAt (.ofSource source 0) n axis) : ¬DocumentWord source n := by
  rintro ⟨m, hword⟩
  cases h with
  | @name d axis hreaches hoffset htoken hname =>
      obtain ⟨text, hslice, hspells⟩ := hreaches.slice (by simp [htoken]) (by simp [htoken])
      obtain rfl := hspells.shape.1 htoken
      have hfound := List.find?_some hname
      have hvalue : axis.name = d.value := of_decide_eq_true hfound
      rw [hoffset, ← hvalue] at hslice
      have hnames : ∀ axis : Axis, ¬("document-node".toList <+: axis.name.toList ++ [':', ':'] ∨
          axis.name.toList ++ [':', ':'] <+: "document-node".toList) := by
        intro axis
        cases axis <;> decide
      exact hnames axis (hword.prefix_or_prefix hslice)
  | mark hreaches hoffset htoken =>
      obtain ⟨text, hslice, hspells⟩ := hreaches.slice (by simp [htoken]) (by simp [htoken])
      have hsymbols : ∀ symbol ∈ Token.symbols, symbol.2 = .atSign → symbol.1 = ['@'] := by decide
      obtain rfl : text = ['@'] := hsymbols _ (hspells.of_stepMark (.inr htoken)) htoken
      rw [hoffset] at hslice
      exact absurd (hword.prefix_or_prefix hslice) (by decide)

end Parse

/-! ### Steps that stay at their node -/

/-- The readers of one source for one language. A step behind a slash that would stay at its node
for the first one goes to the children for the second one. -/
def Pair.alongside (σ : Setting) (source : String) (behind : Nat → Bool) : Pair where
  left := σ
  right := σ
  Beside c c' := c' = c ∧ (Cursor.ofSource source 0).Reaches c
  Starts c := c.token ≠ .eof → ¬BehindSlash source c.offset
  Failing _ _ _ _ := True
  Gone _ := False
  extra := 0
  offset n := n
  axis := (Relocation.toChildren behind).axis

section

variable {σ : Setting} {source : String} {behind : Nat → Bool}

theorem Pair.lawful_alongside : (Pair.alongside σ source behind).Lawful :=
  .of_shared And.left (fun _ => rfl) (fun h => ⟨rfl, h.2.endOperand⟩)
    (fun h hd => ⟨⟨rfl, h.2.advance hd⟩, fun hopens hmore =>
      h.2.not_behindSlash hopens hd hmore⟩)
    (fun _ _ => trivial) (fun _ _ _ _ _ => trivial) (fun h => absurd rfl h)

theorem Pair.answers_alongside
    (hbehind : ∀ n, behind n = true ↔ DocumentWord source n ∧ BehindSlash source n) :
    (Pair.alongside σ source behind).Answers := by
  have : (Pair.alongside σ source behind).Lawful := Pair.lawful_alongside
  have hlater : ∀ c, Pair.Implies (alongside σ source behind) c false false := by
    intro c test
    rcases impliedAxis_later c.token c.value with h | h <;>
      simp [h, alongside, Relocation.toChildren]
  refine .of_host rfl (fun _ _ _ _ _ => trivial) (fun _ _ _ _ _ => trivial)
    (Relocation.toChildren_isMild behind) (fun _ _ _ _ _ _ _ _ => trivial)
    (fun h _ _ function start args _ =>
      callIn_agrees rfl (fun _ => ⟨fun _ _ _ => trivial, fun _ _ _ => trivial⟩) h start function
        args) ?_ (fun c _ _ => hlater c) ?_
  · rintro _ c ⟨rfl, -⟩ hstarts test
    show (if behind c.offset && impliedAxis c.token c.value _ = .self then .child
      else impliedAxis c.token c.value _) = impliedAxis c.token c.value _
    by_cases htoken : c.token = .eof
    · simp [htoken, impliedAxis]
    · have hnot : behind c.offset = false :=
        Bool.eq_false_iff.mpr fun h => hstarts htoken ((hbehind _).mp h).2
      rw [hnot]
      rfl
  · rintro _ c axis ⟨rfl, hreaches⟩ htoken haxis test
    have hnot : behind c.offset = false :=
      Bool.eq_false_iff.mpr fun h =>
        (AxisAt.name hreaches rfl htoken haxis).not_documentWord ((hbehind _).mp h).1
    simp [alongside, Relocation.toChildren, hnot]

end

/-! ### All steps for documents -/

namespace Expr

theorem at?_relocate (m : Relocation) (e : Expr) (position : List Nat) :
    (e.relocate m).at? position = (e.at? position).map (relocate m) :=
  at?_map (children_relocate m) e position

end Expr

/-- The test is one for documents. -/
def NodeTest.isDocument : NodeTest → Bool
  | .kind .document | .document _ => true
  | _ => false

namespace Parse

variable {σ : Setting} {source : String}

/-- Only a keyword starts a test for documents. -/
theorem nodeTest_document {s t : ParseState} {test : NodeTest}
    (h : nodeTest σ .element s = .ok test t) (hdocument : test.isDocument = true) :
    s.cursor.token = .nodeKind := by
  unfold nodeTest at h
  rw [token_bind] at h
  generalize s.cursor.token = token at h ⊢
  split at h
  · rw [value_bind] at h
    obtain ⟨name, _, -, h⟩ := bind_ok.mp h
    obtain ⟨_, _, -, h⟩ := bind_ok.mp h
    obtain ⟨rfl, -⟩ := pure_ok.mp h
    cases hdocument
  · rw [value_bind] at h
    obtain ⟨uri, _, -, h⟩ := bind_ok.mp h
    obtain ⟨_, _, -, h⟩ := bind_ok.mp h
    obtain ⟨rfl, -⟩ := pure_ok.mp h
    cases hdocument
  · obtain ⟨_, _, -, h⟩ := bind_ok.mp h
    rw [value_bind] at h
    obtain ⟨_, _, -, h⟩ := bind_ok.mp h
    dsimp only at h
    split at h
    · obtain ⟨_, _, hfail, -⟩ := bind_ok.mp h
      exact absurd hfail reject_ne_ok
    · obtain ⟨_, _, -, h⟩ := bind_ok.mp h
      obtain ⟨rfl, -⟩ := pure_ok.mp h
      cases hdocument
  · obtain ⟨_, _, -, h⟩ := bind_ok.mp h
    obtain ⟨rfl, -⟩ := pure_ok.mp h
    cases hdocument
  · rfl
  · exact absurd h reject_ne_ok

/-- What is read where the keyword stands is that keyword. -/
theorem value_of_documentWord {d : Cursor} (h : (Cursor.ofSource source 0).Reaches d)
    (htoken : d.token = .nodeKind) (hword : DocumentWord source d.offset) :
    d.value = "document-node" := by
  obtain ⟨text, hslice, hspells⟩ := h.slice (by simp [htoken]) (by simp [htoken])
  rw [htoken] at hspells
  obtain ⟨hkeyword, more, rfl⟩ := hspells.of_nodeKind
  obtain ⟨m, hword⟩ := hword
  have hwords : ∀ word ∈ Token.kindWords, "document-node".toList <+: word.toList ∨
      word.toList <+: "document-node".toList → word = "document-node" := by decide
  exact hwords _ hkeyword (hword.prefix_or_prefix hslice.left)

/-- A step for documents without an axis stays at its node in a pattern only, and goes to the
children there only behind a slash. -/
theorem BareStepAt.document {n : Nat} {axis : Axis} {test : NodeTest}
    (h : BareStepAt σ (.ofSource source 0) n axis test) (hdocument : test.isDocument = true)
    (hword : DocumentWord source n) :
    (axis = .self ∧ σ.language = .pattern) ∨
      (axis = .child ∧ (σ.language = .pattern → BehindSlash source n)) := by
  obtain ⟨s, t, startsPattern, hreaches, rfl, hplace, rfl, htest⟩ := h
  have htoken := nodeTest_document htest hdocument
  have hvalue := value_of_documentWord hreaches htoken hword
  rw [htoken, hvalue]
  cases startsPattern with
  | true => exact .inl ⟨rfl, hplace.pattern rfl⟩
  | false =>
      refine .inr ⟨rfl, fun hlanguage => ?_⟩
      obtain ⟨b, hb, hseparator, hadvance⟩ := hplace.separated rfl hlanguage
      exact hb.behindSlash hseparator hadvance (by simp [htoken])

/-- Where a whole source is read, a step for documents without an axis stays at its node, or it
goes to the children; in a pattern the latter is behind a slash. -/
theorem complete_document {s t : ParseState} {p : Expr} (hs : s.cursor = .ofSource source 0)
    (h : complete σ .eof s = .ok p t) {position : List Nat} {n : Nat} {axis : Axis}
    {test : NodeTest} (hat : p.at? position = some (.axisStep n axis test))
    (hdocument : test.isDocument = true) (hword : DocumentWord source n) :
    (axis = .self ∧ σ.language = .pattern) ∨
      (axis = .child ∧ (σ.language = .pattern → BehindSlash source n)) := by
  obtain ⟨bs, hocc⟩ := Expr.exists_occurs_of_at? hat
  have hread : test.IsRead σ s.cursor n axis := ((complete_assembled h).assembled bs _ hocc).1
  rw [hs] at hread
  cases hread with
  | ofAxis haxis _ => exact absurd hword haxis.not_documentWord
  | bare hbare => exact hbare.document hdocument hword
  | descendants _ htest =>
      rw [htest] at hdocument
      cases hdocument

/-- No step for documents behind a slash stays at its node. -/
theorem complete_behindSlash {s t : ParseState} {p : Expr} (hs : s.cursor = .ofSource source 0)
    (h : complete σ .eof s = .ok p t) {position : List Nat} {n : Nat} {axis : Axis}
    {test : NodeTest} (hat : p.at? position = some (.axisStep n axis test))
    (hword : DocumentWord source n) (hslash : BehindSlash source n) : axis ≠ .self := by
  classical
  let behind n := decide (DocumentWord source n ∧ BehindSlash source n)
  have hbehind : ∀ n, behind n = true ↔ DocumentWord source n ∧ BehindSlash source n :=
    fun n => decide_eq_true_iff
  let P := Pair.alongside σ source behind
  have : P.Lawful := Pair.lawful_alongside
  have : P.Answers := Pair.answers_alongside hbehind
  have hlinked : P.Linked s s := ⟨⟨rfl, hs ▸ .refl⟩, rfl, rfl, rfl, rfl⟩
  have hend : Token.eof = .rightBrace → ∀ c c', P.Beside c c' → c.token = .eof →
      P.Failing c (report P.left c .unclosedTemplate) c' (report P.right c' .unclosedTemplate) := by
    rintro ⟨⟩
  have hagree := Pair.Agree.complete hend hlinked (by rw [hs]; rfl)
  rw [show complete P.left .eof s = .ok p t from h,
    show complete P.right .eof s = .ok p t from h] at hagree
  cases hagree with
  | ok hgives =>
      obtain ⟨⟨htree, -⟩, -⟩ := hgives
      rintro rfl
      -- the second reader finds the same step, and has it go to the children
      have hmoved : (P.tree p).at? position = some (P.tree (.axisStep n .self test)) := by
        rw [Pair.tree, Expr.at?_relocate, hat]
        rfl
      rw [← htree, hat] at hmoved
      have haxis : Axis.self = if behind n && Axis.self = .self then .child else .self := by
        simpa [Pair.tree, Expr.relocate, Pair.relocation, P, Pair.alongside,
          Relocation.toChildren] using hmoved
      simp [(hbehind n).mpr ⟨hword, hslash⟩] at haxis

end Parse

/-- Every path in a pattern has a first step of its own, wherever the path stands, and a step for
documents without an axis stays at its node exactly when it is one: when no slash stands before
it. Behind a slash such a step goes to the children, as it always does in an expression. -/
theorem documentStep_axis (source : String) (host : Resolver) (warnings : List String)
    {position : List Nat} {n : Nat} {axis : Axis} {test : NodeTest}
    (hdocument : test.isDocument = true) (hword : DocumentWord source n) :
    (∀ p, (readPattern source host warnings).outcome = .ok p →
      p.at? position = some (.axisStep n axis test) →
        (axis = .self ↔ ¬BehindSlash source n) ∧ (axis = .child ↔ BehindSlash source n)) ∧
    ∀ e, (readExpression source host warnings).outcome = .ok e →
      e.at? position = some (.axisStep n axis test) → axis = .child := by
  constructor
  · intro p h hat
    obtain ⟨t, hrun⟩ := Parser.expression_ok h
    have hslash := complete_behindSlash rfl hrun hat hword
    rcases complete_document rfl hrun hat hdocument hword with ⟨rfl, -⟩ | ⟨rfl, hbehind⟩
    · have hnot : ¬BehindSlash source n := fun hbehind => hslash hbehind rfl
      exact ⟨⟨fun _ => hnot, fun _ => rfl⟩, ⟨nofun, fun hbehind => absurd hbehind hnot⟩⟩
    · exact ⟨⟨nofun, fun hnot => absurd (hbehind rfl) hnot⟩, ⟨fun _ => hbehind rfl, fun _ => rfl⟩⟩
  · intro e h hat
    obtain ⟨t, hrun⟩ := Parser.expression_ok h
    rcases complete_document rfl hrun hat hdocument hword with ⟨-, hlanguage⟩ | ⟨haxis, -⟩
    · cases hlanguage
    · exact haxis

/-- The offset and the axis of a step for all documents. -/
def Expr.documentStep? : Expr → Option (Nat × Axis)
  | axisStep n axis (.kind .document) => some (n, axis)
  | _ => none

theorem Expr.eq_of_documentStep? {n : Nat} {axis : Axis} {e : Expr}
    (h : e.documentStep? = some (n, axis)) : e = axisStep n axis (.kind .document) := by
  unfold documentStep? at h
  split at h <;> cases h
  rfl

/-- A predicate behind the slash of a path. -/
theorem documentStep_axis_of_slash : ∃ p axis,
    (readPattern "document-node()[b/document-node()]" ({} : StaticContext).resolver []).outcome =
        .ok p ∧
      p.at? [1, 1] = some (.axisStep 18 axis (.kind .document)) ∧ axis = .child := by
  obtain ⟨p, hp, hstep⟩ := exists_of_any
    (r := (readPattern "document-node()[b/document-node()]" ({} : StaticContext).resolver
      []).outcome)
    (c := fun p => (p.at? [1, 1]).any fun e => e.documentStep?.any (·.1 = 18)) (by decide +kernel)
  obtain ⟨e, hat, hstep⟩ := (Option.any_eq_true _ _).mp hstep
  obtain ⟨⟨n, axis⟩, he, hn⟩ := (Option.any_eq_true _ _).mp hstep
  obtain rfl : n = 18 := of_decide_eq_true hn
  rw [Expr.eq_of_documentStep? he] at hat
  have hword : DocumentWord "document-node()[b/document-node()]" 18 :=
    ⟨31, "document-node()[b/".toList, "()]".toList, by decide, by decide, by decide⟩
  have hslash : BehindSlash "document-node()[b/document-node()]" 18 :=
    ⟨17, [], ⟨"document-node()[b".toList, "document-node()]".toList, by decide, by decide,
      by decide⟩, .nil⟩
  exact ⟨p, axis, hp, hat,
    ((documentStep_axis _ _ [] rfl hword).1 p hp hat).2.mpr hslash⟩

/-- A predicate that is a step for documents, at the offset and along the axis. -/
def Expr.isDocumentPredicate (n : Nat) (axis : Axis) : Expr → Bool
  | filter _ _ condition => condition.documentStep? = some (n, axis)
  | _ => false

/-- The step in a predicate starts a path of its own, and stays at its node although the pattern
has begun before. As an expression the same text goes to the children there. -/
theorem documentStep_self_of_predicate : ∃ n base n' base',
    (readPattern "a[document-node()]" ({} : StaticContext).resolver []).outcome =
        .ok (.filter n base (.axisStep 2 .self (.kind .document))) ∧
      (readExpression "a[document-node()]" ({} : StaticContext).resolver []).outcome =
        .ok (.filter n' base' (.axisStep 2 .child (.kind .document))) := by
  obtain ⟨p, hp, hself⟩ := exists_of_any (c := Expr.isDocumentPredicate 2 .self)
    (r := (readPattern "a[document-node()]" ({} : StaticContext).resolver []).outcome)
    (by decide +kernel)
  obtain ⟨e, he, hchild⟩ := exists_of_any (c := Expr.isDocumentPredicate 2 .child)
    (r := (readExpression "a[document-node()]" ({} : StaticContext).resolver []).outcome)
    (by decide +kernel)
  have hfilter : ∀ {e : Expr} {axis : Axis}, e.isDocumentPredicate 2 axis = true →
      ∃ n base, e = .filter n base (.axisStep 2 axis (.kind .document)) := by
    intro e axis h
    unfold Expr.isDocumentPredicate at h
    split at h
    · rw [Expr.eq_of_documentStep? (of_decide_eq_true h)]
      exact ⟨_, _, rfl⟩
    · cases h
  obtain ⟨n, base, rfl⟩ := hfilter hself
  obtain ⟨n', base', rfl⟩ := hfilter hchild
  exact ⟨n, base, n', base', hp, he⟩

end XPath
