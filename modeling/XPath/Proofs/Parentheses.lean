import XPath.Proofs.Assembling
import XPath.Proofs.ChainReading
import XPath.Proofs.Enclosing
import XPath.Proofs.Scoping
import XPath.Proofs.Tiling

/-!
# Sources in parentheses

A source that can be read by itself can be put in parentheses and used as an operand or as an
item of a sequence, and what is read is what was read before, shifted to its place
(`readExpression_parentheses`). An operand takes more levels than the whole source did, so that
there may be too many of them. The items of a sequence take the same levels one after the other,
however many they are.
-/

namespace XPath

open Parse

/-! ### Reading a source by itself -/

/-- What comes of reading a source by itself: the cursor at its first token, the expression, and
the state at its end. -/
structure Parse.Alone (σ : Setting) (source : String) (warnings : List String) (e : Expr)
    (c : Cursor) (t : ParseState) : Prop where
  first : (Cursor.ofSource source 0).advance = (.ok (), c)
  run : expression σ (single σ) { cursor := c, warnings } = .ok e t
  ends : t.cursor.token = .eof

/-- The number of variables that are declared while a source is read. -/
def declarations (source : String) (host : Resolver) (warnings : List String) : Nat :=
  ((Parser.ofSource source 0 .expression host warnings).expression .eof).2.state.nextId

theorem exists_alone {source : String} {host : Resolver} {warnings : List String} {e : Expr}
    (h : (readExpression source host warnings).outcome = .ok e) :
    ∃ c t, Alone ⟨.expression, host⟩ source warnings e c t ∧
      t.nextId = declarations source host warnings := by
  cases hrun : complete ⟨.expression, host⟩ .eof
      (Parser.ofSource source 0 .expression host warnings).state with
  | error err v =>
      rw [readExpression_fails hrun] at h
      cases h
  | ok e' v =>
      rw [readExpression_run hrun] at h
      cases h
      have hids : declarations source host warnings = v.nextId := by
        have hread := Parser.expression_run (p := .ofSource source 0 .expression host warnings) hrun
        rw [declarations, hread]
      obtain ⟨_, u, hu, hrun⟩ := bind_ok.mp hrun
      obtain ⟨c, hc, rfl⟩ := advance_ok hu
      obtain ⟨e', w, hw, hrun⟩ := bind_ok.mp hrun
      rw [token_bind] at hrun
      split at hrun
      · next hends =>
          obtain ⟨rfl, rfl⟩ := pure_ok.mp hrun
          exact ⟨c, w, ⟨hc, hw, hends⟩, hids.symm⟩
      · split at hrun
        · exact absurd hrun reject_ne_ok
        · obtain ⟨_, _, -, hfail⟩ := bind_ok.mp hrun
          exact absurd hfail reject_ne_ok

namespace Parse

variable {σ : Setting} {source : String} {warnings : List String} {e : Expr} {c : Cursor}
  {s t : ParseState}

theorem stands_of_reaches {start : Nat} {c d : Cursor} (hc : c.Stands source start)
    (h : c.Reaches d) : d.Stands source start := by
  induction h with
  | refl => exact hc
  | @advance d e _ he ih =>
      have := ih.after .next
      rwa [Cursor.after, he] at this
  | endOperand _ ih => exact ih.after .operandEnd

/-- A cursor that finds the end has nothing left to read. -/
theorem rest_of_reaches_eof {c d : Cursor} (hc : c.token ≠ .eof) (h : c.Reaches d)
    (hd : d.token = .eof) : d.rest = [] := by
  cases h with
  | refl => exact absurd hd hc
  | advance _ hadvance =>
      obtain ⟨gap, rest, l, -, hread, rfl⟩ := Cursor.advance_ok hadvance
      obtain rfl := (Lexeme.token_eq_eof_iff hread).mp hd
      cases hread
      rfl
  | endOperand _ => cases hd

namespace Alone

/-- The first token starts an expression. -/
theorem starts (h : Alone σ source warnings e c t) : c.token ≠ .eof ∧ c.token ≠ .rightParen := by
  have hne := expression_ne_ok (s := { cursor := c, warnings }) (t := t) (e := e)
    (singleWithin_mirrors (σ := σ) (maxDepth / nestedCost) 0)
  exact ⟨fun htoken => hne (.inl htoken) h.run, fun htoken => hne (.inr htoken) h.run⟩

theorem reads (h : Alone σ source warnings e c t) :
    Reads σ { cursor := c, depth := nestedCost, warnings } (.whole e) t := by
  have hready : Ready { cursor := c, warnings } := ⟨Nat.zero_le _, .advance h.first⟩
  exact (expression_reads (singleWithin_reads _) _ e t hready h.run).2.1

/-- At the end all of the source has been read, and no variable is in scope. -/
theorem finish (h : Alone σ source warnings e c t) :
    t.cursor.position = source.utf8ByteSize ∧ t.scope = [] := by
  have hmoves := h.reads.moves
  have hfirst := (Cursor.ofSource_stands source 0).after .next
  rw [Cursor.after, h.first] at hfirst
  obtain ⟨before, hsource, hposition⟩ := (stands_of_reaches hfirst hmoves.cursor).rest
  rw [rest_of_reaches_eof h.starts.1 hmoves.cursor h.ends, List.append_nil] at hsource
  exact ⟨by rw [← hposition, ← hsource, utf8Length_toList], hmoves.scope⟩

/-- The source does not start with a colon, so that no comment starts at a parenthesis before
it. -/
theorem head_ne (h : Alone σ source warnings e c t) : source.toList.head? ≠ some ':' := by
  obtain ⟨gap, rest, l, hgap, hread, -⟩ := Cursor.advance_ok h.first
  rw [ofSource_zero] at hgap
  obtain ⟨hsplit, htrivia, -⟩ := Token.trivia_eq_some_iff.mp hgap
  have hsplit : source.toList = gap ++ rest := hsplit
  rw [hsplit]
  refine htrivia.head?_append_ne fun hcolon => ?_
  obtain ⟨ds, rfl⟩ := List.head?_eq_some_iff.mp hcolon
  exact Lexeme.read_colon hread

end Alone

/-! ### Between parentheses -/

/-- The reader has read an opening parenthesis before a source. -/
structure Opens (k : Place) (source : String) (s : ParseState) : Prop where
  token : s.cursor.token = .leftParen
  rest : s.cursor.rest = source.toList ++ ')' :: k.tail
  position : s.cursor.position = k.start
  scope : s.scope = []
  nextId : s.nextId = k.ids

/-- The reader has read the closing parenthesis after the source, in which so many variables are
declared. -/
structure Closes (k : Place) (source : String) (ids : Nat) (s : ParseState) : Prop where
  token : s.cursor.token = .rightParen
  rest : s.cursor.rest = k.tail
  position : s.cursor.position = k.start + source.utf8ByteSize + 1
  scope : s.scope = []
  nextId : s.nextId = k.ids + ids

/-- An operand is read alike behind all tokens before which one may start. -/
theorem read_operand {preceding preceding' : Token} (h : Lexeme.PrecedesOperand preceding)
    (h' : Lexeme.PrecedesOperand preceding') (cs : List Char) :
    Lexeme.read preceding cs = Lexeme.read preceding' cs := by
  have hword : ∀ {p : Token}, Lexeme.PrecedesOperand p → ∀ word cs,
      Lexeme.readWord p word cs = Lexeme.readOperandWord word cs := by
    rintro p ⟨hends, hslash, hdollar, hwildcard⟩ word cs
    rw [Lexeme.readWord_eq]
    simp [hends, hslash, hdollar, hwildcard]
  have hname : ∀ cs, Lexeme.readName preceding cs = Lexeme.readName preceding' cs := by
    intro cs
    unfold Lexeme.readName
    simp only [hword h, hword h']
  cases cs with
  | nil => rfl
  | cons c cs =>
      have hstar : Lexeme.readStar preceding cs = Lexeme.readStar preceding' cs := by
        simp [Lexeme.readStar, h.1, h'.1]
      rw [Lexeme.read, Lexeme.read, hstar, hname]

/-- The first token between the parentheses is that of the source. -/
theorem Opens.advance {k : Place} (hs : Opens k source s) (warnings : List String)
    (h : (Cursor.ofSource source 0).advance = (.ok (), c)) :
    ∃ c', s.cursor.advance = (.ok (), c') ∧
      Lockstep k { cursor := c, warnings } { s with cursor := c' } := by
  obtain ⟨gap, rest, l, hgap, hread, rfl⟩ := Cursor.advance_ok h
  rw [ofSource_zero] at hgap hread ⊢
  rw [read_operand Lexeme.precedesOperand_eof Lexeme.precedesOperand_leftParen] at hread
  let start : Cursor :=
    { seen := [], rest := source.toList, position := 0, token := .leftParen, value := ""
      offset := 0 }
  have hstart : start.advance = (.ok (), start.accept gap l) := Cursor.advance_eq hgap hread
  have hposition : s.cursor.position = start.position + k.start := by
    rw [hs.position]
    exact (Nat.zero_add _).symm
  obtain ⟨c', hc', hbeside⟩ := Cursor.beside_of_advance hs.token hs.rest hposition hstart
  refine ⟨c', hc', hbeside, ?_, ?_⟩
  · exact hs.scope
  · show s.nextId = 0 + k.ids
    rw [hs.nextId, Nat.zero_add]

/-- The source between parentheses is read like the source alone, at every place, or not at all
where too many levels are in use. -/
theorem Alone.parenthesized (h : Alone σ source warnings e c t) (n d : Nat) :
    (∀ k s, Opens k source s → s.depth = d → ∃ u, Closes k source t.nextId u ∧
      ∀ c', u.cursor.advance = (.ok (), c') →
        parenthesized σ (singleWithin σ n) s = .ok (k.expr e) { u with cursor := c' }) ∨
      ∀ k s, Opens k source s → s.depth = d →
        TooDeep σ (Parse.parenthesized σ (singleWithin σ n) s) := by
  obtain ⟨hne, hne'⟩ := h.starts
  obtain ⟨hposition, hscope⟩ := h.finish
  have hmirrors := (Mirrors.expression (d := d) (singleWithin_mirrors (σ := σ) _ n) e t h.run).2
  -- the opening parenthesis is read, and the next token is not the closing one
  have hopen : ∀ k s, Opens k source s → ∃ u, Lockstep k { cursor := c, warnings } u ∧
      u.depth = s.depth ∧ Parse.parenthesized σ (singleWithin σ n) s = (do
        let inner ← Parse.expression σ (singleWithin σ n)
        skip σ .rightParen
        return inner : Parse Expr) u := by
    intro k s hs
    obtain ⟨c', hc', hlock⟩ := hs.advance warnings h.first
    refine ⟨_, hlock, rfl, ?_⟩
    unfold Parse.parenthesized
    rw [offset_bind, bind_run (advance_run hc'), token_bind, if_neg]
    rw [(hlock.cursor.inside hne).1]
    exact hne'
  rcases hmirrors with ⟨d', hmirrors⟩ | hmirrors
  · refine .inl fun k s hs hd => ?_
    obtain ⟨u, hlock, hdepth, heq⟩ := hopen k s hs
    obtain ⟨v, hv, hlock', -⟩ := hmirrors k u hlock (hdepth.trans hd)
    obtain ⟨-, htoken, hrest, hposition'⟩ := hlock'.cursor.outside h.ends
    refine ⟨v, ⟨htoken, hrest, ?_, ?_, ?_⟩, fun c' hc' => ?_⟩
    · rw [hposition', hposition, Nat.add_comm source.utf8ByteSize]
    · rw [hlock'.scope, hscope]
      rfl
    · rw [hlock'.nextId, Nat.add_comm]
    · rw [heq, bind_run hv, bind_run (skip_run htoken hc')]
      rfl
  · refine .inr fun k s hs hd => ?_
    obtain ⟨u, hlock, hdepth, heq⟩ := hopen k s hs
    obtain ⟨location, v, hv⟩ := hmirrors k u hlock (hdepth.trans hd)
    exact ⟨location, v, heq.trans (bind_fails hv)⟩

/-! ### Around the parentheses -/

/-- A parenthesis starts a path without a sign. -/
theorem signedPath_of_leftParen {nested : Parse Expr} (hs : s.cursor.token = .leftParen) :
    signedPath σ nested s = nesting (do
      return applySigns (← relativePath σ nested) [] : Parse Expr) s := by
  have hstop : (sign? s.cursor.token).isSome = false := by
    rw [hs]
    rfl
  have hpath : pathExpression σ nested s = relativePath σ nested s := by
    unfold pathExpression
    rw [token_bind, hs]
  have hinner : (do
      let signs ← repeatWhile (fun t => (sign? t).isSome) (sign σ) []
      return applySigns (← pathExpression σ nested) signs : Parse Expr) s =
      (do return applySigns (← relativePath σ nested) [] : Parse Expr) s := by
    rw [bind_run (repeatWhile_stop hstop)]
    cases hrelative : relativePath σ nested s with
    | ok e t => rw [bind_run (hpath.trans hrelative), bind_run hrelative]
    | error e t => rw [bind_fails (hpath.trans hrelative), bind_fails hrelative]
  unfold signedPath Parse.nesting
  rw [hinner]

theorem signedPath_parenthesized {nested : Parse Expr} (hs : s.cursor.token = .leftParen)
    (h : parenthesized σ nested s = .ok e t) (he : isReverseStep e = false)
    (hbracket : t.cursor.token ≠ .leftBracket) (hseparator : isSeparator t.cursor.token = false) :
    signedPath σ nested s = .ok e { t with depth := s.depth } := by
  have hprimary : ∀ b, primary σ nested b s = .ok e t := by
    intro b
    unfold primary
    rw [token_bind, hs]
    exact h
  rw [signedPath_of_leftParen hs]
  refine nesting_run (t := { t with depth := s.depth }) ?_
  rw [bind_run (relativePath_run hprimary he hbracket hseparator)]
  rfl

theorem signedPath_tooDeep {nested : Parse Expr} (hs : s.cursor.token = .leftParen)
    (h : TooDeep σ (parenthesized σ nested s)) : TooDeep σ (signedPath σ nested s) := by
  have hprimary : ∀ b, TooDeep σ (primary σ nested b s) := by
    intro b
    unfold primary
    rw [token_bind, hs]
    exact h
  rw [signedPath_of_leftParen hs]
  have hstep : ∀ b, TooDeep σ (step σ nested b s) := fun b => .nesting (.bind (hprimary b))
  have hpath : TooDeep σ (relativePath σ nested s) := .nesting (.bind (hstep _))
  exact .nesting (.bind hpath)

theorem endsPath_of_closes {t : Token} (h : t.Closes) : EndsPath t :=
  ⟨h.2.1, by simp [isSeparator, h.2.2.1, h.2.2.2]⟩

theorem Alone.signedPath (h : Alone σ source warnings e c t) (n d : Nat) :
    (∀ k s, Opens k source s → s.depth = d → ∃ u, Closes k source t.nextId u ∧
      ∀ c', u.cursor.advance = (.ok (), c') → EndsPath c'.token →
        signedPath σ (singleWithin σ n) s = .ok (k.expr e) { u with cursor := c', depth := d }) ∨
      ∀ k s, Opens k source s → s.depth = d →
        TooDeep σ (Parse.signedPath σ (singleWithin σ n) s) := by
  refine (h.parenthesized n d).imp ?_ ?_
  · intro hall k s hs hd
    obtain ⟨u, hu, hrun⟩ := hall k s hs hd
    refine ⟨u, hu, fun c' hc' hends => ?_⟩
    have hforward : isReverseStep (k.expr e) = false := by
      rw [Expr.isReverseStep_shift]
      exact expression_forward h.run
    subst hd
    exact signedPath_parenthesized hs.token (hrun c' hc') hforward hends.1 hends.2
  · intro hall k s hs hd
    exact signedPath_tooDeep hs.token (hall k s hs hd)

/-- No operator follows. -/
theorem operations_stop {nested : Parse Expr} {tiers least : Nat}
    (h : s.cursor.token.precedence? = none) :
    operations σ nested tiers least e s = .ok e s := by
  cases tiers with
  | zero => rfl
  | succ tiers =>
      refine nesting_keeps (repeatWhile_stop ?_) rfl
      simp [bindsFrom, h]

/-- A single expression that starts with a parenthesis is one with operators. -/
theorem single_run (hs : s.cursor.token = .leftParen) (hdepth : s.depth + nestedCost ≤ maxDepth)
    (h : operatorExpression σ (singleWithin σ 63) { s with depth := s.depth + nestedCost } =
      .ok e t) : single σ s = .ok e { t with depth := s.depth } := by
  show singleWith σ (singleWithin σ 63) s = _
  unfold singleWith
  refine nesting_run ?_
  rw [bind_run (descend_run hdepth), token_bind]
  simp only [hs]
  exact h

theorem single_tooDeep (hs : s.cursor.token = .leftParen)
    (hdepth : s.depth + nestedCost ≤ maxDepth)
    (h : TooDeep σ (operatorExpression σ (singleWithin σ 63)
      { s with depth := s.depth + nestedCost })) : TooDeep σ (single σ s) := by
  show TooDeep σ (singleWith σ (singleWithin σ 63) s)
  unfold singleWith
  refine .nesting ?_
  rw [bind_run (descend_run hdepth), token_bind]
  simp only [hs]
  exact h

theorem Opens.withDepth {k : Place} (h : Opens k source s) (depth : Nat) :
    Opens k source { s with depth } :=
  ⟨h.token, h.rest, h.position, h.scope, h.nextId⟩

/-- The source in parentheses as a single expression, with no level in use before it. -/
theorem Alone.single (h : Alone σ source warnings e c t) :
    (∀ k s, Opens k source s → s.depth = 0 → ∃ u, Closes k source t.nextId u ∧
      ∀ c', u.cursor.advance = (.ok (), c') → c'.token.Closes →
        single σ s = .ok (k.expr e) { u with cursor := c', depth := 0 }) ∨
      ∀ k s, Opens k source s → s.depth = 0 → TooDeep σ (Parse.single σ s) := by
  have hdepth : ∀ s : ParseState, s.depth = 0 → s.depth + nestedCost ≤ maxDepth := by
    intro s hs
    rw [hs]
    decide
  refine (h.signedPath 63 nestedCost).imp ?_ ?_
  · intro hall k s hs hd
    obtain ⟨u, hu, hrun⟩ := hall k _ (hs.withDepth (s.depth + nestedCost)) (by rw [hd]; rfl)
    refine ⟨u, hu, fun c' hc' hcloses => ?_⟩
    have hoperator : operatorExpression σ (singleWithin σ 63)
        { s with depth := s.depth + nestedCost } =
          .ok (k.expr e) { u with cursor := c', depth := nestedCost } := by
      unfold operatorExpression
      rw [bind_run (hrun c' hc' (endsPath_of_closes hcloses))]
      exact operations_stop hcloses.1
    rw [single_run hs.token (hdepth s hd) hoperator, hd]
  · intro hall k s hs hd
    refine single_tooDeep hs.token (hdepth s hd) (.bind ?_)
    exact hall k _ (hs.withDepth _) (by rw [hd]; rfl)

/-! ### The tokens around the parentheses -/

/-- An opening parenthesis behind at most a blank. -/
theorem advance_leftParen {d : Cursor} {tail : List Char} (gap : List Char)
    (hgap : gap = [] ∨ gap = [' ']) (hcolon : source.toList.head? ≠ some ':')
    (hd : d.rest = gap ++ '(' :: (source.toList ++ ')' :: tail)) :
    ∃ d', d.advance = (.ok (), d') ∧ d'.token = .leftParen ∧
      d'.rest = source.toList ++ ')' :: tail ∧ d'.position = d.position + gap.length + 1 ∧
      d'.offset = d.position + gap.length := by
  have hends : Token.EndsTrivia ('(' :: (source.toList ++ ')' :: tail)) := by
    refine ⟨by rintro c ⟨⟩; rfl, fun hopens => ?_⟩
    obtain ⟨-, ds, hds⟩ := Token.opens_iff.mp hopens
    cases hsource : source.toList with
    | nil =>
        rw [hsource] at hds
        cases hds
    | cons c cs =>
        rw [hsource] at hds hcolon
        cases hds
        exact hcolon rfl
  have htrivia : Token.IsTrivia 0 gap := by
    rcases hgap with rfl | rfl
    · exact .nil
    · exact .blank rfl .nil
  have hlength : utf8Length gap = gap.length := by
    rcases hgap with rfl | rfl <;> rfl
  have hskip : Token.trivia d.rest = some (gap, '(' :: (source.toList ++ ')' :: tail)) :=
    Token.trivia_eq_some_iff.mpr ⟨hd, htrivia, hends⟩
  refine ⟨_, Cursor.advance_eq hskip (l := ⟨.leftParen, "", ['('], source.toList ++ ')' :: tail⟩)
    rfl, rfl, rfl, ?_, ?_⟩
  · rw [← hlength]
    rfl
  · rw [← hlength]
    rfl

/-- An operator behind a parenthesis, between blanks. -/
theorem advance_operator {d : Cursor} {op : BinaryOperator} {spelling : String} {tail : List Char}
    (hspelled : spelling ∈ op.spellings) (hd : d.token = .rightParen)
    (hrest : d.rest = ' ' :: (spelling.toList ++ ' ' :: tail)) :
    ∃ d', d.advance = (.ok (), d') ∧ d'.token = .operator op ∧ d'.rest = ' ' :: tail ∧
      d'.offset = d.position + 1 ∧ d'.position = d.position + 1 + spelling.utf8ByteSize := by
  obtain ⟨c, ds, hchars, hblank, hparen, -⟩ := Step.spelling_head hspelled
  have hsolid : Token.IsSolid (spelling.toList ++ ' ' :: tail) := by
    rw [hchars]
    exact ⟨c, _, rfl, hblank, hparen⟩
  have hgap : Token.trivia d.rest = some ([' '], spelling.toList ++ ' ' :: tail) := by
    rw [hrest]
    exact Token.trivia_blank hsolid
  have hends : d.token.endsOperand = true := by
    rw [hd]
    rfl
  obtain ⟨value, hread⟩ := Lexeme.read_spelling hends hspelled tail
  refine ⟨_, Cursor.advance_eq hgap hread, rfl, rfl, rfl, ?_⟩
  rw [← utf8Length_toList]
  rfl

/-! ### Operands -/

section Operands

variable {nested : Parse Expr} {tighter : Nat → Expr → Parse Expr} {op : BinaryOperator}
  {left right : Expr}

/-- The last operator of an expression. -/
theorem operation_run (htoken : s.cursor.token = .operator op) (hdepth : s.depth + 1 ≤ maxDepth)
    (hc : s.cursor.advance = (.ok (), c))
    (hright : signedPath σ nested { s with cursor := c, depth := s.depth + 1 } = .ok right t)
    (ht : t.cursor.token.precedence? = none) :
    operation σ nested tighter left s = .ok (.binary s.cursor.offset op left right) t := by
  have hadvance : advance σ { s with depth := s.depth + 1 } =
      .ok () { s with cursor := c, depth := s.depth + 1 } := advance_run hc
  have hstop : bindsFrom (op.precedence + 1) t.cursor.token = false := by
    simp [bindsFrom, ht]
  unfold operation
  rw [offset_bind, token_bind, htoken]
  dsimp only
  rw [bind_run (descend_run hdepth), bind_run hadvance, bind_run hright,
    bind_run (repeatWhile_stop hstop)]
  rfl

theorem operation_tooDeep (htoken : s.cursor.token = .operator op)
    (hdepth : s.depth + 1 ≤ maxDepth) (hc : s.cursor.advance = (.ok (), c))
    (hright : TooDeep σ (signedPath σ nested { s with cursor := c, depth := s.depth + 1 })) :
    TooDeep σ (operation σ nested tighter left s) := by
  have hadvance : advance σ { s with depth := s.depth + 1 } =
      .ok () { s with cursor := c, depth := s.depth + 1 } := advance_run hc
  unfold operation
  rw [offset_bind, token_bind, htoken]
  dsimp only
  rw [bind_run (descend_run hdepth), bind_run hadvance]
  exact .bind hright

theorem operations_run {tiers least : Nat}
    (hbinds : bindsFrom least s.cursor.token = true)
    (h : operation σ nested (operations σ nested tiers) left s = .ok e t)
    (ht : t.cursor.token.precedence? = none) :
    operations σ nested (tiers + 1) least left s = .ok e { t with depth := s.depth } := by
  have hstop : bindsFrom least t.cursor.token = false := by
    simp [bindsFrom, ht]
  refine nesting_run ?_
  rw [repeatWhile_eq, repeatAtMost_round hbinds, bind_run h]
  exact repeatAtMost_stop hstop

theorem operations_tooDeep {tiers least : Nat}
    (hbinds : bindsFrom least s.cursor.token = true)
    (h : TooDeep σ (operation σ nested (operations σ nested tiers) left s)) :
    TooDeep σ (operations σ nested (tiers + 1) least left s) := by
  refine .nesting ?_
  rw [repeatWhile_eq, repeatAtMost_round hbinds]
  exact .bind h

theorem bindsFrom_loosest (op : BinaryOperator) : bindsFrom loosest (.operator op) = true :=
  bindsFrom_iff.mpr ⟨op.precedence, rfl, op.loosest_le⟩

/-- The last operator of a source, behind the left operand and before the right one, which is a
source in parentheses. -/
theorem Alone.operations (h : Alone σ source warnings e c t) (left : Expr)
    (htoken : s.cursor.token = .operator op)
    (hrest : s.cursor.rest = [' '] ++ '(' :: (source.toList ++ [')'])) (hscope : s.scope = [])
    (hdepth : s.depth = nestedCost) :
    (∃ u, operations σ (singleWithin σ 63) precedenceCount loosest left s =
        .ok (.binary s.cursor.offset op left (e.shift (s.cursor.position + 2) s.nextId)) u ∧
      u.cursor.token = .eof) ∨
      TooDeep σ (Parse.operations σ (singleWithin σ 63) precedenceCount loosest left s) := by
  have hbinds : bindsFrom loosest s.cursor.token = true := by
    rw [htoken]
    exact bindsFrom_loosest op
  have hlevels : s.depth + 1 ≤ maxDepth := by
    rw [hdepth]
    decide
  obtain ⟨a, ha, hparen, hinside, hposition, -⟩ :=
    advance_leftParen [' '] (.inr rfl) h.head_ne hrest
  have hopens : Opens ⟨s.cursor.position + 2, s.nextId, []⟩ source
      { s with cursor := a, depth := s.depth + 1 } :=
    ⟨hparen, hinside, hposition, hscope, rfl⟩
  rcases h.signedPath 63 (s.depth + 1) with h | h
  · obtain ⟨b, hb, hrun⟩ := h _ _ hopens rfl
    obtain ⟨z, hz, heof⟩ := Cursor.advance_nil hb.rest
    have hnone : z.token.precedence? = none := by
      rw [heof]
      rfl
    have hsecond := hrun z hz (by rw [heof]; exact ⟨by simp, rfl⟩)
    have hoperation : operation σ (singleWithin σ 63) (Parse.operations σ (singleWithin σ 63) 11)
        left s = _ := operation_run htoken hlevels ha hsecond hnone
    exact .inl ⟨_, operations_run hbinds hoperation hnone, heof⟩
  · exact .inr (operations_tooDeep hbinds (operation_tooDeep htoken hlevels ha (h _ _ hopens rfl)))

/-- What is written between two sources in parentheses and behind them. -/
def operandsTail (spelling right : String) : List Char :=
  ' ' :: (spelling.toList ++ ' ' :: '(' :: (right.toList ++ [')']))

/-- Two sources in parentheses with an operator between them. -/
theorem single_operands {left right : String} {t u : Expr} {c d : Cursor} {v w : ParseState}
    {spelling : String} (hleft : Alone σ left warnings t c v)
    (hright : Alone σ right warnings u d w) (hspelled : spelling ∈ op.spellings)
    (hs : Opens ⟨1, 0, operandsTail spelling right⟩ left s) (hdepth : s.depth = 0) :
    (∃ s', single σ s = .ok (.binary (left.utf8ByteSize + 3) op (t.shift 1 0)
        (u.shift (left.utf8ByteSize + spelling.utf8ByteSize + 5) v.nextId)) s' ∧
      s'.cursor.token = .eof) ∨ TooDeep σ (single σ s) := by
  have hlevels : s.depth + nestedCost ≤ maxDepth := by
    rw [hdepth]
    decide
  have hs' := hs.withDepth (s.depth + nestedCost)
  rcases hleft.signedPath 63 nestedCost with hleft | hleft
  · obtain ⟨a, ha, hrun⟩ := hleft _ _ hs' (by rw [hdepth]; rfl)
    obtain ⟨b, hb, hoperator, hrest, hoffset, hposition⟩ :=
      advance_operator hspelled ha.token ha.rest
    have hfirst := hrun b hb ⟨by rw [hoperator]; simp, by rw [hoperator]; rfl⟩
    have hnextId : a.nextId = v.nextId := ha.nextId.trans (Nat.zero_add _)
    have hoperations : operatorExpression σ (singleWithin σ 63)
        { s with depth := s.depth + nestedCost } =
          operations σ (singleWithin σ 63) precedenceCount loosest (t.shift 1 0)
            { a with cursor := b, depth := nestedCost } := by
      unfold operatorExpression
      exact bind_run hfirst
    rcases hright.operations (s := { a with cursor := b, depth := nestedCost }) (t.shift 1 0)
      hoperator hrest ha.scope rfl with ⟨z, hz, heof⟩ | hright
    · have hsingle := single_run hs.token hlevels (hoperations.trans hz)
      have hoffset' : b.offset = left.utf8ByteSize + 3 := by
        rw [hoffset, ha.position]
        dsimp only
        omega
      have hposition' : b.position + 2 = left.utf8ByteSize + spelling.utf8ByteSize + 5 := by
        rw [hposition, ha.position]
        dsimp only
        omega
      rw [hoffset', hposition', hnextId] at hsingle
      exact .inl ⟨_, hsingle, heof⟩
    · refine .inr (single_tooDeep hs.token hlevels ?_)
      rw [hoperations]
      exact hright
  · exact .inr (single_tooDeep hs.token hlevels (.bind (hleft _ _ hs' (by rw [hdepth]; rfl))))

end Operands

/-! ### Items -/

/-- What is written behind the first of several sources in parentheses. -/
def itemsTail : List String → List Char
  | [] => []
  | source :: sources => ',' :: ' ' :: '(' :: (source.toList ++ ')' :: itemsTail sources)

theorem length_le_itemsTail (sources : List String) :
    sources.length ≤ (itemsTail sources).length := by
  induction sources with
  | nil => exact Nat.le_refl _
  | cons source sources ih =>
      simp only [itemsTail, List.length_cons, List.length_append]
      omega

/-- Behind an item there is a comma, or the end. -/
theorem advance_itemsTail {d : Cursor} {sources : List String}
    (hd : d.rest = itemsTail sources) :
    ∃ c, d.advance = (.ok (), c) ∧ c.token.Closes ∧ sources.length ≤ c.rest.length + 1 := by
  have hlength := length_le_itemsTail sources
  cases sources with
  | nil =>
      obtain ⟨c, hc, heof⟩ := Cursor.advance_nil hd
      exact ⟨c, hc, heof ▸ Token.closes_eof, Nat.zero_le _⟩
  | cons source sources =>
      obtain ⟨c, hc, hcomma, hrest, -⟩ := Cursor.advance_comma hd
      rw [itemsTail, List.length_cons (a := ','), ← hrest] at hlength
      exact ⟨c, hc, hcomma ▸ Token.closes_comma, hlength⟩

/-- The source in parentheses can be read as an item, with no level in use before it. -/
structure Item (σ : Setting) (source : String) (e : Expr) (ids : Nat) : Prop where
  head_ne : source.toList.head? ≠ some ':'
  reads : ∀ k s, Opens k source s → s.depth = 0 → ∃ u, Closes k source ids u ∧
    ∀ c, u.cursor.advance = (.ok (), c) → c.token.Closes →
      single σ s = .ok (k.expr e) { u with cursor := c, depth := 0 }

/-- The expressions of sources in parentheses, the first of which starts at an offset. Each of
them declares its variables after those of the sources before it. -/
def placed (ids : String → Nat) : Nat → Nat → List (String × Expr) → List Expr
  | _, _, [] => []
  | start, next, (source, e) :: items =>
      e.shift start next :: placed ids (start + source.utf8ByteSize + 4) (next + ids source) items

/-- More than one item. -/
theorem sequence_run {nested : Parse Expr} {others : List Expr} {u : ParseState}
    (h : nested s = .ok e t) (hothers : repeatWhile (· = .comma) (fun others => do
        advance σ
        return (← nested) :: others) [] t = .ok others u)
    (hne : others ≠ []) :
    expression σ nested s = .ok (.sequence s.cursor.offset (e :: others.reverse)) u := by
  have hitems : commaSeparated σ nested s = .ok (e :: others.reverse) u := by
    unfold commaSeparated
    rw [bind_run h, bind_run hothers]
    rfl
  unfold expression
  rw [offset_bind, bind_run hitems]
  cases hreverse : others.reverse with
  | nil => exact absurd (List.reverse_eq_nil_iff.mp hreverse) hne
  | cons e' es => rfl

/-- The items behind one that has been read, whatever their number. -/
theorem items_run {ids : String → Nat} {items : List (String × Expr)}
    (hitems : ∀ p ∈ items, Item σ p.1 p.2 (ids p.1)) {n : Nat} (hn : items.length ≤ n)
    (read : List Expr) (hrest : s.cursor.rest = itemsTail (items.map Prod.fst))
    (hscope : s.scope = []) (hdepth : s.depth = 0)
    (hc : s.cursor.advance = (.ok (), c)) :
    ∃ t, repeatAtMost (· = .comma) (fun others => do
        advance σ
        return (← single σ) :: others) n read { s with cursor := c } =
          .ok ((placed ids (s.cursor.position + 3) s.nextId items).reverse ++ read) t ∧
      t.cursor.token = .eof := by
  induction items generalizing n read s c with
  | nil =>
      obtain ⟨c', hc', heof⟩ := Cursor.advance_nil hrest
      obtain ⟨-, rfl⟩ := Prod.mk.inj (hc.symm.trans hc')
      exact ⟨_, repeatAtMost_stop (decide_eq_false (by rw [heof]; simp)), heof⟩
  | cons p items ih =>
      obtain ⟨n, rfl⟩ := Nat.exists_eq_add_of_le' hn
      obtain ⟨c', hc', hcomma, hrest, hposition⟩ := Cursor.advance_comma hrest
      obtain ⟨-, rfl⟩ := Prod.mk.inj (hc.symm.trans hc')
      have hitem := hitems p List.mem_cons_self
      obtain ⟨d, hd, hparen, hinside, hposition', -⟩ :=
        advance_leftParen [' '] (.inr rfl) hitem.head_ne hrest
      obtain ⟨u, hu, hrun⟩ := hitem.reads ⟨s.cursor.position + 3, s.nextId, _⟩
        { s with cursor := d } ⟨hparen, hinside, by rw [hposition', hposition]; rfl, hscope, rfl⟩
        hdepth
      obtain ⟨c', hc', hcloses, -⟩ := advance_itemsTail hu.rest
      obtain ⟨t, ht, heof⟩ := ih (fun q hq => hitems q (List.mem_cons_of_mem _ hq))
        (Nat.le_add_left items.length n) (p.2.shift (s.cursor.position + 3) s.nextId :: read)
        (s := { u with depth := 0 }) hu.rest hu.scope rfl hc'
      have hround : (do
          advance σ
          return (← single σ) :: read : Parse (List Expr)) { s with cursor := c } =
            .ok (p.2.shift (s.cursor.position + 3) s.nextId :: read)
              { u with cursor := c', depth := 0 } := by
        rw [bind_run (advance_run hd), bind_run (hrun c' hc' hcloses)]
        rfl
      refine ⟨t, ?_, heof⟩
      rw [List.length_cons, ← Nat.add_assoc, repeatAtMost_round (decide_eq_true hcomma),
        bind_run hround]
      refine ht.trans ?_
      rw [hu.position, hu.nextId, placed, List.reverse_cons, List.append_assoc]
      rfl

end Parse

/-! ### The whole source -/

/-- The source in parentheses. -/
def enclosed (source : String) : String :=
  "(" ++ source ++ ")"

theorem toList_enclosed (source : String) :
    (enclosed source).toList = '(' :: (source.toList ++ [')']) := by
  simp [enclosed]

theorem toList_intercalate_enclosed (source : String) (sources : List String) :
    (", ".intercalate ((source :: sources).map enclosed)).toList =
      '(' :: (source.toList ++ ')' :: itemsTail sources) := by
  induction sources generalizing source with
  | nil => simp [toList_enclosed, itemsTail]
  | cons next sources ih =>
      have hnext := ih next
      rw [String.toList_intercalate] at hnext ⊢
      simp only [List.map_cons] at hnext ⊢
      rw [List.intercalate_cons_cons, hnext, toList_enclosed]
      simp [itemsTail]

section Reading

variable {source : String} {host : Resolver} {warnings : List String}

/-- A source that starts with another one in parentheses. -/
theorem advance_enclosed (host : Resolver) (warnings : List String) {whole : String}
    {tail : List Char}
    (hcolon : source.toList.head? ≠ some ':')
    (hwhole : whole.toList = '(' :: (source.toList ++ ')' :: tail)) :
    ∃ c, advance ⟨.expression, host⟩ (Parser.ofSource whole 0 .expression host warnings).state =
        .ok () { cursor := c, warnings } ∧
      Opens ⟨1, 0, tail⟩ source { cursor := c, warnings } ∧ c.offset = 0 := by
  have hrest : (Cursor.ofSource whole 0).rest = [] ++ '(' :: (source.toList ++ ')' :: tail) := by
    rw [ofSource_zero]
    exact hwhole
  obtain ⟨c, hc, hparen, hinside, hposition, hoffset⟩ :=
    advance_leftParen [] (.inl rfl) hcolon hrest
  rw [ofSource_zero] at hposition hoffset
  exact ⟨c, advance_run hc, ⟨hparen, hinside, hposition, rfl, rfl⟩, hoffset⟩

/-- A source that can be read by itself and in parentheses can be read as an item. -/
theorem exists_item {e : Expr} (h : (readExpression source host warnings).outcome = .ok e)
    (henclosed : (readExpression (enclosed source) host warnings).outcome.isOk) :
    Item ⟨.expression, host⟩ source e (declarations source host warnings) := by
  obtain ⟨c, t, halone, hids⟩ := exists_alone h
  refine ⟨halone.head_ne, ?_⟩
  rw [← hids]
  refine (halone.single).resolve_right fun hdeep => ?_
  obtain ⟨d, hd, hopens, -⟩ := advance_enclosed host warnings
    halone.head_ne (toList_enclosed source)
  obtain ⟨location, u, hu⟩ := hdeep _ _ hopens rfl
  rw [readExpression_fails (complete_fails hd hu)] at henclosed
  cases henclosed

theorem boundIds_lt_declarations {e : Expr}
    (h : (readExpression source host warnings).outcome = .ok e) :
    ∀ id ∈ e.boundIds, id < declarations source host warnings := by
  obtain ⟨c, t, halone, hids⟩ := exists_alone h
  intro id hid
  rw [← hids]
  exact (halone.reads.freshIds.2 id hid).2

/-- Two sources in parentheses with an operator between them. -/
theorem readExpression_operands {left right : String} {t u : Expr} {op : BinaryOperator}
    {spelling : String} (hspelled : spelling ∈ op.spellings)
    (hleft : (readExpression left host warnings).outcome = .ok t)
    (hright : (readExpression right host warnings).outcome = .ok u) :
    (readExpression (enclosed left ++ " " ++ spelling ++ " " ++ enclosed right)
        host warnings).outcome =
      .ok (.binary (left.utf8ByteSize + 3) op (t.shift 1 0)
        (u.shift (left.utf8ByteSize + spelling.utf8ByteSize + 5)
          (declarations left host warnings))) ∨
    ∃ location, (readExpression (enclosed left ++ " " ++ spelling ++ " " ++ enclosed right)
        host warnings).outcome =
      .error { Fault.tooDeep.error .expression with location := some location } := by
  obtain ⟨c, v, halone, hids⟩ := exists_alone hleft
  obtain ⟨d, w, halone', -⟩ := exists_alone hright
  have hwhole : (enclosed left ++ " " ++ spelling ++ " " ++ enclosed right).toList =
      '(' :: (left.toList ++ ')' :: operandsTail spelling right) := by
    simp [toList_enclosed, operandsTail]
  obtain ⟨a, ha, hopens, -⟩ := advance_enclosed host warnings
    halone.head_ne hwhole
  rcases single_operands halone halone' hspelled hopens rfl with ⟨z, hz, heof⟩ | ⟨location, z, hz⟩
  · rw [readExpression_run (complete_run ha hz heof), hids]
    exact .inl rfl
  · rw [readExpression_fails (complete_fails ha hz)]
    exact .inr ⟨location, rfl⟩

/-- Several sources in parentheses with commas between them. -/
theorem readExpression_items {items : List (String × Expr)} (htwo : 2 ≤ items.length)
    (h : ∀ p ∈ items, (readExpression p.1 host warnings).outcome = .ok p.2 ∧
      (readExpression (enclosed p.1) host warnings).outcome.isOk) :
    (readExpression (", ".intercalate (items.map fun p => enclosed p.1)) host warnings).outcome =
      .ok (.sequence 0 (placed (declarations · host warnings) 1 0 items)) := by
  let ids : String → Nat := (declarations · host warnings)
  have hitems : ∀ p ∈ items, Item ⟨.expression, host⟩ p.1 p.2 (ids p.1) :=
    fun p hp => exists_item (h p hp).1 (h p hp).2
  cases items with
  | nil => cases htwo
  | cons p items =>
      have hwhole : (", ".intercalate ((p :: items).map fun p => enclosed p.1)).toList =
          '(' :: (p.1.toList ++ ')' :: itemsTail (items.map Prod.fst)) := by
        rw [← toList_intercalate_enclosed, List.map_cons, List.map_cons, List.map_map]
        rfl
      have hitem := hitems p List.mem_cons_self
      obtain ⟨d, hd, hopens, hoffset⟩ := advance_enclosed host warnings
        hitem.head_ne hwhole
      obtain ⟨u, hu, hrun⟩ := hitem.reads _ _ hopens rfl
      obtain ⟨c, hc, hcloses, hlength⟩ := advance_itemsTail hu.rest
      rw [List.length_map] at hlength
      have hmore : ∀ q ∈ items, Item ⟨.expression, host⟩ q.1 q.2 (ids q.1) :=
        fun q hq => hitems q (List.mem_cons_of_mem _ hq)
      obtain ⟨t, ht, heof⟩ := items_run (s := { u with depth := 0 }) hmore hlength [] hu.rest
        hu.scope rfl hc
      have hothers : (placed ids (u.cursor.position + 3) u.nextId items).reverse ++ [] ≠ [] := by
        cases items with
        | nil => exact absurd htwo (by simp)
        | cons q items => simp [placed]
      have hsequence := sequence_run (hrun c hc hcloses) ht hothers
      rw [readExpression_run (complete_of_expression hd hsequence heof), hoffset]
      simp only [hu.position, hu.nextId, List.reverse_append, List.reverse_reverse, placed]
      rfl

end Reading

/-- Sources in parentheses are put together by a binary operator, and by commas, without being
read otherwise than by themselves. Operands are in more levels than the sources alone, of which
there may be too many; items that can be read in parentheses at all are not. -/
theorem readExpression_parentheses (host : Resolver) (warnings : List String) :
    (∀ (left right : String) (t u : Expr) (op : BinaryOperator) (spelling : String),
      spelling ∈ op.spellings →
      (readExpression left host warnings).outcome = .ok t →
      (readExpression right host warnings).outcome = .ok u →
      (∀ id ∈ t.boundIds, id < declarations left host warnings) ∧
        ((readExpression (enclosed left ++ " " ++ spelling ++ " " ++ enclosed right)
            host warnings).outcome =
          .ok (.binary (left.utf8ByteSize + 3) op (t.shift 1 0)
            (u.shift (left.utf8ByteSize + spelling.utf8ByteSize + 5)
              (declarations left host warnings))) ∨
        ∃ location, (readExpression (enclosed left ++ " " ++ spelling ++ " " ++ enclosed right)
            host warnings).outcome =
          .error { Fault.tooDeep.error .expression with location := some location })) ∧
    ∀ items : List (String × Expr), 2 ≤ items.length →
      (∀ p ∈ items, (readExpression p.1 host warnings).outcome = .ok p.2 ∧
        (readExpression (enclosed p.1) host warnings).outcome.isOk) →
      (readExpression (", ".intercalate (items.map fun p => enclosed p.1)) host warnings).outcome =
        .ok (.sequence 0 (placed (declarations · host warnings) 1 0 items)) := by
  constructor
  · intro left right t u op spelling hspelled hleft hright
    exact ⟨boundIds_lt_declarations hleft, readExpression_operands hspelled hleft hright⟩
  · intro items htwo h
    exact readExpression_items htwo h

/-- Two loops, compared with each other and in a row. -/
theorem readExpression_parentheses_of_loops :
    ∃ t u, (readExpression "for $x in 1 return $x" ({} : StaticContext).resolver []).outcome =
        .ok t ∧
      (readExpression "some $y in . satisfies $y" ({} : StaticContext).resolver []).outcome =
        .ok u ∧
      (readExpression "(for $x in 1 return $x) = (some $y in . satisfies $y)"
          ({} : StaticContext).resolver []).outcome =
        .ok (.binary 24 (.general .eq) (t.shift 1 0) (u.shift 27 1)) ∧
      (readExpression "(for $x in 1 return $x), (some $y in . satisfies $y)"
          ({} : StaticContext).resolver []).outcome =
        .ok (.sequence 0 [t.shift 1 0, u.shift 26 1]) := by
  obtain ⟨hoperands, hitems⟩ := readExpression_parentheses ({} : StaticContext).resolver []
  obtain ⟨t, ht⟩ := exists_of_isOk (r := (readExpression "for $x in 1 return $x"
    ({} : StaticContext).resolver []).outcome) (by decide +kernel)
  obtain ⟨u, hu⟩ := exists_of_isOk (r := (readExpression "some $y in . satisfies $y"
    ({} : StaticContext).resolver []).outcome) (by decide +kernel)
  have hids : declarations "for $x in 1 return $x" ({} : StaticContext).resolver [] = 1 := by
    decide +kernel
  refine ⟨t, u, ht, hu, ?_, ?_⟩
  · obtain ⟨-, hok | ⟨location, hdeep⟩⟩ :=
      hoperands _ _ t u (.general .eq) "=" (List.mem_singleton.mpr rfl) ht hu
    · rw [hids] at hok
      exact hok
    · have hfits : (readExpression "(for $x in 1 return $x) = (some $y in . satisfies $y)"
          ({} : StaticContext).resolver []).outcome.isOk = true := by decide +kernel
      rw [show "(for $x in 1 return $x) = (some $y in . satisfies $y)" =
        enclosed "for $x in 1 return $x" ++ " " ++ "=" ++ " " ++
          enclosed "some $y in . satisfies $y" by decide +kernel, hdeep] at hfits
      cases hfits
  · have hok := hitems [("for $x in 1 return $x", t), ("some $y in . satisfies $y", u)]
      (Nat.le_refl 2) ?_
    · rw [placed, placed, placed, hids] at hok
      exact hok
    · simp only [List.forall_mem_cons, List.not_mem_nil, false_implies, implies_true, and_true]
      exact ⟨⟨ht, by decide +kernel⟩, ⟨hu, by decide +kernel⟩⟩

end XPath
