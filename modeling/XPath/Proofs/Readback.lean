import XPath.Proofs.Outline
import XPath.Proofs.Spacing
import XPath.Proofs.Types

/-!
# Reading rendered text back

An expression as text stands behind a token at which an operand may start and before a text that
may follow an operand. `Expr.Rereads` says that it is read there as the expression again, but for
offsets, ids and the types of range variables. It speaks of a step with the predicates that are
still to come, because the base of a filter is read by the same loop as the filter; what the
productions around a step read follows from it, up to rows of expressions with commas.
-/

namespace XPath

open Lexeme Parse

/-! ### Numbers for ids -/

/-- The ids have consecutive numbers from `next` on. -/
def Numbered (ids : Nat → Nat) (next : Nat) (l : List Nat) : Prop :=
  l.map ids = List.range' next l.length

section Numbered

variable {ids : Nat → Nat} {next i : Nat} {l l' : List Nat}

theorem numbered_append :
    Numbered ids next (l ++ l') ↔ Numbered ids next l ∧ Numbered ids (next + l.length) l' := by
  unfold Numbered
  rw [List.map_append, List.length_append, ← List.range'_append_1]
  refine ⟨fun h => List.append_inj h (by simp), ?_⟩
  rintro ⟨hl, hl'⟩
  rw [hl, hl']

theorem numbered_cons :
    Numbered ids next (i :: l) ↔ ids i = next ∧ Numbered ids (next + 1) l := by
  unfold Numbered
  rw [List.map_cons, List.length_cons, List.range'_succ, List.cons.injEq]

end Numbered

/-! ### Before and behind an operand -/

/-- Neither a parenthesis nor a slash makes another token with the head of the text. -/
def Lexeme.EndsSymbol (cs : List Char) : Prop :=
  cs.head? ≠ some ':' ∧ cs.head? ≠ some '/'

theorem IsWord.endsSymbol {word : List Char} (h : IsWord word) (cs : List Char) :
    EndsSymbol (word ++ cs) :=
  ⟨h.head?_ne rfl cs, h.head?_ne rfl cs⟩

theorem Cursor.rest_length_le {c d : Cursor} (h : c.advance = (.ok (), d)) :
    d.rest.length ≤ c.rest.length := by
  by_cases heof : d.token = .eof
  · obtain ⟨gap, rest, l, hgap, hread, rfl⟩ := advance_ok h
    obtain rfl := (Lexeme.token_eq_eof_iff hread).mp heof
    cases hread
    exact Nat.zero_le _
  · exact Nat.le_of_lt (rest_length_lt h heof)

theorem Follows.length_le {tail rest : List Char} {t : Token} (h : Follows tail t rest) :
    rest.length ≤ tail.length := by
  let c : Cursor := ⟨[], tail, 0, .rightParen, "", 0⟩
  obtain ⟨d, hd, -, rfl⟩ := h.next c rfl rfl
  exact Cursor.rest_length_le hd

namespace Parse

/-- The token ends an expression without commas. -/
def EndsSingle (t : Token) : Prop :=
  EndsPath t ∧ t.precedence? = none

instance : DecidablePred EndsSingle :=
  fun t => inferInstanceAs (Decidable (EndsPath t ∧ _))

/-- The token ends an expression. -/
def EndsExpression (t : Token) : Prop :=
  EndsSingle t ∧ t ≠ .comma

instance : DecidablePred EndsExpression :=
  fun t => inferInstanceAs (Decidable (EndsSingle t ∧ _))

end Parse

/-! ### Reading an expression again -/

/-- The reader of expressions with a host. -/
abbrev Resolver.reader (host : Resolver) : Setting :=
  ⟨.expression, host⟩

/-- The expression stands where these variables are in scope, and the variables that it binds are
numbered from `next` on in the order in which they are read. -/
structure Expr.Fits (host : Resolver) (ids : Nat → Nat) (scope : List RangeVariable) (next : Nat)
    (e : Expr) : Prop where
  resolves : e.Scoped host scope
  numbered : Numbered ids next e.readIds

/-- All expressions of a row stand there, numbered one after another. -/
structure Expr.FitAll (host : Resolver) (ids : Nat → Nat) (scope : List RangeVariable) (next : Nat)
    (es : List Expr) : Prop where
  resolves : ∀ e ∈ es, e.Scoped host scope
  numbered : Numbered ids next (readIdsOf es)

namespace Parse

/-- The expression has been read again, up to a token before a text. -/
structure Back (ids : Nat → Nat) (scope : List RangeVariable) (next : Nat) (e : Expr) (t : Token)
    (rest : List Char) (e' : Expr) (s : ParseState) : Prop where
  outline : e'.outline id = e.outline ids
  place : At t rest (scope.map (RangeVariable.outline ids)) (next + e.readIds.length) s

/-- All expressions of a row have been read again. -/
structure BackAll (ids : Nat → Nat) (scope : List RangeVariable) (next : Nat) (es : List Expr)
    (t : Token) (rest : List Char) (es' : List Expr) (s : ParseState) : Prop where
  outline : es'.map (Expr.outline id) = es.map (Expr.outline ids)
  place : At t rest (scope.map (RangeVariable.outline ids))
    (next + (Expr.readIdsOf es).length) s

/-- The reader is at a cursor, with these variables in scope. -/
structure StandsAt (c : Cursor) (scope : List RangeVariable) (next : Nat) (s : ParseState) :
    Prop where
  cursor : s.cursor = c
  scope : s.scope = scope
  nextId : s.nextId = next

section Places

variable {c d : Cursor} {t : Token} {rest : List Char} {scope : List RangeVariable} {next : Nat}
  {s : ParseState}

theorem At.depth (h : At t rest scope next s) (depth : Nat) :
    At t rest scope next { s with depth } :=
  ⟨h.token, h.rest, h.scope, h.nextId⟩

theorem StandsAt.depth (h : StandsAt c scope next s) (depth : Nat) :
    StandsAt c scope next { s with depth } :=
  ⟨h.cursor, h.scope, h.nextId⟩

theorem StandsAt.move (h : StandsAt c scope next s) (d : Cursor) :
    StandsAt d scope next { s with cursor := d } :=
  ⟨rfl, h.scope, h.nextId⟩

theorem At.move (h : At t rest scope next s) (d : Cursor) :
    StandsAt d scope next { s with cursor := d } :=
  ⟨rfl, h.scope, h.nextId⟩

end Places

end Parse

/-- From a cursor on, a part reads the expression again, at every level of nesting. -/
def Expr.ReadFrom (host : Resolver) (p : Nat → Parse Expr) (c : Cursor) (ids : Nat → Nat)
    (scope : List RangeVariable) (next : Nat) (e : Expr) (t : Token) (rest : List Char) : Prop :=
  ∀ n s, StandsAt c (scope.map (RangeVariable.outline ids)) next s →
    Meets host.reader (p n) s (Back ids scope next e t rest)

/-- The text of the expression is read as the expression again by a part that stops before these
tokens. -/
def Expr.ReadBy (host : Resolver) (p : Nat → Parse Expr) (Stops : Token → Prop) (e : Expr) :
    Prop :=
  ∀ {ids scope next}, e.Fits host ids scope next →
    ∀ {c : Cursor} {gap tail rest : List Char} {t : Token}, StartsOperand c.token →
      gap = [] ∨ gap = [' '] → c.rest = gap ++ (e.render.toList ++ tail) →
      Follows tail t rest → Stops t →
      ∃ d, c.advance = (.ok (), d) ∧ startsStep d.token = true ∧
        e.ReadFrom host p d ids scope next t rest

namespace Parse

variable (σ : Setting) (nested : Parse Expr)

/-- A step before its levels are given back. -/
def filteredStep : Parse Expr := do
  let base ← primary σ nested false
  let filtered ← repeatWhile (· = .leftBracket) (predicate σ nested) base
  return if isReverseStep base then .reverse filtered.offset filtered else filtered

/-- The predicates of a step. -/
abbrev Predicates (host : Resolver) (n : Nat) (base : Expr) (s : ParseState)
    (Q : Expr → ParseState → Prop) : Prop :=
  Rounds host.reader (· = .tooDeep) (· = .leftBracket)
    (predicate host.reader (singleWithin host.reader n)) base s Q

end Parse

/-- The text of the expression is read as a step, with whatever comes of the predicates behind
it. -/
structure Expr.Rereads (host : Resolver) (e : Expr) : Prop where
  head : ∀ more, EndsSymbol (e.render.toList ++ more)
  reads : ∀ {ids scope next}, e.Fits host ids scope next →
    ∀ {c : Cursor} {gap tail rest : List Char} {t : Token}, StartsOperand c.token →
      gap = [] ∨ gap = [' '] → c.rest = gap ++ (e.render.toList ++ tail) →
      Follows tail t rest →
      ∃ d, c.advance = (.ok (), d) ∧ startsStep d.token = true ∧
        ∀ n s, StandsAt d (scope.map (RangeVariable.outline ids)) next s → ∀ Q,
          (∀ e' u, Back ids scope next e t rest e' u → Predicates host n e' u Q) →
          Meets host.reader (filteredStep host.reader (singleWithin host.reader n)) s Q

namespace Expr

variable {host : Resolver} {e : Expr} {ids : Nat → Nat} {scope : List RangeVariable} {next : Nat}
  {c : Cursor} {t : Token} {tail rest : List Char}

theorem isReverseStep_of_outline {e e' : Expr} (h : e'.outline id = e.outline ids) :
    isReverseStep e' = isReverseStep e :=
  (isReverseStep_outline e').symm.trans ((congrArg isReverseStep h).trans (isReverseStep_outline e))

theorem stringLiteral?_of_outline {e e' : Expr} (h : e'.outline id = e.outline ids) :
    e'.stringLiteral? = e.stringLiteral? :=
  (stringLiteral?_outline e').symm.trans
    ((congrArg stringLiteral? h).trans (stringLiteral?_outline e))

/-- Primary expressions have no predicates of their own. -/
theorem Rereads.of_primary
    (hprimary : e.ReadBy host (fun n => primary host.reader (singleWithin host.reader n) false)
      fun _ => True)
    (hhead : ∀ more, EndsSymbol (e.render.toList ++ more))
    (hforward : isReverseStep e = false) : e.Rereads host := by
  refine ⟨hhead, fun hfits c gap tail rest t hc hgap hrest htail => ?_⟩
  obtain ⟨d, hd, hstarts, hread⟩ := hprimary hfits hc hgap hrest htail trivial
  refine ⟨d, hd, hstarts, fun n s hs Q hQ => ?_⟩
  refine .bind (hread n s hs) fun e' u hback => ?_
  rw [isReverseStep_of_outline hback.outline, hforward]
  exact .bind (.repeatWhile (hQ e' u hback)) fun _ _ h => .pure h

/-! ### Around a step -/

theorem Rereads.step (h : e.Rereads host) :
    e.ReadBy host (fun n => step host.reader (singleWithin host.reader n) false)
      (· ≠ .leftBracket) := by
  intro ids scope next hfits c gap tail rest t hc hgap hrest htail ht
  obtain ⟨d, hd, hstarts, hread⟩ := h.reads hfits hc hgap hrest htail
  refine ⟨d, hd, hstarts, fun n s hs => .nesting ?_⟩
  refine hread n s hs _ fun e' u hback => .stop ?_ ⟨hback.outline, hback.place.depth _⟩
  rw [hback.place.token]
  exact decide_eq_false ht

/-- A path does not start with a slash here. -/
theorem pathExpression_eq {nested : Parse Expr} {s : ParseState}
    (hstarts : startsStep s.cursor.token = true) :
    pathExpression host.reader nested s = relativePath host.reader nested s := by
  unfold pathExpression
  rw [token_bind]
  revert hstarts
  cases s.cursor.token <;> simp [startsStep]

theorem Rereads.path (h : e.Rereads host) :
    e.ReadBy host (fun n => pathExpression host.reader (singleWithin host.reader n)) EndsPath := by
  intro ids scope next hfits c gap tail rest t hc hgap hrest htail ht
  obtain ⟨d, hd, hstarts, hread⟩ := h.step hfits hc hgap hrest htail ht.1
  refine ⟨d, hd, hstarts, fun n s hs => ?_⟩
  refine .congr ?_ (pathExpression_eq (by rw [hs.cursor]; exact hstarts))
  refine .nesting ?_
  refine .bind (hread n s hs) fun e' u hback => ?_
  refine .repeatWhile_stop ?_ ⟨hback.outline, hback.place.depth _⟩
  rw [hback.place.token]
  exact ht.2

/-- A path without a sign. -/
theorem Ends.signedPath {F : Fault → Prop} {nested : Parse Expr} {s : ParseState}
    {Q : Expr → ParseState → Prop} (hsign : sign? s.cursor.token = none)
    (h : Ends host.reader F (pathExpression host.reader nested) s fun e u =>
      Q e { u with depth := s.depth }) :
    Ends host.reader F (signedPath host.reader nested) s Q := by
  refine .nesting (.run (Parse.repeatWhile_stop (by rw [hsign]; rfl)) ?_)
  exact .bind h fun e u he => .pure he

/-- A step starts with no sign. -/
theorem sign?_of_startsStep {k : Token} (h : startsStep k = true) : sign? k = none := by
  revert h
  cases k <;> simp [startsStep, sign?]

theorem Rereads.signedPath (h : e.Rereads host) :
    e.ReadBy host (fun n => signedPath host.reader (singleWithin host.reader n)) EndsPath := by
  intro ids scope next hfits c gap tail rest t hc hgap hrest htail ht
  obtain ⟨d, hd, hstarts, hread⟩ := h.path hfits hc hgap hrest htail ht
  refine ⟨d, hd, hstarts, fun n s hs =>
    Ends.signedPath (sign?_of_startsStep (by rw [hs.cursor]; exact hstarts)) ?_⟩
  exact (hread n s hs).mono fun e' u hback => ⟨hback.outline, hback.place.depth _⟩

/-- What a single expression consists of is told by its first token. -/
theorem Meets.single {d : Cursor} {scope : List RangeVariable} {Q : Expr → ParseState → Prop}
    (hQ : ∀ e u depth, Q e u → Q e { u with depth }) {p : Parse Expr → Parse Expr}
    (hp : ∀ nested, (match d.token with
      | .forWord => bindingExpression host.reader nested .forEach
      | .someWord => bindingExpression host.reader nested .someOf
      | .everyWord => bindingExpression host.reader nested .everyOf
      | .ifWord => Parse.conditional host.reader nested
      | _ => operatorExpression host.reader nested) = p nested)
    (h : ∀ n s, StandsAt d scope next s → Meets host.reader (p (singleWithin host.reader n)) s Q)
    (n : Nat) (s : ParseState) (hs : StandsAt d scope next s) :
    Meets host.reader (singleWithin host.reader n) s Q := by
  cases n with
  | zero => exact .reject rfl
  | succ n =>
      refine .nesting ?_
      refine .descend ?_
      refine .token (congrArg Cursor.token hs.cursor) ?_
      refine .congr ?_ (congrFun (hp (singleWithin host.reader n)) _)
      exact (h n _ (hs.depth _)).mono fun e u he => hQ e u _ he

/-- Operands and the operators between them. -/
theorem ReadFrom.single {d : Cursor}
    (hd : startsStep d.token = true ∨ (sign? d.token).isSome = true)
    (h : e.ReadFrom host (fun n => operatorExpression host.reader (singleWithin host.reader n)) d
      ids scope next t rest) :
    e.ReadFrom host (singleWithin host.reader) d ids scope next t rest := by
  refine Meets.single (fun e u depth hu => ⟨hu.outline, hu.place.depth _⟩) (fun nested => ?_) h
  revert hd
  cases d.token <;> simp [startsStep, sign?]

/-- An operand with no operator behind it. -/
theorem Meets.operatorExpression {nested : Parse Expr} {s : ParseState}
    (ht : t.precedence? = none)
    (h : Meets host.reader (Parse.signedPath host.reader nested) s (Back ids scope next e t rest)) :
    Meets host.reader (operatorExpression host.reader nested) s (Back ids scope next e t rest) := by
  refine .bind h fun e' u hback =>
    .nesting (.repeatWhile_stop ?_ ⟨hback.outline, hback.place.depth _⟩)
  rw [hback.place.token, bindsFrom, ht]
  rfl

theorem Rereads.single (h : e.Rereads host) :
    e.ReadBy host (singleWithin host.reader) EndsSingle := by
  intro ids scope next hfits c gap tail rest t hc hgap hrest htail ht
  obtain ⟨d, hd, hstarts, hread⟩ := h.signedPath hfits hc hgap hrest htail ht.1
  exact ⟨d, hd, hstarts, ReadFrom.single (.inl hstarts) fun n s hs =>
    Meets.operatorExpression ht.2 (hread n s hs)⟩

/-! ### Rows -/

/-- An expression without commas before another token than a comma. -/
theorem Meets.expression {nested : Parse Expr} {s : ParseState} (ht : t ≠ .comma)
    (h : Meets host.reader nested s (Back ids scope next e t rest)) :
    Meets host.reader (expression host.reader nested) s (Back ids scope next e t rest) := by
  refine .offset (.bind (.commaSeparated (h.mono fun e' u hback => ⟨hback, ?_⟩)) ?_)
  · rw [hback.place.token]
    exact ht
  · rintro _ u ⟨e', rfl, hback⟩
    exact .pure hback

theorem Rereads.expression (h : e.Rereads host) :
    e.ReadBy host (fun n => expression host.reader (singleWithin host.reader n))
      EndsExpression := by
  intro ids scope next hfits c gap tail rest t hc hgap hrest htail ht
  obtain ⟨d, hd, hstarts, hread⟩ := h.single hfits hc hgap hrest htail ht.1
  exact ⟨d, hd, hstarts, fun n s hs => Meets.expression ht.2 (hread n s hs)⟩

theorem FitAll.cons {es : List Expr} (h : FitAll host ids scope next (e :: es)) :
    e.Fits host ids scope next ∧ FitAll host ids scope (next + e.readIds.length) es := by
  obtain ⟨he, hes⟩ := numbered_append.mp h.numbered
  exact ⟨⟨h.resolves e List.mem_cons_self, he⟩,
    fun d hd => h.resolves d (List.mem_cons_of_mem _ hd), hes⟩

/-- Further expressions, each behind a comma. -/
theorem readTail {es : List Expr} (hes : ∀ e ∈ es, e.Rereads host) (htail : Follows tail t rest)
    (ht : EndsExpression t) (hfits : FitAll host ids scope next es) :
    ∃ t' rest', Follows ((renderTail es).toList ++ tail) t' rest' ∧ EndsSingle t' ∧
      ∀ n s read, At t' rest' (scope.map (RangeVariable.outline ids)) next s →
        Rounds host.reader (· = .tooDeep) (· = .comma) (fun others => do
          advance host.reader
          return (← singleWithin host.reader n) :: others) read s
          fun others u => ∃ es', others = es'.reverse ++ read ∧
            BackAll ids scope next es t rest es' u := by
  induction es generalizing next with
  | nil =>
      refine ⟨t, rest, by simpa [renderTail] using htail, ht.1, fun n s read hs => .stop ?_ ?_⟩
      · rw [hs.token]
        exact decide_eq_false ht.2
      · exact ⟨[], rfl, rfl, hs⟩
  | cons e es ih =>
      obtain ⟨hfit, hfits⟩ := hfits.cons
      obtain ⟨t', rest', hfollows, hends, hread⟩ :=
        ih (fun d hd => hes d (List.mem_cons_of_mem _ hd)) hfits
      let behind := ' ' :: (e.render.toList ++ ((renderTail es).toList ++ tail))
      have htext : (renderTail (e :: es)).toList ++ tail = ',' :: behind := by
        simp [renderTail, behind]
      refine ⟨.comma, behind, htext ▸ .comma behind, by decide, fun n s read hs => ?_⟩
      have hcomma : StartsOperand s.cursor.token := by
        rw [hs.token]
        decide
      obtain ⟨d, hd, -, hsingle⟩ :=
        (hes e List.mem_cons_self).single hfit hcomma (.inr rfl) hs.rest hfollows hends
      refine .round (by rw [hs.token]; rfl) ?_
      refine .advance hd ?_
      refine .bind (hsingle n _ (hs.move d)) ?_
      intro e' u hback
      refine .pure ⟨?_, fun m hm => (hread n u (e' :: read) hback.place m hm).mono ?_⟩
      · have := hfollows.length_le
        rw [hback.place.rest, hs.rest]
        simp only [behind, List.length_cons, List.length_append] at this ⊢
        omega
      · rintro others v ⟨es', rfl, hrow⟩
        refine ⟨e' :: es', by simp, ?_, ?_⟩
        · rw [List.map_cons, List.map_cons, hback.outline, hrow.outline]
        · have := hrow.place
          rwa [Nat.add_assoc, ← List.length_append] at this

/-- One or more expressions with commas between them. -/
theorem readRow {es : List Expr} {gap : List Char} (hes : ∀ d ∈ e :: es, d.Rereads host)
    (hfits : FitAll host ids scope next (e :: es)) (hc : StartsOperand c.token)
    (hgap : gap = [] ∨ gap = [' '])
    (hrest : c.rest = gap ++ ((renderList (e :: es)).toList ++ tail))
    (htail : Follows tail t rest) (ht : EndsExpression t) :
    ∃ d, c.advance = (.ok (), d) ∧ startsStep d.token = true ∧
      ∀ n s, StandsAt d (scope.map (RangeVariable.outline ids)) next s →
        Meets host.reader (commaSeparated host.reader (singleWithin host.reader n)) s
          (BackAll ids scope next (e :: es) t rest) := by
  obtain ⟨hfit, hfits⟩ := hfits.cons
  obtain ⟨t', rest', hfollows, hends, hread⟩ :=
    readTail (fun d hd => hes d (List.mem_cons_of_mem _ hd)) htail ht hfits
  rw [renderList, String.toList_append, List.append_assoc] at hrest
  obtain ⟨d, hd, hstarts, hsingle⟩ :=
    (hes e List.mem_cons_self).single hfit hc hgap hrest hfollows hends
  refine ⟨d, hd, hstarts, fun n s hs => .bind (hsingle n s hs) fun e' u hback => ?_⟩
  refine .bind (.repeatWhile (hread n u [] hback.place)) ?_
  rintro _ v ⟨es', rfl, hrow⟩
  refine .pure ⟨?_, ?_⟩
  · simp [hback.outline, hrow.outline]
  · have := hrow.place
    rwa [Nat.add_assoc, ← List.length_append] at this

/-! ### Parentheses -/

/-- The text is read in parentheses as the expression. -/
structure ReadInside (host : Resolver) (text : List Char) (e : Expr) : Prop where
  head : ∀ more, (text ++ more).head? ≠ some ':'
  reads : ∀ {ids scope next}, e.Fits host ids scope next →
    ∀ {c : Cursor} {tail : List Char}, c.token = .leftParen → c.rest = text ++ ')' :: tail →
      ∃ d, c.advance = (.ok (), d) ∧ d.token ≠ .rightParen ∧
        e.ReadFrom host (fun n => Parse.expression host.reader (singleWithin host.reader n)) d ids
          scope next .rightParen tail

theorem Rereads.of_inside (text : List Char) (h : e.ReadInside host text)
    (hrender : e.render.toList = '(' :: (text ++ [')'])) (hforward : isReverseStep e = false) :
    e.Rereads host := by
  refine .of_primary ?_ (fun more => ?_) hforward
  · intro ids scope next hfits c gap tail rest t hc hgap hrest htail _
    have htext : c.rest = gap ++ '(' :: (text ++ ')' :: tail) := by
      rw [hrest, hrender]
      simp
    obtain ⟨d, hd, hopen, -, hbehind⟩ := Cursor.finds_leftParen hgap htext (h.head _)
    obtain ⟨d', hd', hne, hread⟩ := h.reads hfits hopen hbehind
    refine ⟨d, hd, by rw [hopen]; rfl, fun n s hs => ?_⟩
    obtain rfl := hs.cursor
    refine .token hopen ?_
    refine .offset ?_
    refine .advance hd' ?_
    refine .token rfl ?_
    rw [if_neg hne]
    refine .bind (hread n _ (hs.move d')) fun e' u hback => ?_
    obtain ⟨f, hf, htoken, hrest'⟩ :=
      htail.next u.cursor (by rw [hback.place.token]; rfl) hback.place.rest
    refine .skip hback.place.token hf (.pure ⟨hback.outline, htoken, hrest', ?_, ?_⟩)
    · exact hback.place.scope
    · exact hback.place.nextId
  · rw [hrender]
    exact ⟨by simp, by simp⟩

end Expr

end XPath
