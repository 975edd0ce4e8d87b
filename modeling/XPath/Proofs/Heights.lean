import XPath.Proofs.ChainReading
import XPath.Proofs.Levels

/-!
# Heights beyond the limit

The limit on levels bounds the height only up to free edges (`Parser.height_le_maxDepth_iff`). The
further clauses of a binding take no levels, and each of them makes the tree higher. So there are
sources whose trees are as high as one likes (`exists_reading_of_clauses`).
-/

namespace XPath

open Parse

/-! ### Sources with many clauses -/

/-- Further clauses, and the action behind them. -/
def clausesText : Nat → List Char
  | 0 => " return x".toList
  | k + 1 => ',' :: (" $a in x".toList ++ clausesText k)

/-- A binding with further clauses. -/
def bindingText (k : Nat) : List Char :=
  "for".toList ++ (" $a in x".toList ++ clausesText k)

/-- The name that all domains and the action are. -/
def wordX : Word := ⟨['x'], by decide⟩

variable {tail : List Char} {c d : Cursor} {m k : Nat}

theorem advance_return (hends : c.token.endsOperand = true) (hrest : c.rest = clausesText 0) :
    ∃ d, c.advance = (.ok (), d) ∧ d.token = .returnWord ∧ d.rest = [' ', 'x'] := by
  have hgap : Token.trivia c.rest = some ([' '], "return".toList ++ [' ', 'x']) := by
    rw [hrest]
    exact Token.trivia_blank ⟨_, _, rfl, rfl, by decide⟩
  have hname : isNCName "return".toList = true := by decide
  have hread : Lexeme.read c.token ("return".toList ++ [' ', 'x']) =
      .ok ⟨.returnWord, "return", "return".toList, [' ', 'x']⟩ := by
    rw [Lexeme.read_word hname (Lexeme.endsWord_blank ['x'])]
    exact Lexeme.readWord_linkWord hends (by decide) (by decide)
  exact ⟨_, Cursor.advance_eq hgap hread, rfl, rfl⟩

theorem closing_clausesText (k : Nat) : Closing (clausesText k) := by
  cases k with
  | zero =>
      refine ⟨Lexeme.endsWord_blank _, ?_, fun c hends hrest => ?_⟩
      · exact Lexeme.leavesName_blank ⟨_, _, rfl, rfl, by decide⟩ (by decide)
      · obtain ⟨d, hd, htoken, -⟩ := advance_return hends hrest
        exact ⟨d, hd, htoken ▸ Token.closes_returnWord⟩
  | succ k =>
      refine ⟨?_, ⟨[], _, Token.trivia_solid ⟨_, _, rfl, rfl, by decide⟩, ?_⟩, fun c _ hrest => ?_⟩
      · intro c hc
        cases hc
        exact ⟨rfl, by decide⟩
      · intro c hc
        cases hc
        exact ⟨by decide, by decide⟩
      · obtain ⟨d, hd, htoken, -⟩ := Cursor.advance_comma hrest
        exact ⟨d, hd, htoken ▸ Token.closes_comma⟩

/-- The tokens of a clause up to its domain. -/
theorem advance_clause (hc : c.rest = " $a in x".toList ++ tail) :
    ∃ d e f, c.advance = (.ok (), d) ∧ d.token = .dollar ∧ d.advance = (.ok (), e) ∧
      e.token = .name ∧ e.value = "a" ∧ e.advance = (.ok (), f) ∧ f.token = .inWord ∧
      f.rest = ' ' :: 'x' :: tail := by
  have hdollar : Lexeme.read c.token ('$' :: 'a' :: (" in x".toList ++ tail)) =
      .ok ⟨.dollar, "", ['$'], 'a' :: (" in x".toList ++ tail)⟩ := rfl
  have hname : Lexeme.read .dollar ('a' :: (" in x".toList ++ tail)) =
      .ok ⟨.name, "a", ['a'], " in x".toList ++ tail⟩ := rfl
  have hin : Lexeme.read .name ("in x".toList ++ tail) =
      .ok ⟨.inWord, "in", "in".toList, ' ' :: 'x' :: tail⟩ := rfl
  have hgap : Token.trivia c.rest = some ([' '], '$' :: 'a' :: (" in x".toList ++ tail)) := by
    rw [hc]
    exact Token.trivia_blank ⟨_, _, rfl, rfl, by decide⟩
  exact ⟨_, _, _, Cursor.advance_eq hgap hdollar, rfl,
    Cursor.advance_eq (Token.trivia_solid ⟨_, _, rfl, rfl, by decide⟩) hname, rfl, rfl,
    Cursor.advance_eq (Token.trivia_blank ⟨_, _, rfl, rfl, by decide⟩) hin, rfl, rfl⟩

/-- Behind a word that expects one stands the name `x`. -/
theorem beforeOperand_x (ht : Lexeme.PrecedesOperand c.token)
    (hrest : c.rest = ' ' :: 'x' :: tail) :
    BeforeOperand tail (c.position + 1) [] wordX [] c :=
  ⟨ht, [' '], .inr rfl, hrest, rfl⟩

/-! ### Reading many clauses -/

variable {σ : Setting} {nested : Parse Expr} {s t : ParseState}

/-- The name `x` as a single expression. -/
theorem singleWith_x (hσ : σ.Conventional) (ht : Closing tail)
    (hc : Lexeme.PrecedesOperand c.token) (hrest : c.rest = ' ' :: 'x' :: tail)
    (hs : c.advance = (.ok (), s.cursor)) (hdepth : s.depth + nestedCost ≤ maxDepth) :
    ∃ e d m, AtSteps tail m [] d ∧ singleWith σ nested s = .ok e { s with cursor := d } := by
  have houtcome : Outcome σ tail (c.position + 1 + utf8Length (signedText [] wordX)) [] []
      (signedAt wordX (c.position + 1) []) s (singleWith σ nested s) :=
    singleWith_outcome hσ ht (beforeOperand_x hc hrest) hs hdepth
  obtain ⟨d, k, hk, hd, hrun⟩ := houtcome
  obtain rfl := Nat.le_zero.mp hk
  exact ⟨_, d, _, hd, hrun⟩

theorem expandName_a (s : ParseState) :
    expandName σ "a" false s = .ok (.unqualified "a") s := by
  have hname : LexicalQName.parse? "a" = some ⟨"", "a"⟩ := by decide
  unfold expandName
  rw [hname]
  rfl

/-- A clause is read, with its variable in scope after it. -/
theorem clause_run (hσ : σ.Conventional) (ht : Closing tail)
    (hrest : c.rest = " $a in x".toList ++ tail) (hs : c.advance = (.ok (), s.cursor))
    (hdepth : s.depth + nestedCost ≤ maxDepth) :
    ∃ cl t m, clause σ (singleWith σ nested) s = .ok cl t ∧ AtSteps tail m [] t.cursor ∧
      t.depth = s.depth := by
  obtain ⟨d, e, f, hd, hdollar, he, hname, hvalue, hf, hin, hx⟩ := advance_clause hrest
  rw [hs] at hd
  cases hd
  have hprecedes : Lexeme.PrecedesOperand f.token := by
    rw [hin]
    exact Lexeme.precedesOperand_inWord
  obtain ⟨g, hg⟩ := (beforeOperand_x hprecedes hx).advance ht
  obtain ⟨domain, d, m, hd, hdomain⟩ := singleWith_x hσ ht hprecedes hx
    (s := { s with cursor := g }) hg hdepth
  have hadvance : advance σ { s with cursor := e } = .ok () { s with cursor := f } := advance_run hf
  have hskip : skip σ .inWord { s with cursor := f } = .ok () { s with cursor := g } :=
    skip_run hin hg
  refine ⟨⟨⟨s.nextId, .unqualified "a", .singleItem⟩, domain⟩,
    { s with
      cursor := d
      scope := ⟨s.nextId, .unqualified "a", .singleItem⟩ :: s.scope
      nextId := s.nextId + 1 }, m, ?_, hd, rfl⟩
  unfold clause
  rw [bind_run (skip_run hdollar he), bind_run (expect_run hname), value_bind]
  dsimp only
  rw [hvalue, bind_run (expandName_a _), bind_run hadvance, bind_run hskip, bind_run hdomain]
  rfl

/-- All further clauses are read, and none of their levels are kept. -/
theorem clauses_run (hσ : σ.Conventional) {fuel : Nat} (hfuel : k ≤ fuel)
    (hs : AtSteps (clausesText k) m [] s.cursor) (hdepth : s.depth + nestedCost ≤ maxDepth)
    (acc : List Clause) :
    ∃ cs t m, repeatAtMost (· = .comma) (fun others => do
        advance σ
        return (← clause σ (singleWith σ nested)) :: others) fuel acc s = .ok cs t ∧
      cs.length = acc.length + k ∧ AtSteps (clausesText 0) m [] t.cursor ∧ t.depth = s.depth := by
  induction k generalizing m s acc fuel with
  | zero =>
      obtain ⟨c, hc, hd⟩ := hs
      obtain ⟨d, hd', htoken, -⟩ := advance_return hc.ends hc.rest
      rw [hd] at hd'
      cases hd'
      exact ⟨acc, s, m, repeatAtMost_stop (by rw [htoken]; rfl), rfl, ⟨c, hc, hd⟩, rfl⟩
  | succ k ih =>
      obtain ⟨c, hc, hd⟩ := hs
      obtain ⟨d, hd', htoken, hrest, -⟩ := Cursor.advance_comma hc.rest
      rw [hd] at hd'
      cases hd'
      obtain ⟨rounds, rfl⟩ := Nat.exists_eq_add_of_le' (Nat.le_of_add_left_le hfuel)
      obtain ⟨e, f, g, he, -⟩ := advance_clause hrest
      -- the levels of a domain are given back, so that there is room for the next one
      obtain ⟨cl, t, m', hclause, hat, hdepth'⟩ := clause_run hσ
        (closing_clausesText k) hrest (s := { s with cursor := e }) he hdepth
      have hlevels : t.depth + nestedCost ≤ maxDepth := by
        rw [hdepth']
        exact hdepth
      obtain ⟨cs, u, m'', hloop, hlength, hend, hdepth''⟩ := ih
        (Nat.le_of_succ_le_succ hfuel) hat hlevels (cl :: acc)
      have hround : (do
          advance σ
          return (← clause σ (singleWith σ nested)) :: acc : Parse (List Clause)) s =
          .ok (cl :: acc) t := by
        rw [bind_run (advance_run he), bind_run hclause]
        rfl
      refine ⟨cs, u, m'', ?_, ?_, hend, hdepth''.trans hdepth'⟩
      · rw [repeatAtMost_round (by rw [htoken]; rfl), bind_run hround]
        exact hloop
      · rw [hlength, List.length_cons]
        omega

theorem le_length_clausesText (k : Nat) : k ≤ (clausesText k).length := by
  induction k with
  | zero => exact Nat.zero_le _
  | succ k ih =>
      have hlater := (List.suffix_append " $a in x".toList (clausesText k)).length_le
      exact Nat.succ_le_succ (Nat.le_trans ih hlater)

/-- There are rounds for all further clauses. -/
theorem AtSteps.le_length (h : AtSteps (clausesText k) m [] d) : k ≤ d.rest.length + 1 := by
  cases k with
  | zero => exact Nat.zero_le _
  | succ k =>
      obtain ⟨c, hc, hd⟩ := h
      obtain ⟨d, hd', -, hrest, -⟩ := Cursor.advance_comma hc.rest
      rw [hd] at hd'
      cases hd'
      have hlater := (List.suffix_append " $a in x".toList (clausesText k)).length_le
      rw [hrest]
      exact Nat.succ_le_succ (Nat.le_trans (le_length_clausesText k) hlater)

/-- Each clause is a level of its own. -/
theorem length_lt_height_nestClauses (start : Nat) (kind : BindingKind)
    (known : List RangeVariable) (cs : List Clause) (action : Expr) :
    cs.length < (nestClauses start kind known cs action).height := by
  induction cs generalizing known with
  | nil => exact Expr.height_pos _
  | cons c cs ih =>
      rw [nestClauses, Expr.height, List.length_cons]
      have := ih (known ++ [{ c.bound with
        type := ⟨(withTypes known c.domain).itemType, .exactlyOne⟩ }])
      omega

/-- A binding with many clauses is a single expression, and is high. -/
theorem bindingExpression_run (hσ : σ.Conventional)
    (hrest : s.cursor.rest = " $a in x".toList ++ clausesText k)
    (hdepth : s.depth + nestedCost ≤ maxDepth) :
    ∃ e t m, bindingExpression σ (singleWith σ nested) .forEach s = .ok e t ∧
      k < e.height ∧ AtSteps [] m [] t.cursor := by
  obtain ⟨d, -, -, hd, -⟩ := advance_clause hrest
  obtain ⟨first, t, m, hfirst, hat, hlevels⟩ := clause_run hσ
    (closing_clausesText k) hrest (s := { s with cursor := d }) hd hdepth
  have hdepth' : t.depth + nestedCost ≤ maxDepth := by
    rw [hlevels]
    exact hdepth
  obtain ⟨others, u, m', hothers, hlength, ⟨c, hc, hu⟩, hlevels'⟩ :=
    clauses_run hσ hat.le_length hat hdepth' []
  obtain ⟨c', hc', hreturn, hx⟩ := advance_return hc.ends hc.rest
  rw [hu] at hc'
  cases hc'
  have hprecedes : Lexeme.PrecedesOperand u.cursor.token := by
    rw [hreturn]
    exact Lexeme.precedesOperand_returnWord
  obtain ⟨f, hf⟩ := (beforeOperand_x hprecedes hx).advance closing_nil
  obtain ⟨action, g, m'', hg, haction⟩ := singleWith_x hσ closing_nil hprecedes hx
    (s := { u with cursor := f }) hf (by
      show u.depth + nestedCost ≤ maxDepth
      rw [hlevels']
      exact hdepth')
  have hclauses : commaSeparated σ (clause σ (singleWith σ nested)) { s with cursor := d } =
      .ok (first :: others.reverse) u := by
    unfold commaSeparated
    rw [bind_run hfirst, bind_run (repeatWhile_eq.trans hothers)]
    rfl
  have hparts : (do
      advance σ
      let clauses ← commaSeparated σ (clause σ (singleWith σ nested))
      skip σ (actionToken .forEach)
      return (clauses, ← singleWith σ nested) : Parse (List Clause × Expr)) s =
      .ok (first :: others.reverse, action) { u with cursor := g } := by
    have hskip : skip σ (actionToken .forEach) u = .ok () { u with cursor := f } :=
      skip_run hreturn hf
    rw [bind_run (advance_run hd), bind_run hclauses, bind_run hskip, bind_run haction]
    rfl
  refine ⟨nestClauses s.cursor.offset .forEach [] (first :: others.reverse) action,
    { u with cursor := g, scope := s.scope }, m'', ?_, ?_, hg⟩
  · unfold bindingExpression
    rw [offset_bind, bind_run (binding_run hparts)]
    rfl
  · have hheight := length_lt_height_nestClauses s.cursor.offset .forEach []
      (first :: others.reverse) action
    rw [List.length_cons, List.length_reverse, hlength, List.length_nil] at hheight
    omega

/-! ### The whole source -/

/-- A source with many clauses is read, and its tree is higher than their number. -/
theorem exists_reading_of_clauses (k : Nat) :
    ∃ e, ((Parser.ofSource (String.ofList (bindingText k)) 0 .expression
        ({} : StaticContext).resolver []).expression .eof).1 = .ok e ∧ k < e.height := by
  have hgap : Token.trivia (bindingText k) = some ([], bindingText k) :=
    Token.trivia_solid ⟨_, _, rfl, rfl, by decide⟩
  have hread : Lexeme.read .eof (bindingText k) =
      .ok ⟨.forWord, "for", "for".toList, " $a in x".toList ++ clausesText k⟩ := rfl
  obtain ⟨d, hd, htoken, hrest⟩ : ∃ d, (Cursor.ofSource (String.ofList (bindingText k)) 0).advance =
      (.ok (), d) ∧ d.token = .forWord ∧ d.rest = " $a in x".toList ++ clausesText k := by
    rw [ofSource_start]
    exact ⟨_, Cursor.advance_eq hgap hread, rfl, rfl⟩
  let σ : Setting := ⟨.expression, ({} : StaticContext).resolver⟩
  have houter : 0 + nestedCost ≤ maxDepth := by decide
  have hinner : nestedCost + nestedCost ≤ maxDepth := by decide
  obtain ⟨e, t, m, hbinding, hheight, hend⟩ := bindingExpression_run
    (conventional_default .expression) (s := { cursor := d, depth := nestedCost }) hrest hinner
  have hsingle : single σ { cursor := d } = .ok e { t with depth := 0 } := by
    show singleWith σ (singleWith σ (singleWithin σ 62)) { cursor := d } = _
    unfold singleWith
    refine nesting_run ?_
    rw [bind_run (descend_run houter), token_bind, htoken]
    exact hbinding
  have hread := Parser.expression_run (p := Parser.ofSource (String.ofList (bindingText k)) 0
    .expression ({} : StaticContext).resolver []) (complete_run (advance_run hd) hsingle hend.eof)
  exact ⟨e, congrArg Prod.fst hread, hheight⟩

/-- In an expression that is read from a source, the levels charged along every branch stay within
the limit. So the height stays within it too exactly if the branches do that have at least as
many free edges as an expression within another takes levels. -/
theorem Parser.height_le_maxDepth_iff {source : String} {start : Nat} {language : Language}
    {host : Resolver} {warnings : List String} {terminator : Token} {e : Expr}
    (h : ((Parser.ofSource source start language host warnings).expression terminator).1 = .ok e) :
    (∀ charges, e.Branch charges → nestedCost + charges.sum ≤ maxDepth) ∧
      (e.height ≤ maxDepth ↔ ∀ charges, e.Branch charges → nestedCost ≤ charges.count 0 →
        charges.length < maxDepth) := by
  refine ⟨fun _ hb => Parser.charges_le h hb, ?_, ?_⟩
  · intro hheight charges hb _
    exact Nat.lt_of_lt_of_le (Expr.length_lt_height hb) hheight
  · intro hfree
    obtain ⟨charges, hb, hheight⟩ := e.exists_branch_of_height
    by_cases hcount : nestedCost ≤ charges.count 0
    · have hlength := hfree charges hb hcount
      omega
    · -- with fewer free edges the others are too many for the limit
      have hsum := Parser.charges_le h hb
      have hlength := length_le_count_add_sum charges
      omega

theorem Parser.height_le_maxDepth_iff_of_two_clauses :
    ∃ e, ((Parser.ofSource "for $a in x, $a in x return x" 0 .expression
        ({} : StaticContext).resolver []).expression .eof).1 = .ok e ∧
      (∀ charges, e.Branch charges → nestedCost + charges.sum ≤ maxDepth) ∧
      (e.height ≤ maxDepth ↔
        ∀ charges, e.Branch charges → nestedCost ≤ charges.count 0 →
          charges.length < maxDepth) := by
  obtain ⟨e, he⟩ := exists_of_isOk (r := ((Parser.ofSource "for $a in x, $a in x return x" 0
    .expression ({} : StaticContext).resolver []).expression .eof).1) (by decide +kernel)
  exact ⟨e, he, Parser.height_le_maxDepth_iff he⟩

/-- A binding with 520 clauses is higher than the limit. -/
theorem Parser.maxDepth_lt_height_of_clauses :
    ∃ e, ((Parser.ofSource (String.ofList (bindingText 519)) 0 .expression
        ({} : StaticContext).resolver []).expression .eof).1 = .ok e ∧
      maxDepth < e.height := by
  obtain ⟨e, he, hheight⟩ := exists_reading_of_clauses 519
  have hmax : maxDepth < 519 := by decide
  exact ⟨e, he, Nat.lt_trans hmax hheight⟩

end XPath
