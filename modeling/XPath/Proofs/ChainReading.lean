import XPath.Proofs.Climbing

/-!
# Chains from sources

A source that is a chain is read as the chain's tree when the type operators behind every operand
descend, and fails at the first one that does not (`readExpression_chain`).
-/

namespace XPath

open Parse

/-! ### The end of the source -/

theorem AtSteps.eof {n : Nat} {d : Cursor} (h : AtSteps [] n [] d) : d.token = .eof := by
  obtain ⟨c, hc, hd⟩ := h
  have hgap : Token.trivia c.rest = some ([], []) := by
    rw [hc.rest]
    rfl
  have hread : Lexeme.read c.token [] = .ok ⟨.eof, "", [], []⟩ := rfl
  rw [Cursor.advance_eq hgap hread] at hd
  cases hd
  rfl

namespace Parse

variable {σ : Setting} {s t u : ParseState}

/-- A single expression with no comma behind it. -/
theorem expression_run {nested : Parse Expr} {e : Expr} (h : nested s = .ok e t)
    (hcomma : t.cursor.token ≠ .comma) : expression σ nested s = .ok e t := by
  have hitems : commaSeparated σ nested s = .ok [e] t := by
    unfold commaSeparated
    rw [bind_run h, bind_run (repeatWhile_stop (decide_eq_false hcomma))]
    rfl
  unfold expression
  rw [offset_bind, bind_run hitems]
  rfl

theorem expression_fails {nested : Parse Expr} {e : Error} (h : nested s = .error e t) :
    expression σ nested s = .error e t := by
  unfold expression commaSeparated
  rw [offset_bind]
  exact bind_fails (bind_fails h)

theorem complete_of_expression {e : Expr} (hs : advance σ s = .ok () t)
    (h : expression σ (single σ) t = .ok e u) (hend : u.cursor.token = .eof) :
    complete σ .eof s = .ok e u := by
  unfold complete
  rw [bind_run hs, bind_run h, token_bind, if_pos hend]
  rfl

/-- A source that holds a single expression. -/
theorem complete_run {e : Expr} (hs : advance σ s = .ok () t) (hsingle : single σ t = .ok e u)
    (hend : u.cursor.token = .eof) : complete σ .eof s = .ok e u := by
  have hcomma : u.cursor.token ≠ .comma := by
    rw [hend]
    simp
  exact complete_of_expression hs (expression_run hsingle hcomma) hend

theorem complete_fails {e : Error} (hs : advance σ s = .ok () t)
    (hsingle : single σ t = .error e u) : complete σ .eof s = .error e u := by
  unfold complete
  rw [bind_run hs]
  exact bind_fails (expression_fails hsingle)

end Parse

/-- The default context. -/
theorem conventional_default (language : Language) :
    Setting.Conventional ⟨language, ({} : StaticContext).resolver⟩ where
  elements := rfl
  schema := rfl

/-- A chain is in the source from its start on. -/
theorem Chain.beforeOperand (c : Chain) :
    BeforeOperand [] 0 c.first.signs c.first.word c.steps
      (Cursor.ofSource (String.ofList c.text) 0) := by
  rw [ofSource_start]
  refine ⟨Lexeme.precedesOperand_eof, [], .inl rfl, ?_, rfl⟩
  rw [List.append_nil, Chain.text_eq]
  rfl

/-- The state in which a chain is read, from its first token on. -/
theorem Chain.single_outcome {c : Chain} (h : c.weight ≤ 504) {σ : Setting}
    (hσ : σ.Conventional) {s : ParseState} (hdepth : s.depth = 0)
    (hs : s.cursor = Cursor.ofSource (String.ofList c.text) 0) :
    ∃ d, advance σ s = .ok () { s with cursor := d } ∧
      Outcome σ [] (utf8Length (signedText c.first.signs c.first.word)) c.steps []
        (signedAt c.first.word 0 c.first.signs) { s with cursor := d }
        (single σ { s with cursor := d }) := by
  have hoperand := c.beforeOperand
  rw [← hs] at hoperand
  obtain ⟨d, hd⟩ := hoperand.advance closing_nil
  have hlevels : s.depth + nestedCost + (c.first.signs.length + Step.weightOf c.steps) ≤
      maxDepth := by
    rw [hdepth, ← c.weight_eq, nestedCost, maxDepth]
    omega
  refine ⟨d, advance_run hd, ?_⟩
  have hsingle : Outcome σ [] (0 + utf8Length (signedText c.first.signs c.first.word)) c.steps []
      (signedAt c.first.word 0 c.first.signs) { s with cursor := d }
      (singleWith σ (singleWithin σ 63) { s with cursor := d }) :=
    singleWith_outcome hσ closing_nil hoperand hd hlevels
  rw [Nat.zero_add] at hsingle
  exact hsingle

/-- A chain of any length, within the limit on levels, is read as its tree if the type operators
behind each of its operands descend. Otherwise the first that does not is where reading fails. -/
theorem readExpression_chain {c : Chain} (h : c.weight ≤ 504) (warnings : List String) :
    ((∀ o ∈ c.operands, o.Descending) →
      readExpression (String.ofList c.text) ({} : StaticContext).resolver warnings =
        ⟨.ok c.tree, warnings⟩) ∧
    (¬(∀ o ∈ c.operands, o.Descending) →
      ∃ op location, c.clash? = some op ∧
        readExpression (String.ofList c.text) ({} : StaticContext).resolver warnings =
          ⟨.error { (Fault.typeOperand (.typeOperator op)).error .expression with
            location := some location }, warnings⟩) := by
  obtain ⟨d, hd, houtcome⟩ := Chain.single_outcome h
    (conventional_default .expression) (s := (Parser.ofSource (String.ofList c.text) 0 .expression
      ({} : StaticContext).resolver warnings).state) rfl rfl
  have hclash : Step.clash? (c.steps ++ ([] : List Step).take 1) = c.clash? := by
    rw [List.take_nil, List.append_nil, c.clash?_steps]
  unfold Outcome at houtcome
  rw [hclash] at houtcome
  constructor
  · intro hdescending
    rw [Chain.clash?_eq_none_iff.mpr hdescending] at houtcome
    obtain ⟨e, k, -, he, hsingle⟩ := houtcome
    have hrun := complete_run hd hsingle he.eof
    rw [Step.groupAt, Chain.group_steps hdescending] at hrun
    exact readExpression_run hrun
  · intro hdescending
    cases hop : c.clash? with
    | none => exact absurd (Chain.clash?_eq_none_iff.mp hop) hdescending
    | some op =>
        rw [hop] at houtcome
        obtain ⟨location, t, ht, hsingle⟩ := houtcome
        refine ⟨op, location, rfl, ?_⟩
        rw [readExpression_fails (complete_fails hd hsingle), ht]
        rfl

/-- A chain of names that are spelled like keywords. -/
def keywordChain : Chain where
  first := ⟨[.minus], ⟨"for".toList, by decide +kernel⟩, []⟩
  links :=
    [⟨.or, "or", List.mem_singleton.mpr rfl, ⟨[], ⟨"div".toList, by decide +kernel⟩, []⟩⟩,
      ⟨.arithmetic .mul, "*", List.mem_singleton.mpr rfl,
        ⟨[], ⟨"cast".toList, by decide +kernel⟩, [⟨.castAs, .integer, rfl⟩]⟩⟩]

/-- A name with a tighter type operator behind a looser one. -/
def ascendingChain : Chain where
  first := ⟨[], ⟨"x".toList, by decide +kernel⟩,
    [⟨.instanceOf, .integer, rfl⟩, ⟨.castAs, .integer, rfl⟩]⟩
  links := []

theorem readExpression_chain_of_keywords :
    keywordChain.weight ≤ 504 ∧ ascendingChain.weight ≤ 504 ∧
      readExpression "- for or div * cast cast as xs:integer?" ({} : StaticContext).resolver [] =
        ⟨.ok keywordChain.tree, []⟩ ∧
      ∃ location, readExpression "x instance of xs:integer? cast as xs:integer?"
        ({} : StaticContext).resolver [] =
          ⟨.error { (Fault.typeOperand (.typeOperator .castAs)).error .expression with
            location := some location }, []⟩ := by
  have hkeyword : keywordChain.weight ≤ 504 := by decide +kernel
  have hascending : ascendingChain.weight ≤ 504 := by decide +kernel
  refine ⟨hkeyword, hascending, ?_, ?_⟩
  · have hsource : "- for or div * cast cast as xs:integer?" = String.ofList keywordChain.text := by
      decide +kernel
    rw [hsource]
    exact (readExpression_chain hkeyword []).1 (Chain.clash?_eq_none_iff.mp rfl)
  · have hsource : "x instance of xs:integer? cast as xs:integer?" =
        String.ofList ascendingChain.text := by
      decide +kernel
    have hclash : ascendingChain.clash? = some .castAs := rfl
    have hnot : ¬(∀ o ∈ ascendingChain.operands, o.Descending) := by
      rw [← Chain.clash?_eq_none_iff, hclash]
      simp
    obtain ⟨op, location, hop, hread⟩ := (readExpression_chain hascending []).2 hnot
    rw [hclash] at hop
    cases hop
    rw [hsource]
    exact ⟨location, hread⟩

end XPath
