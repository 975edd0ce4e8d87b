import XPath.Proofs.ChainReading
import XPath.Proofs.ReadbackCompounds
import XPath.Proofs.ShadowReading

/-!
# Lists of clauses

A binding of several variables comes to the same as bindings of one variable each that are nested
in one another (`Parser.clauseList_outline`). The nested ones are read by as many readers within
readers as there are variables, and each takes its variable out of scope; the list is read by one
reader in a loop, and is nested afterwards. In both, a variable comes into scope behind its domain,
so that the ids are given out in the same order. The seam between a domain and what follows it is
the only place where the texts differ.
-/

namespace XPath

/-! ### The texts -/

/-- A variable and its domain as they are written. -/
structure ClauseText where
  name : String
  domain : String

namespace ClauseText

/-- The variable and its domain, behind a keyword or a comma. -/
def text (c : ClauseText) : List Char :=
  ' ' :: '$' :: (c.name.toList ++ ' ' :: ("in".toList ++ ' ' :: c.domain.toList))

variable (kind : BindingKind) (action : String)

/-- Bindings of one variable each around an action, the last one innermost. -/
def nested : List ClauseText → List Char
  | [] => action.toList
  | c :: cs =>
    kind.keyword.toList ++ (c.text ++ ' ' :: (kind.actionWord.toList ++ ' ' :: nested cs))

/-- What follows the first variable and its domain in a binding of several variables. -/
def others : List ClauseText → List Char
  | [] => ' ' :: (kind.actionWord.toList ++ ' ' :: action.toList)
  | c :: cs => ',' :: (c.text ++ others cs)

/-- One binding of several variables. -/
def list (c : ClauseText) (cs : List ClauseText) : List Char :=
  kind.keyword.toList ++ (c.text ++ others kind action cs)

/-- There is a comma for every further variable. -/
theorem length_le_others (cs : List ClauseText) : cs.length ≤ (others kind action cs).length := by
  induction cs with
  | nil => exact Nat.zero_le _
  | cons c cs ih =>
      simp only [others, List.length_cons, List.length_append]
      omega

end ClauseText

namespace Parse

open XPath.Expr (keywordToken bindingWord?_keyword)

variable {σ : Setting} {kind : BindingKind} {action : String} {c : ClauseText}
  {cs : List ClauseText} {n n' : Nat} {s s' t u u' v : ParseState} {e : Expr}

/-- In nested bindings that are still to be read, one call for a single expression reads each
domain, up to the word behind it, and one call reads the action, up to the end of the source. At
most `n` expressions may be nested in one another. -/
def readsEachOnce (σ : Setting) (kind : BindingKind) (action : String) :
    Nat → List ClauseText → ParseState → Bool
  | n, [], s =>
    match (advance σ >>= fun _ => singleWithin σ n) s with
    | .ok _ t => t.cursor.token = .eof
    | .error _ _ => false
  | 0, _ :: _, _ => false
  | n + 1, _ :: cs, s =>
    match (advance σ >>= fun _ => descend σ nestedCost >>= fun _ => advance σ >>= fun _ =>
      clause σ (singleWithin σ n)) s with
    | .ok _ t =>
      t.cursor.token = actionToken kind &&
        t.cursor.rest = ' ' :: ClauseText.nested kind action cs &&
        readsEachOnce σ kind action n cs t
    | .error _ _ => false

theorem readsEachOnce_action (h : readsEachOnce σ kind action n [] s = true) :
    ∃ e t, (advance σ >>= fun _ => singleWithin σ n) s = .ok e t ∧ t.cursor.token = .eof := by
  rw [readsEachOnce] at h
  split at h
  · next e t hrun => exact ⟨e, t, hrun, of_decide_eq_true h⟩
  · cases h

/-- The states in which the first variable of nested bindings is read, and the others. -/
theorem readsEachOnce_clause (h : readsEachOnce σ kind action n (c :: cs) s = true) :
    ∃ m u w clause' v, n = m + 1 ∧ advance σ s = .ok () u ∧ descend σ nestedCost u = .ok () w ∧
      (advance σ >>= fun _ => clause σ (singleWithin σ m)) w = .ok clause' v ∧
      v.cursor.token = actionToken kind ∧
      v.cursor.rest = ' ' :: ClauseText.nested kind action cs ∧
      readsEachOnce σ kind action m cs v = true := by
  cases n with
  | zero => cases h
  | succ m =>
      rw [readsEachOnce] at h
      split at h
      · next clause' v hrun =>
          obtain ⟨_, u, hu, hrun⟩ := bind_ok.mp hrun
          obtain ⟨_, w, hw, hrun⟩ := bind_ok.mp hrun
          simp only [Bool.and_eq_true, decide_eq_true_eq] at h
          exact ⟨m, u, w, clause', v, rfl, hu, hw, hrun, h.1.1, h.1.2, h.2⟩
      · cases h

/-! ### The first tokens of a binding -/

theorem advance_keyword {c : Cursor} {d : ClauseText} {gap tail : List Char}
    (hgap : gap = [] ∨ gap = [' '])
    (hrest : c.rest = gap ++ (kind.keyword.toList ++ (d.text ++ tail)))
    (hc : Lexeme.PrecedesOperand c.token) :
    ∃ c', c.advance = (.ok (), c') ∧ c'.token = keywordToken kind ∧ c'.rest = d.text ++ tail := by
  have hkeyword : isNCName kind.keyword.toList = true := by cases kind <;> decide
  obtain ⟨c', hc', htoken, -, hrest'⟩ := Cursor.finds_bindingWord hgap hrest
    (.simple hkeyword) (bindingWord?_keyword kind) hc
  exact ⟨c', hc', htoken, hrest'⟩

theorem advance_dollar {c : Cursor} {d : ClauseText} {tail : List Char}
    (hrest : c.rest = d.text ++ tail) :
    ∃ c', c.advance = (.ok (), c') ∧ c'.token = .dollar ∧ c'.value = "" ∧
      c'.rest = d.name.toList ++ ' ' :: ("in".toList ++ ' ' :: d.domain.toList) ++ tail :=
  Cursor.finds_dollar (.inr rfl) (show c.rest = [' '] ++ '$' :: _ from hrest)

theorem precedesOperand_action (kind : BindingKind) :
    Lexeme.PrecedesOperand (actionToken kind) := by
  cases kind <;> decide

theorem action_not_comma (hs : s.cursor.token = actionToken kind) :
    decide (s.cursor.token = .comma) = false := by
  rw [hs]
  cases kind <;> rfl

/-- A reader of single expressions that is at a keyword. -/
theorem singleWithin_keyword (hs : s.cursor.token = keywordToken kind)
    (hdescend : descend σ nestedCost s = .ok () u) :
    singleWithin σ (n + 1) s = nesting (descend σ nestedCost >>= fun _ =>
      bindingExpression σ (singleWithin σ n) kind) s := by
  have htoken : u.cursor.token = keywordToken kind := by
    rw [descend_cursor hdescend, hs]
  show nesting _ s = _
  unfold nesting
  rw [bind_run hdescend, bind_run hdescend, token_bind, htoken]
  cases kind <;> rfl

/-! ### From a domain to the next -/

/-- The way from a variable on: up to the seam behind its domain, or without an end behind the last
variable, where the texts are the same. -/
def domainTrack (kind : BindingKind) (action : String) : List ClauseText → Track
  | [] => .same
  | c :: cs => .seam
    { kind, rest := ClauseText.nested kind action (c :: cs)
      rest' := c.text ++ ClauseText.others kind action cs }

/-- Behind a domain: the first reader is at the word before the binding within, or before the
action, and the second one where its list goes on. -/
structure BehindDomain (kind : BindingKind) (action : String) (cs : List ClauseText)
    (s s' : ParseState) : Prop where
  token : s.cursor.token = actionToken kind
  rest : s.cursor.rest = ' ' :: ClauseText.nested kind action cs
  beside : Beside (domainTrack kind action cs) s s'

theorem domainTrack_starts {c c' : Cursor} {mid : List Char}
    (hrest : c.rest =
      mid ++ ' ' :: (kind.actionWord.toList ++ ' ' :: ClauseText.nested kind action cs))
    (hrest' : c'.rest = mid ++ ClauseText.others kind action cs) (htoken : c'.token = c.token)
    (hvalue : c'.value = c.value) :
    (domainTrack kind action cs).Inside c c' ∨ (domainTrack kind action cs).Lost c := by
  cases cs with
  | nil => exact .inl ⟨hrest'.trans hrest.symm, htoken, hvalue⟩
  | cons d ds =>
      exact (Seam.keeps_or_lost (k := ⟨kind, _, d.text ++ ClauseText.others kind action ds⟩)
        hrest).imp_left fun hkeeps => ⟨mid, hrest, hrest', htoken, hvalue, hkeeps⟩

theorem domainTrack_not_lost {c : Cursor} (htoken : c.token = actionToken kind)
    (hrest : c.rest = ' ' :: ClauseText.nested kind action cs) :
    ¬(domainTrack kind action cs).Lost c := by
  cases cs with
  | nil => exact not_false
  | cons d ds =>
      intro hlost
      refine hlost.2 ⟨htoken, ?_⟩
      rw [hrest]
      rfl

/-- The list goes on with a comma. -/
theorem BehindDomain.comma (h : BehindDomain kind action (c :: cs) s s') :
    s'.cursor.token = .comma ∧ s'.cursor.rest = c.text ++ ClauseText.others kind action cs :=
  (Seam.AtWord.atEnd ⟨h.token, h.rest⟩ h.beside.cursor).2

/-- Behind its last domain the list goes on with the word before the action. -/
theorem BehindDomain.same (h : BehindDomain kind action [] s s') :
    s'.cursor.token = actionToken kind ∧ Track.same.Inside s.cursor s'.cursor := by
  have hinside : Track.same.Inside s.cursor s'.cursor := h.beside.cursor.resolve_right id
  exact ⟨hinside.2.1.trans h.token, hinside⟩

/-- A variable with its domain is read from both texts, though behind a keyword in one of them and
behind a comma in the other. -/
theorem clause_follows (u u' : ParseState) {bound : Clause} (hn : n ≤ n')
    (hrest : u.cursor.rest = c.text ++
      ' ' :: (kind.actionWord.toList ++ ' ' :: ClauseText.nested kind action cs))
    (hrest' : u'.cursor.rest = c.text ++ ClauseText.others kind action cs)
    (hscope : u'.scope = u.scope) (hnext : u'.nextId = u.nextId) (hdepth : u'.depth ≤ u.depth)
    (h : (advance σ >>= fun _ => clause σ (singleWithin σ n)) u = .ok bound v)
    (htoken : v.cursor.token = actionToken kind)
    (hleft : v.cursor.rest = ' ' :: ClauseText.nested kind action cs) :
    ∃ bound' v', (advance σ >>= fun _ => clause σ (singleWithin σ n')) u' = .ok bound' v' ∧
      bound'.outline = bound.outline ∧ BehindDomain kind action cs v v' := by
  obtain ⟨d, hd, hdollar, hvalue, hbehind⟩ := advance_dollar hrest
  obtain ⟨d', hd', hdollar', hvalue', hbehind'⟩ := advance_dollar hrest'
  rw [bind_run (advance_run hd)] at h
  have hshadows : Shadows (domainTrack kind action cs) Clause.outline
      (clause σ (singleWithin σ n)) (clause σ (singleWithin σ n')) { u with cursor := d }
      { u' with cursor := d' } := .clause (singleWithin_followed hn)
  obtain ⟨hreach, hfollows⟩ := hshadows bound v h
  have hend : ¬(domainTrack kind action cs).Lost v.cursor := domainTrack_not_lost htoken hleft
  have hstart : (domainTrack kind action cs).Inside d d' := by
    refine (domainTrack_starts hbehind hbehind' ?_ ?_).resolve_right fun hlost =>
      hend (Track.lost_of_reaches hreach hlost)
    · rw [hdollar, hdollar']
    · rw [hvalue, hvalue']
  obtain ⟨bound', v', hv', hbound, hbeside⟩ :=
    hfollows ⟨.inl hstart, hscope, hnext, hdepth⟩ hend
  exact ⟨bound', v', (bind_run (advance_run hd')).trans hv', hbound, htoken, hleft, hbeside⟩

/-- There are more characters left than variables. -/
theorem BehindDomain.length_le (h : BehindDomain kind action cs s s') :
    cs.length ≤ s'.cursor.rest.length := by
  cases cs with
  | nil => exact Nat.zero_le _
  | cons d ds =>
      have hothers := ClauseText.length_le_others kind action ds
      rw [h.comma.2, List.length_append, ClauseText.text, List.length_cons, List.length_cons]
      omega

/-! ### One binding -/

/-- A variable and its domain behind a comma, before those that have been read. -/
def furtherClause (σ : Setting) (nested : Parse Expr) (before : List Clause) :
    Parse (List Clause) := do
  advance σ
  return (← clause σ nested) :: before

theorem furtherClause_run {nested : Parse Expr} {bound : Clause} (before : List Clause)
    (h : (advance σ >>= fun _ => clause σ nested) s = .ok bound t) :
    furtherClause σ nested before s = .ok (bound :: before) t := by
  obtain ⟨_, u, hu, hclause⟩ := bind_ok.mp h
  unfold furtherClause
  rw [bind_run hu, bind_run hclause]
  rfl

theorem skip_bind {α : Type} {t : Token} {f : Unit → Parse α} (hs : s.cursor.token = t) :
    (skip σ t >>= f) s = (advance σ >>= f) s := by
  unfold skip
  rw [bind_assoc, bind_run (expect_run hs)]

/-- A binding whose first variable, further variables and action are read one after another. -/
theorem binding_reads {first : Clause} {further : List Clause} {a : Expr}
    (hs : s.cursor.token = keywordToken kind) (hdescend : descend σ nestedCost s = .ok () u)
    (hfirst : (advance σ >>= fun _ => clause σ (singleWithin σ n)) u = .ok first v)
    (hfurther : repeatWhile (· = .comma) (furtherClause σ (singleWithin σ n)) [] v =
      .ok further.reverse u')
    (haction : (skip σ (actionToken kind) >>= fun _ => singleWithin σ n) u' = .ok a t) :
    singleWithin σ (n + 1) s = .ok (nestClauses u.cursor.offset kind [] (first :: further) a)
      { t with scope := u.scope, depth := s.depth } := by
  obtain ⟨_, w, hadvance, hclause⟩ := bind_ok.mp hfirst
  obtain ⟨_, w', hskip, hnested⟩ := bind_ok.mp haction
  have hclauses : commaSeparated σ (clause σ (singleWithin σ n)) w = .ok (first :: further) u' := by
    unfold commaSeparated
    rw [bind_run hclause]
    change (repeatWhile _ (furtherClause σ (singleWithin σ n)) [] >>= _) v = _
    rw [bind_run hfurther, List.reverse_reverse]
    rfl
  have hparts : (advance σ >>= fun _ => commaSeparated σ (clause σ (singleWithin σ n)) >>=
      fun clauses => skip σ (actionToken kind) >>= fun _ => singleWithin σ n >>=
        fun action => pure (clauses, action)) u = .ok (first :: further, a) t := by
    rw [bind_run hadvance, bind_run hclauses, bind_run hskip, bind_run hnested]
    rfl
  have hbinding : bindingExpression σ (singleWithin σ n) kind u =
      .ok (nestClauses u.cursor.offset kind [] (first :: further) a)
        { t with scope := u.scope } := by
    unfold bindingExpression
    rw [offset_bind, bind_run (binding_run hparts)]
    rfl
  have hrun : (descend σ nestedCost >>= fun _ => bindingExpression σ (singleWithin σ n) kind) s =
      .ok (nestClauses u.cursor.offset kind [] (first :: further) a)
        { t with scope := u.scope } := by
    rw [bind_run hdescend, hbinding]
  rw [singleWithin_keyword hs hdescend, nesting_run hrun]

/-- A binding with one variable. -/
theorem binding_reads_single {first : Clause} {a : Expr}
    (hs : s.cursor.token = keywordToken kind) (hdescend : descend σ nestedCost s = .ok () u)
    (hfirst : (advance σ >>= fun _ => clause σ (singleWithin σ n)) u = .ok first v)
    (hv : v.cursor.token = actionToken kind)
    (haction : (advance σ >>= fun _ => singleWithin σ n) v = .ok a t) :
    singleWithin σ (n + 1) s = .ok (nestClauses u.cursor.offset kind [] [first] a)
      { t with scope := u.scope, depth := s.depth } :=
  binding_reads hs hdescend hfirst (repeatWhile_stop (action_not_comma hv))
    ((skip_bind hv).trans haction)

/-- The first clause around a nest of the further ones. -/
theorem outline_nestClauses_cons {first first' : Clause} {further : List Clause} {a a' : Expr}
    (hfirst : first'.outline = first.outline)
    (h : (nestClauses 0 kind [] further a').outline id = a.outline id) (m m' : Nat) :
    (nestClauses m' kind [] (first' :: further) a').outline id =
      (nestClauses m kind [] [first] a).outline id := by
  obtain ⟨hbound, hdomain⟩ := Clause.mk.inj hfirst
  have hfurther : ∀ known, (nestClauses m' kind known further a').outline id = a.outline id :=
    fun known => (outline_nestClauses rfl rfl).trans h
  simp only [nestClauses, Expr.outline, Expr.outline_withTypes, hdomain, hfurther]
  exact congrArg (fun v => Expr.binding 0 kind v _ _) hbound

/-! ### All bindings -/

/-- From the word behind a domain on, the nested readers and the loop read the same. The loop has
read the clauses `before`, and has a round left for each of the variables. -/
theorem clauses_follow (hn : n ≤ n') {m : Nat} (hm : cs.length ≤ m) (before : List Clause)
    (hs : BehindDomain kind action cs s s') (honce : readsEachOnce σ kind action n cs s = true) :
    ∃ e t, (advance σ >>= fun _ => singleWithin σ n) s = .ok e t ∧ t.cursor.token = .eof ∧
      ∃ further r a t',
        repeatAtMost (· = .comma) (furtherClause σ (singleWithin σ n')) m before s' =
          .ok (further.reverse ++ before) r ∧
        (skip σ (actionToken kind) >>= fun _ => singleWithin σ n') r = .ok a t' ∧
        t'.cursor.token = .eof ∧
        (nestClauses 0 kind [] further a).outline id = e.outline id := by
  -- each variable takes a level from the nested reader and a round from the loop
  induction cs generalizing n m before s s' with
  | nil =>
      obtain ⟨e, t, hrun, hend⟩ := readsEachOnce_action honce
      obtain ⟨hword, hinside⟩ := hs.same
      have hshadows : ShadowsExpr .same (advance σ >>= fun _ => singleWithin σ n)
          (advance σ >>= fun _ => singleWithin σ n') s s' :=
        .bind_same .advance fun _ _ _ => (singleWithin_followed hn).shadows _ _
      obtain ⟨a, t', hrun', houtline, hbeside⟩ := (hshadows e t hrun).2 hs.beside not_false
      have hend' : t'.cursor.token = .eof := by
        rw [(hbeside.cursor.resolve_right id).2.1, hend]
      exact ⟨e, t, hrun, hend, [], s', a, t', repeatAtMost_stop (action_not_comma hword),
        (skip_bind hword).trans hrun', hend', houtline⟩
  | cons c cs ih =>
      obtain ⟨n, u, w, first, v, rfl, hu, hw, hfirst, htoken, hrest, honce'⟩ :=
        readsEachOnce_clause honce
      obtain ⟨d, hd, hkeyword, hbehind⟩ := advance_keyword (.inr rfl)
        (show s.cursor.rest = [' '] ++ _ from hs.rest)
        (by rw [hs.token]; exact precedesOperand_action kind)
      obtain rfl : { s with cursor := d } = u := by
        rw [advance_run hd] at hu
        cases hu
        rfl
      obtain ⟨-, rfl⟩ := descend_ok hw
      obtain ⟨hcomma, hbehind'⟩ := hs.comma
      obtain ⟨first', v', hfirst', houtline, hv⟩ := clause_follows
        { s with cursor := d, depth := s.depth + nestedCost } s' (Nat.le_of_succ_le hn) hbehind
        hbehind' hs.beside.scope hs.beside.nextId (Nat.le_add_right_of_le hs.beside.depth) hfirst
        htoken hrest
      obtain ⟨m, rfl⟩ := Nat.exists_eq_add_of_le' (Nat.le_trans (Nat.le_add_left 1 _) hm)
      obtain ⟨a, t, hrun, hend, further, r, a', t', hfurther, haction, hend', hnest⟩ :=
        ih (Nat.le_of_succ_le hn) (Nat.le_of_succ_le_succ hm) (first' :: before) hv honce'
      refine ⟨_, _, (bind_run hu).trans (binding_reads_single hkeyword hw hfirst htoken hrun), hend,
        first' :: further, r, a', t', ?_, haction, hend',
        outline_nestClauses_cons houtline hnest _ _⟩
      rw [repeatAtMost_round (decide_eq_true hcomma), bind_run (furtherClause_run before hfirst'),
        hfurther]
      simp

end Parse

/-! ### The whole source -/

open Parse

/-- A source that starts with a binding. -/
theorem Parser.advance_binding (kind : BindingKind) (c : ClauseText) (tail : List Char)
    (language : Language) (host : Resolver) (warnings : List String) :
    ∃ d, advance ⟨language, host⟩ (Parser.ofSource (String.ofList (kind.keyword.toList ++
        (c.text ++ tail))) 0 language host warnings).state = .ok () { cursor := d, warnings } ∧
      d.token = Expr.keywordToken kind ∧ d.rest = c.text ++ tail := by
  obtain ⟨d, hd, hkeyword, hbehind⟩ := advance_keyword (d := c) (.inl rfl)
    (show (Cursor.ofSource (String.ofList (kind.keyword.toList ++ (c.text ++ tail))) 0).rest = _
      by rw [ofSource_start]; rfl) Lexeme.precedesOperand_eof
  exact ⟨d, advance_run (s := (Parser.ofSource _ 0 language host warnings).state) hd, hkeyword,
    hbehind⟩

/-- When nested bindings of one variable each are read as an expression, and every domain and the
action are one single expression of it, the binding with the list of these variables is read, too.
The tree is the same but for offsets and the types of range variables: the bindings are nested in
the same order, have the same ids, and every reference goes to the same one. -/
theorem Parser.clauseList_outline_eq (kind : BindingKind) (c : ClauseText) (cs : List ClauseText)
    (action : String) (language : Language) (host : Resolver) (warnings : List String) {e : Expr}
    (hnested : ((Parser.ofSource (String.ofList (ClauseText.nested kind action (c :: cs))) 0
      language host warnings).expression .eof).1 = .ok e)
    (honce : readsEachOnce ⟨language, host⟩ kind action (maxDepth / nestedCost) (c :: cs)
      (Parser.ofSource (String.ofList (ClauseText.nested kind action (c :: cs))) 0
        language host warnings).state = true) :
    ∃ e', ((Parser.ofSource (String.ofList (ClauseText.list kind action c cs)) 0
        language host warnings).expression .eof).1 = .ok e' ∧
      e'.outline id = e.outline id := by
  obtain ⟨t, hcomplete⟩ := Parser.expression_ok hnested
  obtain ⟨n, u, w, first, v, hlevels, hu, hw, hfirst, htoken, hrest, honce'⟩ :=
    readsEachOnce_clause honce
  obtain ⟨d, hd, hkeyword, hbehind⟩ := Parser.advance_binding kind c
    (' ' :: (kind.actionWord.toList ++ ' ' :: ClauseText.nested kind action cs)) language host
    warnings
  obtain ⟨d', hd', hkeyword', hbehind'⟩ := Parser.advance_binding kind c
    (ClauseText.others kind action cs) language host warnings
  obtain rfl : { cursor := d, warnings } = u := (EStateM.Result.ok.inj (hd.symm.trans hu)).2
  obtain ⟨-, rfl⟩ := descend_ok hw
  -- the first variable stands behind the keyword in both texts
  obtain ⟨first', v', hfirst', houtline, hv⟩ := clause_follows
    { cursor := d, depth := 0 + nestedCost, warnings }
    { cursor := d', depth := 0 + nestedCost, warnings } (Nat.le_refl n) hbehind hbehind' rfl
    rfl (Nat.le_refl _) hfirst htoken hrest
  obtain ⟨a, r, hrun, hend, further, r', a', t', hfurther, haction, hend', hnest⟩ :=
    clauses_follow (Nat.le_refl n) (Nat.le_succ_of_le hv.length_le) [] hv honce'
  have hlevels' : single ⟨language, host⟩ = singleWithin ⟨language, host⟩ (n + 1) := by
    rw [single, hlevels]
  have hsingle := binding_reads_single hkeyword hw hfirst htoken hrun
  rw [← hlevels'] at hsingle
  have hdescend : 0 + nestedCost ≤ maxDepth := by decide
  have hlist := binding_reads (s := { cursor := d', warnings }) hkeyword' (descend_run hdescend)
    hfirst' (hfurther.trans (by rw [List.append_nil])) haction
  rw [← hlevels'] at hlist
  have hwhole := complete_run hu hsingle hend
  have hwhole' := Parser.expression_run (p := Parser.ofSource (String.ofList
    (ClauseText.list kind action c cs)) 0 language host warnings)
    (complete_run hd' hlist hend')
  refine ⟨_, congrArg Prod.fst hwhole', ?_⟩
  rw [(EStateM.Result.ok.inj (hcomplete.symm.trans hwhole)).1]
  exact outline_nestClauses_cons houtline hnest _ _

/-- A name twice, a reference to an earlier variable, and a binding within parentheses. -/
theorem Parser.clauseList_outline_eq_of_three_variables :
    ∃ e e', ((Parser.ofSource ("for $x in (1, 2) return for $y in ($x, for $z in $x return $z) " ++
        "return for $x in $y return $x + $y") 0 .expression ({} : StaticContext).resolver
        []).expression .eof).1 = .ok e ∧
      ((Parser.ofSource ("for $x in (1, 2), $y in ($x, for $z in $x return $z), $x in $y " ++
        "return $x + $y") 0 .expression ({} : StaticContext).resolver []).expression .eof).1 =
          .ok e' ∧
      e'.outline id = e.outline id := by
  let first : ClauseText := ⟨"x", "(1, 2)"⟩
  let further : List ClauseText := [⟨"y", "($x, for $z in $x return $z)"⟩, ⟨"x", "$y"⟩]
  have hnested : ("for $x in (1, 2) return for $y in ($x, for $z in $x return $z) " ++
      "return for $x in $y return $x + $y") =
        String.ofList (ClauseText.nested .forEach "$x + $y" (first :: further)) := by
    decide +kernel
  have hlist : ("for $x in (1, 2), $y in ($x, for $z in $x return $z), $x in $y " ++
      "return $x + $y") = String.ofList (ClauseText.list .forEach "$x + $y" first further) := by
    decide +kernel
  rw [hnested, hlist]
  obtain ⟨e, he⟩ := exists_of_isOk (r := ((Parser.ofSource (String.ofList
    (ClauseText.nested .forEach "$x + $y" (first :: further))) 0 .expression
      ({} : StaticContext).resolver []).expression .eof).1) (by decide +kernel)
  obtain ⟨e', he', houtline⟩ := Parser.clauseList_outline_eq .forEach first further "$x + $y"
    .expression ({} : StaticContext).resolver [] he (by decide +kernel)
  exact ⟨e, e', he, he', houtline⟩

end XPath
