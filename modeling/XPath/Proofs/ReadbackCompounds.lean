import XPath.Proofs.ReadbackPrimaries

/-!
# Expressions in parentheses read back

Paths, operations, conditionals, bindings and sequences are written in parentheses, so that each
of their parts is read as a whole however loosely it binds.
-/

namespace XPath

open Lexeme Parse

/-! ### Type operations as text -/

namespace TypeOperation

/-- The operator before the type. -/
def operator : TypeOperation → TypeOperator
  | instanceOf _ => .instanceOf
  | treatAs _ _ => .treatAs
  | castableAs _ => .castableAs
  | castAs _ => .castAs

/-- The type as it is written. -/
def target : TypeOperation → String
  | instanceOf type | treatAs type _ => type.render
  | castableAs type | castAs type => type.render

/-- No name in the type needs a qualifier. -/
def isLegible : TypeOperation → Bool
  | instanceOf type | treatAs type _ => type.item.isLegible
  | castableAs _ | castAs _ => true

theorem render_eq (op : TypeOperation) : op.render = op.operator.symbol ++ " " ++ op.target := by
  cases op <;> rfl

end TypeOperation

namespace Expr

attribute [local simp] render

variable {host : Resolver} {ids : Nat → Nat} {scope : List RangeVariable} {next n : Nat}
  {c d : Cursor} {t : Token} {tail rest : List Char} {e : Expr}

/-- An expression without commas, as what stands in parentheses. -/
theorem ReadFrom.expression (ht : t ≠ .comma)
    (h : e.ReadFrom host (singleWithin host.reader) d ids scope next t rest) :
    e.ReadFrom host (fun n => Parse.expression host.reader (singleWithin host.reader n)) d ids scope
      next t rest :=
  fun n s hs => Meets.expression ht (h n s hs)

/-- Operands and operators, as what stands in parentheses. -/
theorem ReadFrom.operators (hd : startsStep d.token = true ∨ (sign? d.token).isSome = true)
    (h : e.ReadFrom host (fun n => operatorExpression host.reader (singleWithin host.reader n)) d
      ids scope next .rightParen tail) :
    e.ReadFrom host (fun n => Parse.expression host.reader (singleWithin host.reader n)) d ids scope
      next .rightParen tail :=
  .expression (by simp) (.single hd h)

theorem ne_rightParen_of_startsStep (h : startsStep d.token = true) : d.token ≠ .rightParen := by
  intro hclose
  rw [hclose] at h
  cases h

/-! ### Paths -/

/-- A path is read back, where a root is no start that a separator follows. -/
theorem rereads_path {start step : Expr} (hstart : start.Rereads host) (hstep : step.Rereads host)
    (hroot : ∀ m, start ≠ root m) : (path n start step).Rereads host := by
  have hrender : (path n start step).render = "(" ++ start.render ++ "/" ++ step.render ++ ")" := by
    cases start with
    | root m => exact absurd rfl (hroot m)
    | _ => rfl
  refine .of_inside (start.render.toList ++ '/' :: step.render.toList) ⟨fun more => ?_, ?_⟩
    (by simp [hrender]) rfl
  · rw [List.append_assoc]
    exact (hstart.head _).1
  intro ids scope next hfits c tail hc hrest
  obtain ⟨hfitStart, hfitStep, hlength⟩ := hfits.two rfl rfl
  have hopen : StartsOperand c.token := by
    rw [hc]
    decide
  have htext : c.rest = [] ++ (start.render.toList ++ '/' :: (step.render.toList ++
      ')' :: tail)) := by
    rw [hrest]
    simp
  obtain ⟨d, hd, hstarts, hread⟩ := hstart.step hfitStart hopen (.inl rfl) htext
    (.slash (hstep.head _).2) (by simp)
  refine ⟨d, hd, ne_rightParen_of_startsStep hstarts, .operators (.inl hstarts) fun n s hs => ?_⟩
  have hstarts' : startsStep s.cursor.token = true := by
    rw [hs.cursor]
    exact hstarts
  refine Meets.operatorExpression rfl (Ends.signedPath (sign?_of_startsStep hstarts') ?_)
  refine .congr (.nesting (.bind (hread n s hs) fun start' u hback => ?_))
    (pathExpression_eq hstarts')
  have hslash : StartsOperand u.cursor.token := by
    rw [hback.place.token]
    decide
  obtain ⟨f, hf, -, hnext⟩ := hstep.step hfitStep hslash (.inl rfl) hback.place.rest (.close tail)
    (by simp)
  refine .repeatWhile (.round (by rw [hback.place.token]; rfl) ?_)
  refine .token hback.place.token ?_
  refine .offset ?_
  refine .descend ?_
  refine .advance hf ?_
  refine .bind (hnext n _ ((hback.place.depth _).move f)) fun step' v hback' => ?_
  refine .pure ⟨?_, .stop (by rw [hback'.place.token]; rfl) ⟨?_, ?_⟩⟩
  · rw [hback'.place.rest, hback.place.rest]
    simp only [List.length_append, List.length_cons]
    omega
  · rw [joinStep, if_neg (by simp)]
    simp [outline, hback.outline, hback'.outline]
  · rw [hlength, ← Nat.add_assoc]
    exact (hback'.place.depth _).depth _

/-! ### Operations -/

/-- An operation is read back in the parentheses that are written around it. -/
theorem rereads_binary {op : BinaryOperator} {left right : Expr} (hleft : left.Rereads host)
    (hright : right.Rereads host) : (binary n op left right).Rereads host := by
  refine .of_inside
    (left.render.toList ++ ' ' :: (op.symbol.toList ++ ' ' :: right.render.toList))
    ⟨fun more => ?_, ?_⟩ (by simp) rfl
  · rw [List.append_assoc]
    exact (hleft.head _).1
  intro ids scope next hfits c tail hc hrest
  obtain ⟨hfitLeft, hfitRight, hlength⟩ := hfits.two rfl rfl
  have hopen : StartsOperand c.token := by
    rw [hc]
    decide
  have htext : c.rest = [] ++ (left.render.toList ++ ' ' :: (op.symbol.toList ++ ' ' ::
      (right.render.toList ++ ')' :: tail))) := by
    rw [hrest]
    simp
  obtain ⟨d, hd, hstarts, hread⟩ := hleft.signedPath hfitLeft hopen (.inl rfl) htext
    (.operator op _) ⟨by simp, rfl⟩
  refine ⟨d, hd, ne_rightParen_of_startsStep hstarts, .operators (.inl hstarts) fun n s hs => ?_⟩
  refine .bind (hread n s hs) fun left' u hback => .nesting (.repeatWhile ?_)
  have hoperator : StartsOperand u.cursor.token := by
    rw [hback.place.token]
    exact (precedesOperand_operator op).startsOperand
  obtain ⟨f, hf, -, hnext⟩ := hright.signedPath hfitRight hoperator (.inr rfl) hback.place.rest
    (.close tail) (by decide)
  have hbinds : bindsFrom loosest u.cursor.token = true := by
    rw [hback.place.token]
    exact decide_eq_true op.loosest_le
  refine .round hbinds ?_
  refine .offset ?_
  refine .token hback.place.token ?_
  refine .descend ?_
  refine .advance hf ?_
  refine .bind (hnext n _ ((hback.place.depth _).move f)) fun right' v hback' => ?_
  have hends : ∀ least, bindsFrom least v.cursor.token = false := by
    intro least
    rw [hback'.place.token]
    rfl
  refine .bind (.repeatWhile_stop (Q := fun right w => right = right' ∧ w = v) (hends _)
    ⟨rfl, rfl⟩) ?_
  rintro _ _ ⟨rfl, rfl⟩
  refine .pure ⟨?_, .stop (hends _) ⟨?_, ?_⟩⟩
  · rw [hback'.place.rest, hback.place.rest]
    simp only [List.length_append, List.length_cons]
    omega
  · simp [outline, hback.outline, hback'.outline]
  · rw [hlength, ← Nat.add_assoc]
    exact hback'.place.depth _

theorem rereads_unary {sign : Sign} {operand : Expr} (hoperand : operand.Rereads host) :
    (unary n sign operand).Rereads host := by
  have hsymbol : sign.symbol.toList = [sign.char] := by cases sign <;> rfl
  refine .of_inside (sign.char :: operand.render.toList) ⟨fun more => ?_, ?_⟩
    (by simp [hsymbol]) rfl
  · cases sign <;> simp [Sign.char]
  intro ids scope next hfits c tail hc hrest
  have hfit : operand.Fits host ids scope next :=
    ⟨hfits.resolves.child rfl List.mem_cons_self, hfits.numbered⟩
  obtain ⟨d, hd, hsign, -, hbehind⟩ := Cursor.finds_sign sign hrest
  have hoperator : StartsOperand d.token := by
    rw [hsign]
    exact (precedesOperand_operator _).startsOperand
  obtain ⟨f, hf, hstarts, hread⟩ := hoperand.path hfit hoperator (.inl rfl) hbehind (.close tail)
    (by decide)
  have hsign? : sign? d.token = some sign := by rw [hsign, sign?_operator]
  refine ⟨d, hd, by rw [hsign]; simp, .operators (.inr (by rw [hsign?]; rfl)) fun n s hs => ?_⟩
  obtain rfl := hs.cursor
  refine Meets.operatorExpression rfl (.nesting ?_)
  have hsigns : Meets host.reader
      (repeatWhile (fun t => (sign? t).isSome) (Parse.sign host.reader) []) s fun signs u =>
        signs = [(sign, s.cursor.offset)] ∧
          StandsAt f (scope.map (RangeVariable.outline ids)) next u := by
    refine .repeatWhile ?_
    refine .round (by rw [hsign?]; rfl) ?_
    refine .token rfl ?_
    rw [hsign?]
    refine .descend ?_
    refine .offset ?_
    refine .advance hf ?_
    refine .pure ⟨?_, .stop ?_ ⟨rfl, (hs.depth _).move f⟩⟩
    · exact Cursor.rest_length_lt hf fun heof => by rw [heof] at hstarts; cases hstarts
    · revert hstarts
      cases f.token <;> simp [startsStep, sign?]
  refine .bind hsigns ?_
  rintro _ u ⟨rfl, hu⟩
  refine .bind (hread n u hu) fun operand' v hback => .pure ⟨?_, hback.place.depth _⟩
  simp [applySigns, outline, hback.outline]

/-! ### Types -/

/-- A cast that is not decided at once. -/
theorem cast_eq {start : Nat} {castable : Bool} {operand operand' : Expr} {type : SingleType}
    (htype : type.IsFormed operand) (hliteral : operand'.stringLiteral? = operand.stringLiteral?) :
    Parse.cast host.reader start castable operand' type =
      pure (.typed start (if castable then .castableAs type else .castAs type) operand') := by
  unfold Parse.cast
  split
  · next hqname htext =>
      rw [hliteral, htype.qname hqname] at htext
      cases htext
  · rfl

/-- A type operator before a closing parenthesis. -/
theorem typeOperation_meets (hhost : host.IsUsual) {op : TypeOperation} {start : Nat}
    {operand operand' : Expr} {s : ParseState} (hop : op.IsFormed host operand)
    (hlegible : op.isLegible = true) (htoken : s.cursor.token = .typeOperator op.operator)
    (hrest : s.cursor.rest = ' ' :: (op.target.toList ++ ')' :: tail))
    (hliteral : operand'.stringLiteral? = operand.stringLiteral?) :
    Meets host.reader (typeOperation host.reader op.operator start operand') s fun e u =>
      e = .typed start op operand' ∧ At .rightParen tail s.scope s.nextId u := by
  have hprecedes : PrecedesOperand s.cursor.token := by
    rw [htoken]
    exact precedesOperand_typeOperator _
  have hsingle : ∀ {type : SingleType} {castable : Bool}, type.IsFormed operand →
      s.cursor.rest = ' ' :: (type.render.toList ++ ')' :: tail) →
      Meets host.reader (do
        advance host.reader
        Parse.cast host.reader start castable operand' (← singleType host.reader)) s fun e u =>
          e = .typed start (if castable then .castableAs type else .castAs type) operand' ∧
            At .rightParen tail s.scope s.nextId u := by
    intro type castable htype hrest
    obtain ⟨d, hd, hread⟩ := singleType_written (σ := host.reader) hhost.schema
      htype.values hprecedes (.inr rfl) hrest (.close tail) (by decide)
    obtain ⟨e, he, hclose, hbehind⟩ := hread { s with cursor := d } rfl
    refine .advance hd (.run he ?_)
    rw [cast_eq htype hliteral]
    exact .pure ⟨rfl, hclose, hbehind, rfl, rfl⟩
  cases op with
  | instanceOf type =>
      obtain ⟨d, hd, hread⟩ := sequenceType_ends (σ := host.reader) hop
        (hhost.binds_item hlegible) hprecedes (.inr rfl) hrest (.close tail) rfl
      refine .advance hd (.bind (hread _ rfl) ?_)
      rintro type' u ⟨rfl, hu⟩
      exact .pure ⟨rfl, hu⟩
  | treatAs type code =>
      obtain ⟨htype, rfl⟩ := hop
      obtain ⟨d, hd, hread⟩ := sequenceType_ends (σ := host.reader) htype
        (hhost.binds_item hlegible) hprecedes (.inr rfl) hrest (.close tail) rfl
      refine .advance hd (.bind (hread _ rfl) ?_)
      rintro type' u ⟨rfl, hu⟩
      exact .pure ⟨rfl, hu⟩
  | castableAs type => exact hsingle hop hrest
  | castAs type => exact hsingle hop hrest

/-- A type operation is read back when its type is legible. -/
theorem rereads_typed (hhost : host.IsUsual) {op : TypeOperation} {operand : Expr}
    (hop : op.IsFormed host operand) (hlegible : op.isLegible = true)
    (hoperand : operand.Rereads host) : (typed n op operand).Rereads host := by
  refine .of_inside
    (operand.render.toList ++ ' ' :: (op.operator.symbol.toList ++ ' ' :: op.target.toList))
    ⟨fun more => ?_, ?_⟩ (by simp [op.render_eq]) rfl
  · rw [List.append_assoc]
    exact (hoperand.head _).1
  intro ids scope next hfits c tail hc hrest
  have hfit : operand.Fits host ids scope next :=
    ⟨hfits.resolves.child rfl List.mem_cons_self, hfits.numbered⟩
  have hopen : StartsOperand c.token := by
    rw [hc]
    decide
  have htext : c.rest = [] ++ (operand.render.toList ++ ' ' :: (op.operator.symbol.toList ++
      ' ' :: (op.target.toList ++ ')' :: tail))) := by
    rw [hrest]
    simp
  obtain ⟨d, hd, hstarts, hread⟩ := hoperand.signedPath hfit hopen (.inl rfl) htext
    (.typeOperator op.operator _) ⟨by simp, rfl⟩
  refine ⟨d, hd, ne_rightParen_of_startsStep hstarts, .operators (.inl hstarts) fun n s hs => ?_⟩
  refine .bind (hread n s hs) fun operand' u hback => .nesting (.repeatWhile ?_)
  have hbinds : bindsFrom loosest u.cursor.token = true := by
    rw [hback.place.token]
    exact decide_eq_true (Nat.le_trans (by decide) (Nat.le_of_lt op.operator.lt_precedence))
  refine .round hbinds ?_
  refine .offset ?_
  refine .token hback.place.token ?_
  refine .descend ?_
  refine .bind (typeOperation_meets hhost hop hlegible hback.place.token hback.place.rest
    (stringLiteral?_of_outline hback.outline)) ?_
  rintro _ v ⟨rfl, hv⟩
  have hend : endTypeOperation host.reader op.operator.precedence v = .ok () v := by
    unfold endTypeOperation
    rw [token_bind, hv.token]
    rfl
  refine .run hend (.pure ⟨?_, .stop (by rw [hv.token]; rfl) ⟨?_, ?_⟩⟩)
  · rw [hv.rest, hback.place.rest]
    simp only [List.length_append, List.length_cons]
    omega
  · simp [outline, hback.outline]
  · exact ⟨hv.token, hv.rest, hv.scope.trans hback.place.scope, hv.nextId.trans hback.place.nextId⟩

/-! ### Conditionals -/

theorem follows_then (cs : List Char) :
    Follows (' ' :: ("then".toList ++ ' ' :: cs)) .thenWord (' ' :: cs) :=
  .linkWord (by decide) rfl rfl cs

theorem follows_else (cs : List Char) :
    Follows (' ' :: ("else".toList ++ ' ' :: cs)) .elseWord (' ' :: cs) :=
  .linkWord (by decide) rfl rfl cs

theorem rereads_conditional {condition yes no : Expr} (hcondition : condition.Rereads host)
    (hyes : yes.Rereads host) (hno : no.Rereads host) :
    (conditional n condition yes no).Rereads host := by
  refine .of_inside ("if".toList ++ ([' '] ++ '(' :: (condition.render.toList ++ ')' :: ' ' ::
    ("then".toList ++ ' ' :: (yes.render.toList ++ ' ' :: ("else".toList ++ ' ' ::
      no.render.toList)))))) ⟨by simp, ?_⟩ (by simp) rfl
  intro ids scope next hfits c tail hc hrest
  have hnumbered : Numbered ids next (condition.readIds ++ (yes.readIds ++ no.readIds)) :=
    hfits.numbered
  obtain ⟨hcondition', hbranches⟩ := numbered_append.mp hnumbered
  obtain ⟨hyes', hno'⟩ := numbered_append.mp hbranches
  have hchild : ∀ e ∈ [condition, yes, no], e.Scoped host scope := fun e he =>
    hfits.resolves.child rfl he
  have hopen : StartsOperand c.token := by
    rw [hc]
    decide
  have htext : c.rest = [] ++ ("if".toList ++ ([' '] ++ '(' :: (condition.render.toList ++
      ')' :: (' ' :: ("then".toList ++ ' ' :: (yes.render.toList ++ ' ' :: ("else".toList ++
        ' ' :: (no.render.toList ++ ')' :: tail)))))))) := by
    rw [hrest]
    simp
  obtain ⟨d, hd, hif, -, hbehind⟩ := Cursor.finds_call (.inl rfl) (.inr rfl) htext
    (.simple (by decide)) hopen (by simp [hc]) (hcondition.head _).1
  rw [show Token.ofCallWord "if" = .ifWord from rfl] at hif
  have hstart : StartsOperand d.token := by
    rw [hif]
    decide
  obtain ⟨f, hf, -, hreadCondition⟩ := hcondition.expression ⟨hchild _ (by simp), hcondition'⟩
    hstart (.inl rfl) hbehind (.close _) (by decide)
  refine ⟨d, hd, by rw [hif]; simp, .expression (by simp) (Meets.single
    (fun e u depth hu => ⟨hu.outline, hu.place.depth _⟩) (p := Parse.conditional host.reader)
    (fun nested => by rw [hif]) fun m s hs => ?_)⟩
  obtain rfl := hs.cursor
  refine .offset ?_
  refine .advance hf ?_
  refine .bind (hreadCondition m _ (hs.move f)) fun condition' u hu => ?_
  -- the branches, each behind its word
  obtain ⟨g, hg, hthen, hrestThen⟩ :=
    (follows_then _).next u.cursor (by rw [hu.place.token]; rfl) hu.place.rest
  obtain ⟨k, hk, -, hreadYes⟩ := hyes.single ⟨hchild _ (by simp), hyes'⟩
    (by rw [hthen]; decide) (.inr rfl) hrestThen (follows_else _)
    (by decide)
  refine .skip hu.place.token hg (.skip hthen hk ?_)
  refine .bind (hreadYes m _ ((hu.place.move g).move k)) fun yes' v hv => ?_
  obtain ⟨l, hl, -, hreadNo⟩ := hno.single ⟨hchild _ (by simp), hno'⟩
    (by rw [hv.place.token]; decide) (.inr rfl) hv.place.rest (.close tail)
    (by decide)
  refine .skip hv.place.token hl (.bind (hreadNo m _ (hv.place.move l)) fun no' w hw => ?_)
  refine .pure ⟨?_, ?_⟩
  · simp [outline, hu.outline, hv.outline, hw.outline]
  · have hlength : next + (conditional n condition yes no).readIds.length =
        next + condition.readIds.length + yes.readIds.length + no.readIds.length := by
      simp only [readIds, List.length_append]
      omega
    rw [hlength]
    exact hw.place

/-! ### Bindings -/

theorem follows_in (cs : List Char) :
    Follows (' ' :: ("in".toList ++ ' ' :: cs)) .inWord (' ' :: cs) :=
  .linkWord (by decide) rfl rfl cs

theorem follows_action (kind : BindingKind) (cs : List Char) :
    Follows (' ' :: (kind.actionWord.toList ++ ' ' :: cs)) (actionToken kind) (' ' :: cs) := by
  cases kind <;> exact .linkWord (by decide) rfl rfl cs

/-- The first word of a binding tells its kind. -/
def keywordToken : BindingKind → Token
  | .forEach => .forWord
  | .someOf => .someWord
  | .everyOf => .everyWord

theorem bindingWord?_keyword (kind : BindingKind) :
    Token.bindingWord? kind.keyword = some (keywordToken kind) := by
  cases kind <;> rfl

/-- The variable of a binding and its domain, from the sign before its name on. -/
theorem clause_meets (hhost : host.IsUsual) {v : RangeVariable} {domain : Expr}
    (hname : v.name.IsName) (huri : v.name.uri = "") (hdomain : domain.Rereads host)
    (hfits : domain.Fits host ids scope next) (hid : ids v.id = next + domain.readIds.length)
    (hc : c.token = .dollar)
    (hrest : c.rest = v.name.render.toList ++ ' ' :: ("in".toList ++ ' ' ::
      (domain.render.toList ++ tail)))
    (htail : Follows tail t rest) (ht : EndsSingle t) (n : Nat) {s : ParseState}
    (hs : StandsAt c (scope.map (RangeVariable.outline ids)) next s) :
    Meets host.reader (clause host.reader (singleWithin host.reader n)) s fun clause u =>
      clause.bound = v.outline ids ∧ clause.domain.outline id = domain.outline ids ∧
        At t rest ((v :: scope).map (RangeVariable.outline ids))
          (next + domain.readIds.length + 1) u := by
  obtain rfl := hs.cursor
  obtain ⟨d, hd, hword, hvalue, hbehind⟩ := Cursor.finds_name (.inl rfl) hrest
    (ExpandedName.isWord_render hname (.inl huri)) (.inr (.inl hc)) (follows_in _).word
    (follows_in _).name
  obtain ⟨f, hf, hin, hbehind'⟩ := (follows_in _).next d (by rw [hword]; rfl) hbehind
  obtain ⟨g, hg, -, hread⟩ := hdomain.single hfits (by rw [hin]; decide)
    (.inr rfl) hbehind' htail ht
  refine .skip hc hd ?_
  refine .expect hword ?_
  refine .value hvalue ?_
  refine .run (expandName_render hhost.elements hname (.inl huri) false _) ?_
  refine .advance hf ?_
  refine .skip hin hg ?_
  refine .bind (hread n _ (hs.move g)) fun domain' u hback => ?_
  have hv : (⟨u.nextId, v.name, .singleItem⟩ : RangeVariable) = v.outline ids := by
    rw [hback.place.nextId, ← hid]
    rfl
  refine .run (a := ⟨u.nextId, v.name, .singleItem⟩)
    (t := { u with scope := ⟨u.nextId, v.name, .singleItem⟩ :: u.scope, nextId := u.nextId + 1 })
    rfl (.pure ⟨hv, hback.outline, hback.place.token, hback.place.rest, ?_, ?_⟩)
  · show _ :: u.scope = _
    rw [hv, hback.place.scope]
    rfl
  · show u.nextId + 1 = _
    rw [hback.place.nextId]

/-- A binding is read back with a new variable, in the scope of which the action is. -/
theorem rereads_binding (hhost : host.IsUsual) {kind : BindingKind} {v : RangeVariable}
    {domain action : Expr} (hname : v.name.IsName) (huri : v.name.uri = "")
    (hdomain : domain.Rereads host) (haction : action.Rereads host) :
    (binding n kind v domain action).Rereads host := by
  have hkeyword : isNCName kind.keyword.toList = true := by cases kind <;> decide
  refine .of_inside (kind.keyword.toList ++ ' ' :: '$' :: (v.name.render.toList ++ ' ' ::
    ("in".toList ++ ' ' :: (domain.render.toList ++ ' ' :: (kind.actionWord.toList ++ ' ' ::
      action.render.toList))))) ⟨fun more => ?_, ?_⟩ (by simp) rfl
  · rw [List.append_assoc]
    exact (IsWord.simple hkeyword).head?_ne rfl _
  intro ids scope next hfits c tail hc hrest
  have hnumbered : Numbered ids next (domain.readIds ++ v.id :: action.readIds) := hfits.numbered
  obtain ⟨hdomain', hbound⟩ := numbered_append.mp hnumbered
  obtain ⟨hid, haction'⟩ := numbered_cons.mp hbound
  have hprecedes : PrecedesOperand c.token := by
    rw [hc]
    decide
  have htext : c.rest = [] ++ (kind.keyword.toList ++ ' ' :: '$' :: (v.name.render.toList ++
      ' ' :: ("in".toList ++ ' ' :: (domain.render.toList ++ ' ' :: (kind.actionWord.toList ++
        ' ' :: (action.render.toList ++ ')' :: tail)))))) := by
    rw [hrest]
    simp
  obtain ⟨d, hd, hword, -, hbehind⟩ := Cursor.finds_bindingWord (.inl rfl) htext
    (.simple hkeyword) (bindingWord?_keyword kind) hprecedes
  obtain ⟨f, hf, hdollar, -, hbehind'⟩ := Cursor.finds_dollar (.inr rfl)
    (show d.rest = [' '] ++ '$' :: _ from hbehind)
  refine ⟨d, hd, by rw [hword]; cases kind <;> simp [keywordToken], .expression (by simp)
    (Meets.single (fun e u depth hu => ⟨hu.outline, hu.place.depth _⟩)
      (p := fun nested => Parse.bindingExpression host.reader nested kind)
      (fun nested => by rw [hword]; cases kind <;> rfl) fun m s hs => ?_)⟩
  obtain rfl := hs.cursor
  have hends : EndsSingle (actionToken kind) ∧ StartsOperand (actionToken kind) ∧
      actionToken kind ≠ .comma := by
    cases kind <;> simp [EndsSingle, EndsPath, StartsOperand, actionToken, isSeparator,
      Token.precedence?, Token.endsOperand]
  refine .offset (.bind (Q := fun parts u => ∃ domain', parts.1 = [⟨v.outline ids, domain'⟩] ∧
    domain'.outline id = domain.outline ids ∧ parts.2.outline id = action.outline ids ∧
      At .rightParen tail (scope.map (RangeVariable.outline ids))
        (next + domain.readIds.length + 1 + action.readIds.length) u) (.binding ?_) ?_)
  · refine .advance hf (.bind (.commaSeparated ((clause_meets hhost hname huri hdomain
      ⟨hfits.resolves.domain, hdomain'⟩ hid hdollar hbehind' (follows_action kind _) hends.1 m
      (hs.move f)).mono fun clause u hu => ⟨hu, by rw [hu.2.2.token]; exact hends.2.2⟩)) ?_)
    rintro _ u ⟨⟨bound, domain'⟩, rfl, hv, hdomain', hu⟩
    obtain rfl : bound = v.outline ids := hv
    obtain ⟨g, hg, -, hread⟩ := haction.single ⟨hfits.resolves.action, haction'⟩
      (by rw [hu.token]; exact hends.2.1) (.inr rfl) hu.rest (.close tail)
      (by decide)
    refine .skip hu.token hg (.bind (hread m _ (hu.move g)) fun action' w hback => ?_)
    exact .pure ⟨domain', rfl, hdomain', hback.outline, hback.place.token, hback.place.rest,
      hs.scope, hback.place.nextId⟩
  · rintro ⟨_, action'⟩ u ⟨domain', rfl, hdomain', haction', hu⟩
    refine .pure ⟨?_, ?_⟩
    · rw [nestClauses, nestClauses, outline, outline, outline_withTypes, outline_withTypes,
        hdomain', haction']
      rfl
    · have hlength : next + (binding n kind v domain action).readIds.length =
          next + domain.readIds.length + 1 + action.readIds.length := by
        simp only [readIds, List.length_append, List.length_cons]
        omega
      rw [hlength]
      exact hu

/-! ### Sequences -/

/-- A row is read back member by member. -/
theorem rereads_sequence {items : List Expr} (hlength : 2 ≤ items.length)
    (hitems : ∀ e ∈ items, e.Rereads host) : (sequence n items).Rereads host := by
  obtain ⟨first, others, rfl⟩ := List.exists_cons_of_length_pos (Nat.zero_lt_of_lt hlength)
  refine .of_inside (renderList (first :: others)).toList ⟨fun more => ?_, ?_⟩ (by simp) rfl
  · rw [renderList, String.toList_append, List.append_assoc]
    exact ((hitems first List.mem_cons_self).head _).1
  intro ids scope next hfits c tail hc hrest
  have hall : FitAll host ids scope next (first :: others) :=
    ⟨fun e he => hfits.resolves.child rfl he, hfits.numbered⟩
  have hopen : StartsOperand c.token := by
    rw [hc]
    decide
  obtain ⟨d, hd, hstarts, hread⟩ :=
    readRow hitems hall hopen (.inl rfl) hrest (.close tail) (by decide)
  refine ⟨d, hd, ne_rightParen_of_startsStep hstarts, fun m s hs => ?_⟩
  refine .offset (.bind (hread m s hs) fun items' u hback => ?_)
  have hlength' : items'.length = (first :: others).length := by
    simpa using congrArg List.length hback.outline
  rcases items' with _ | ⟨e, _ | ⟨e', es⟩⟩
  · rw [← hlength'] at hlength
    exact absurd hlength (by simp)
  · rw [← hlength'] at hlength
    exact absurd hlength (by simp)
  · refine .pure ⟨?_, hback.place⟩
    rw [outline, outline, outlineAll_eq_map, outlineAll_eq_map, hback.outline]

end Expr

end XPath
