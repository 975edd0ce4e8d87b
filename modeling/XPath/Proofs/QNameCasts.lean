import XPath.Proofs.Alone
import XPath.Proofs.ReadbackPrimaries

/-!
# Casts to names

The cast of a string literal to a name is decided while it is read. It is written as a cast, with
or without a question mark, or as a call of the constructor of names, and the question whether it
would succeed as a test. All of them ask the same of the text between the quotes
(`readExpression_cast`, `readExpression_constructor`), and what that comes to is told by its form
and by the declared qualifiers alone (`readExpression_casts_agree`).
-/

namespace XPath

open Lexeme Parse

/-! ### What a text means as a name -/

/-- The text is one name, or two with a colon between them. -/
inductive IsLexicalQName : String → Prop
  | unqualified {localName : String} : isNCName localName.toList = true → IsLexicalQName localName
  | qualified {qualifier localName : String} : isNCName qualifier.toList = true →
      isNCName localName.toList = true → IsLexicalQName (qualifier ++ ":" ++ localName)

/-- The text means a name in the context: one name takes the element namespace, and of two the
first has to be declared. -/
inductive StaticContext.MeansQName (context : StaticContext) : String → Literal → Prop
  | unqualified {localName : String} : isNCName localName.toList = true →
      MeansQName context localName
        (.qname none (.inNamespace context.elementNamespace localName))
  | qualified {qualifier localName uri : String} : isNCName qualifier.toList = true →
      isNCName localName.toList = true → context.namespaceOf qualifier = .ok uri →
      MeansQName context (qualifier ++ ":" ++ localName) (.qname (some qualifier) ⟨uri, localName⟩)

theorem StaticContext.MeansQName.isLexicalQName {context : StaticContext} {text : String}
    {literal : Literal} (h : context.MeansQName text literal) : IsLexicalQName text := by
  cases h with
  | unqualified hlocal => exact .unqualified hlocal
  | qualified hqualifier hlocal _ => exact .qualified hqualifier hlocal

theorem LexicalQName.parse?_isSome_iff {text : String} :
    (parse? text).isSome = true ↔ IsLexicalQName text := by
  constructor
  · intro h
    obtain ⟨n, hn⟩ := Option.isSome_iff_exists.mp h
    obtain ⟨hlocal, hparts⟩ := parse?_spec hn
    rcases hparts with ⟨-, rfl⟩ | ⟨hqualifier, rfl⟩
    · exact .unqualified hlocal
    · exact .qualified hqualifier hlocal
  · intro h
    cases h with
    | unqualified hlocal => rw [parse?_unqualified hlocal]; rfl
    | qualified hqualifier hlocal => rw [parse?_qualified hqualifier hlocal]; rfl

namespace StaticContext

variable {context : StaticContext} {text : String} {literal : Literal}

theorem qnameLiteral_eq_ok_iff :
    qnameLiteral context.resolver text = .ok literal ↔
      context.MeansQName (Text.trimBlanks text) literal := by
  unfold qnameLiteral
  dsimp only
  constructor
  · intro h
    split at h
    · cases h
    · next n hn =>
        obtain ⟨hlocal, hparts⟩ := parse?_spec hn
        rcases hparts with ⟨hnone, htext⟩ | ⟨hqualifier, htext⟩
        · rw [if_pos hnone] at h
          cases h
          rw [htext]
          exact .unqualified hlocal
        · have hne : n.qualifier ≠ "" := by
            intro hnone
            rw [hnone] at hqualifier
            cases hqualifier
          rw [if_neg hne] at h
          split at h
          · next uri huri =>
              cases h
              rw [htext]
              exact .qualified hqualifier hlocal huri
          · cases h
  · intro h
    generalize Text.trimBlanks text = trimmed at h ⊢
    cases h with
    | unqualified hlocal => rw [parse?_unqualified hlocal]; rfl
    | @qualified qualifier localName uri hqualifier hlocal huri =>
        have hne : qualifier ≠ "" := by
          rintro rfl
          cases hqualifier
        rw [parse?_qualified hqualifier hlocal]
        dsimp only
        rw [if_neg hne, show context.resolver.namespaceOf qualifier = .ok uri from huri]

/-- What is wrong with a text that means no name. -/
theorem qnameLiteral_eq_error {f : Fault} (h : qnameLiteral context.resolver text = .error f) :
    f.ownCode? = some .FONS0004 ∧ IsLexicalQName (Text.trimBlanks text) ∨
      f.ownCode? = some .FORG0001 ∧ ¬IsLexicalQName (Text.trimBlanks text) := by
  unfold qnameLiteral at h
  dsimp only at h
  split at h
  · next hparse =>
      cases h
      refine .inr ⟨rfl, ?_⟩
      rw [← LexicalQName.parse?_isSome_iff, hparse]
      simp
  · next n hparse =>
      have hform : IsLexicalQName (Text.trimBlanks text) := by
        rw [← LexicalQName.parse?_isSome_iff, hparse]
        rfl
      split at h
      · cases h
      · split at h
        · cases h
        · cases h
          exact .inl ⟨rfl, hform⟩

end StaticContext

/-! ### What a decided reading comes to -/

/-- What a reading comes to that is decided: a literal, or a fault at some place. -/
inductive Decides : Except Fault Literal → Except Error Expr → Prop
  | literal (n : Nat) (value : Literal) : Decides (.ok value) (.ok (.literal n value))
  | fault (f : Fault) (location : String) :
      Decides (.error f) (.error { f.error .expression with location := some location })

theorem Decides.of_ok {value : Literal} {r : Except Error Expr} (h : Decides (.ok value) r) :
    ∃ n, r = .ok (.literal n value) := by
  cases h with
  | literal n value => exact ⟨n, rfl⟩

theorem Decides.of_error {f : Fault} {r : Except Error Expr} (h : Decides (.error f) r) :
    ∃ location, r = .error { f.error .expression with location := some location } := by
  cases h with
  | fault f location => exact ⟨location, rfl⟩

namespace Parse

variable {host : Resolver} {outcome : Except Fault Literal} {nested : Parse Expr} {s : ParseState}

/-- A literal, or a fault. -/
def decided (host : Resolver) (start : Nat) (outcome : Except Fault Literal) : Parse Expr :=
  match outcome with
  | .ok literal => pure (.literal start literal)
  | .error f => reject host.reader f

theorem decided_leaves (start : Nat) :
    Leaves host (outcome = .error ·) (decided host start outcome) s fun e d =>
      (∃ n literal, outcome = .ok literal ∧ e = .literal n literal) ∧ d = s.cursor := by
  cases outcome with
  | ok literal => exact .of_run (d := s.cursor) rfl ⟨⟨start, literal, rfl, rfl⟩, rfl⟩
  | error f => exact Ends.reject rfl

theorem Leaves.decides {source : String} {warnings : List String} {d : Cursor}
    (hd : (Cursor.ofSource source 0).advance = (.ok (), d))
    (h : ∀ s : ParseState, s.cursor = d → s.depth = 0 →
      Leaves host (outcome = .error ·) (Parse.single host.reader) s fun e d =>
        (∃ n literal, outcome = .ok literal ∧ e = .literal n literal) ∧ d.token = .eof) :
    Decides outcome (XPath.readExpression source host warnings).outcome := by
  rcases Leaves.readExpression warnings hd h fun e d hQ => hQ.2 with
    ⟨e, d, hread, ⟨n, literal, houtcome, rfl⟩, -⟩ | ⟨f, location, houtcome, hread⟩
  · rw [houtcome, hread]
    exact .literal n literal
  · rw [houtcome, hread]
    exact .fault f location

/-! ### String literals -/

variable {F : Fault → Prop} {quote : Char} {value tail rest : List Char} {t : Token}

/-- A string literal is all of the operand that it starts. -/
theorem string_leaves (htoken : s.cursor.token = .stringLiteral)
    (hvalue : s.cursor.value = String.ofList value) (hrest : s.cursor.rest = tail)
    (htail : Follows tail t rest) (ht : EndsPath t) :
    Leaves host F (signedPath host.reader nested) s fun e d =>
      (∃ n, e = .literal n (.string (String.ofList value))) ∧ d.token = t ∧ d.rest = rest := by
  have hstarts : startsStep s.cursor.token = true := by
    rw [htoken]
    rfl
  obtain ⟨d, hd, hnext, hbehind⟩ := htail.next s.cursor (by rw [htoken]; rfl) hrest
  refine .signedPath (Expr.sign?_of_startsStep hstarts) (.congr ?_ (Expr.pathExpression_eq hstarts))
  refine .relativePath (fun startsPattern => ?_) ?_
  · refine .token htoken ?_
    refine .value hvalue ?_
    refine .offset ?_
    refine .advance hd ?_
    exact .pure ⟨d, rfl, ⟨_, rfl⟩, hnext, hbehind⟩
  · rintro e d ⟨⟨n, rfl⟩, htoken, -⟩
    exact ⟨htoken ▸ ht, rfl⟩

/-! ### Casts -/

/-- What a cast of a string to a name comes to, or the question whether it would succeed. -/
def castOutcome (host : Resolver) (castable : Bool) (text : String) : Except Fault Literal :=
  if castable then .ok (.boolean (qnameLiteral host text).isOk) else qnameLiteral host text

theorem castOutcome_false {text : String} : castOutcome host false text = qnameLiteral host text :=
  if_neg Bool.false_ne_true

theorem castOutcome_true {text : String} :
    castOutcome host true text = .ok (.boolean (qnameLiteral host text).isOk) :=
  if_pos rfl

theorem cast_eq_decided (start n : Nat) (castable optional : Bool) (text : String) :
    cast host.reader start castable (.literal n (.string text)) ⟨.qname, optional⟩ =
      decided host start (castOutcome host castable text) := by
  unfold cast castOutcome decided
  cases castable with
  | true => rfl
  | false =>
      simp only [Expr.stringLiteral?, Bool.false_eq_true, if_false]
      cases qnameLiteral host text with
      | ok literal => rfl
      | error f => rfl

/-- The operator of a cast, or of the question whether it would succeed. -/
def castOperator (castable : Bool) : TypeOperator :=
  if castable then .castableAs else .castAs

theorem endTypeOperation_stop {precedence : Nat} (h : s.cursor.token.precedence? = none) :
    endTypeOperation host.reader precedence s = .ok () s := by
  unfold endTypeOperation
  rw [token_bind, h]
  rfl

/-- A cast of a string to a name that ends the source. -/
theorem typeOperation_leaves {start n : Nat} {castable optional : Bool} {text : String}
    (hxs : host.namespaceOf "xs" = .ok Namespace.schema)
    (htoken : s.cursor.token = .typeOperator (castOperator castable))
    (hrest : s.cursor.rest = ' ' :: (SingleType.render ⟨.qname, optional⟩).toList) :
    Leaves host (castOutcome host castable text = .error ·)
      (typeOperation host.reader (castOperator castable) start (.literal n (.string text))) s
      fun e d => (∃ n literal, castOutcome host castable text = .ok literal ∧
        e = .literal n literal) ∧ d.token = .eof ∧ d.rest = [] := by
  have hprecedes : PrecedesOperand s.cursor.token := by
    rw [htoken]
    exact precedesOperand_typeOperator _
  have hsplit : s.cursor.rest = [' '] ++ ((SingleType.render ⟨.qname, optional⟩).toList ++ []) := by
    rw [hrest, List.append_nil]
    rfl
  obtain ⟨c, hc, hread⟩ := singleType_written (σ := host.reader) hxs (by rfl) hprecedes (.inr rfl)
    hsplit .nil (by simp)
  obtain ⟨d, hd, heof, hend⟩ := hread { s with cursor := c } rfl
  have hcast : Leaves host (castOutcome host castable text = .error ·) (do
      advance host.reader
      cast host.reader start castable (.literal n (.string text)) (← singleType host.reader)) s
      fun e d => (∃ n literal, castOutcome host castable text = .ok literal ∧
        e = .literal n literal) ∧ d.token = .eof ∧ d.rest = [] := by
    refine .advance hc (.run hd ?_)
    rw [cast_eq_decided]
    refine Ends.mono (decided_leaves start) ?_
    rintro e u ⟨f, rfl, he, hf⟩
    obtain rfl : f = d := hf
    exact ⟨f, rfl, he, heof, hend⟩
  cases castable with
  | true => exact hcast
  | false => exact hcast

/-- The cast as the only operation of a source. -/
theorem cast_leaves {castable optional : Bool}
    (hxs : host.namespaceOf "xs" = .ok Namespace.schema) (hlevels : s.depth + 1 ≤ maxDepth)
    (htoken : s.cursor.token = .stringLiteral) (hvalue : s.cursor.value = String.ofList value)
    (hrest : s.cursor.rest = ' ' :: ((castOperator castable).symbol.toList ++
      ' ' :: (SingleType.render ⟨.qname, optional⟩).toList)) :
    Leaves host (castOutcome host castable (String.ofList value) = .error ·)
      (operatorExpression host.reader nested) s fun e d =>
        (∃ n literal, castOutcome host castable (String.ofList value) = .ok literal ∧
          e = .literal n literal) ∧ d.token = .eof := by
  have hfollows := Follows.typeOperator (castOperator castable)
    (SingleType.render ⟨.qname, optional⟩).toList
  refine .operators
    (string_leaves htoken hvalue hrest hfollows (by simp [EndsPath, isSeparator])) ?_
  rintro _ d ⟨⟨n, rfl⟩, hd, hbehind⟩
  refine .nesting ?_
  refine .repeatWhile ?_
  refine .round ?_ ?_
  · show bindsFrom loosest d.token = true
    rw [hd]
    cases castable <;> rfl
  -- one round, since the cast ends the source
  · refine .offset ?_
    refine .token hd ?_
    refine .descend_within hlevels ?_
    refine .bind (typeOperation_leaves hxs hd hbehind) ?_
    rintro e u ⟨f, rfl, he, heof, hend⟩
    have hnone : f.token.precedence? = none := by
      rw [heof]
      rfl
    refine .run (endTypeOperation_stop hnone) (.pure ⟨?_, .stop ?_ ⟨f, _, rfl, he, heof⟩⟩)
    · show f.rest.length < d.rest.length
      rw [hend, hbehind]
      exact Nat.succ_pos _
    · show bindsFrom loosest f.token = false
      rw [bindsFrom, hnone]
      rfl

/-! ### Calls of the constructor -/

/-- What the constructor of names comes to, applied to a string. -/
theorem knownCall_eq_decided (start n : Nat) (text : String) :
    knownCall host.reader start Expr.qnameConstructor [.literal n (.string text)] =
      decided host start (qnameLiteral host text) := by
  have hliteral : ([.literal n (.string text)] : List Expr).head?.bind Expr.stringLiteral? =
      some text := rfl
  cases houtcome : qnameLiteral host text with
  | ok literal => simp only [knownCall, decided, hliteral, Expr.qnameConstructor, houtcome]
  | error f => simp only [knownCall, decided, hliteral, Expr.qnameConstructor, houtcome]

/-- A string as the only argument of a call that ends the source. -/
theorem stringArgument_ends {levels : Nat} (hquote : quote = '"' ∨ quote = '\'')
    (hlevels : s.depth + nestedCost ≤ maxDepth)
    (hrest : s.cursor.rest = quoted quote value ++ [')']) :
    ∃ c, s.cursor.advance = (.ok (), c) ∧
      Ends host.reader F (arguments host.reader (singleWithin host.reader (levels + 1)))
        { s with cursor := c } fun args u => ∃ d n, u = { s with cursor := d } ∧
          args = [.literal n (.string (String.ofList value))] ∧ d.token = .eof := by
  have hends : ([')'] : List Char).head? ≠ some quote := by
    rcases hquote with rfl | rfl <;> simp
  obtain ⟨c, hc, hstring, htext, hbehind⟩ := Cursor.finds_string hquote (.inl rfl) hrest hends
  let Q : Expr → Cursor → Prop := fun e d =>
    (∃ n, e = .literal n (.string (String.ofList value))) ∧ d.token = .rightParen ∧ d.rest = []
  have hsingle :
      Leaves host F (singleWithin host.reader (levels + 1)) { s with cursor := c } Q := by
    refine .single hlevels (startsOperators_of_startsStep ?_) (.operatorExpression
      (string_leaves hstring htext hbehind (.close []) (by decide)) ?_)
    · rw [show ({ s with cursor := c } : ParseState).cursor.token = .stringLiteral from hstring]
      rfl
    · rintro e d ⟨-, hclose, -⟩
      rw [hclose]
      rfl
  refine ⟨c, hc, .token hstring ?_⟩
  rw [if_neg (by simp)]
  refine .bind (hsingle.commaSeparated ?_) ?_
  · rintro e d ⟨-, hclose, -⟩
    rw [hclose]
    simp
  · rintro args u ⟨e, d, rfl, rfl, ⟨n, rfl⟩, hclose, hend⟩
    obtain ⟨f, hf, heof, -⟩ := Follows.nil.next d (by rw [hclose]; rfl) hend
    exact .skip hclose hf (.pure ⟨f, n, rfl, rfl, heof⟩)

/-- The call as the only operand of a source. -/
theorem constructor_leaves (hquote : quote = '"' ∨ quote = '\'')
    (hxs : host.namespaceOf "xs" = .ok Namespace.schema)
    (hbind : host.bind? Expr.qnameConstructor.name 1 = .ok (some Expr.qnameConstructor))
    {levels : Nat} (hlevels : s.depth + nestedCost ≤ maxDepth) (htoken : s.cursor.token = .function)
    (hvalue : s.cursor.value = "xs:QName")
    (hrest : s.cursor.rest = quoted quote value ++ [')']) :
    Leaves host (qnameLiteral host (String.ofList value) = .error ·)
      (operatorExpression host.reader (singleWithin host.reader (levels + 1))) s fun e d =>
        (∃ n literal, qnameLiteral host (String.ofList value) = .ok literal ∧
          e = .literal n literal) ∧ d.token = .eof := by
  have hstarts : startsStep s.cursor.token = true := by
    rw [htoken]
    rfl
  have hname : functionName host.reader "xs:QName" s = .ok Expr.qnameConstructor.name s :=
    functionName_render (σ := host.reader) (n := Expr.qnameConstructor.name) (q := "xs")
      (isNCName_localName .qname) rfl hxs s
  have hsign := Expr.sign?_of_startsStep hstarts
  refine .operatorExpression (.signedPath hsign ?_) ?_
  refine .congr (.relativePath (fun startsPattern => ?_) ?_) (Expr.pathExpression_eq hstarts)
  · obtain ⟨c, hc, harguments⟩ := stringArgument_ends
      (F := (qnameLiteral host (String.ofList value) = .error ·)) hquote hlevels hrest
    refine .token htoken ?_
    refine .offset ?_
    refine .value hvalue ?_
    refine .run hname ?_
    refine .advance hc ?_
    refine .bind harguments ?_
    rintro args u ⟨d, n, rfl, rfl, heof⟩
    have hask : ask host.reader (host.bind? Expr.qnameConstructor.name 1) { s with cursor := d } =
        .ok (some Expr.qnameConstructor) { s with cursor := d } := by
      rw [hbind]
      rfl
    refine .run hask ?_
    dsimp only
    rw [knownCall_eq_decided]
    refine Ends.mono (decided_leaves _) ?_
    rintro e u ⟨f, rfl, he, hf⟩
    obtain rfl : f = d := hf
    exact ⟨f, rfl, he, heof⟩
  · rintro e d ⟨⟨n, literal, -, rfl⟩, heof⟩
    rw [heof]
    exact ⟨by decide, rfl⟩
  · rintro e d ⟨-, heof⟩
    rw [heof]
    rfl

end Parse

/-! ### Whole sources -/

section Sources

variable {host : Resolver} {quote : Char} {value : List Char} {warnings : List String}

theorem Cursor.rest_ofSource (source : String) : (ofSource source 0).rest = source.toList := by
  rw [ofSource_zero]

theorem Cursor.token_ofSource (source : String) : (ofSource source 0).token = .eof := by
  rw [ofSource_zero]

/-- A cast of a string to a name, or the question whether it would succeed. -/
theorem readExpression_cast {source : String} {castable optional : Bool}
    (hquote : quote = '"' ∨ quote = '\'') (hxs : host.namespaceOf "xs" = .ok Namespace.schema)
    (hsource : source.toList = quoted quote value ++ ' ' ::
      ((castOperator castable).symbol.toList ++
        ' ' :: (SingleType.render ⟨.qname, optional⟩).toList)) :
    Decides (castOutcome host castable (String.ofList value))
      (readExpression source host warnings).outcome := by
  let tail := ' ' :: ((castOperator castable).symbol.toList ++
    ' ' :: (SingleType.render ⟨.qname, optional⟩).toList)
  have hrest : (Cursor.ofSource source 0).rest = [] ++ (quoted quote value ++ tail) :=
    (Cursor.rest_ofSource source).trans hsource
  have hends : tail.head? ≠ some quote := by
    rcases hquote with rfl | rfl <;> simp [tail]
  obtain ⟨d, hd, htoken, hvalue, hbehind⟩ := Cursor.finds_string hquote (.inl rfl) hrest hends
  refine Leaves.decides hd fun s hs hdepth => ?_
  obtain rfl := hs
  refine .single (by rw [hdepth]; decide) (startsOperators_of_startsStep (by rw [htoken]; rfl)) ?_
  refine cast_leaves hxs ?_ htoken hvalue hbehind
  show s.depth + nestedCost + 1 ≤ maxDepth
  rw [hdepth]
  decide

/-- The name of the constructor and the parenthesis behind it are one token. -/
theorem finds_constructor {source : String} {rest : List Char}
    (hsource : source.toList = "xs:QName".toList ++ '(' :: rest) (hcolon : rest.head? ≠ some ':') :
    (Cursor.ofSource source 0).Finds .function "xs:QName" rest := by
  have heof := Cursor.token_ofSource source
  have hstarts : StartsOperand (Cursor.ofSource source 0).token := by
    rw [heof]
    decide
  have hword : IsWord "xs:QName".toList := ExpandedName.isWord_render
    (n := Expr.qnameConstructor.name) (isNCName_localName .qname) (.inr ⟨"xs", rfl⟩)
  have hfunction : Token.ofCallWord "xs:QName" = .function := (Expr.notKeyword (by decide)).1
  have hrest : (Cursor.ofSource source 0).rest = [] ++ ("xs:QName".toList ++ ([] ++ '(' :: rest)) :=
    (Cursor.rest_ofSource source).trans hsource
  have hcall := Cursor.finds_call (.inl rfl) (.inl rfl) hrest hword hstarts
    (fun hslash => by rw [heof] at hslash; cases hslash) hcolon
  rwa [hfunction] at hcall

/-- A call of the constructor of names with a string. -/
theorem readExpression_constructor {source : String} (hquote : quote = '"' ∨ quote = '\'')
    (hxs : host.namespaceOf "xs" = .ok Namespace.schema)
    (hbind : host.bind? Expr.qnameConstructor.name 1 = .ok (some Expr.qnameConstructor))
    (hsource : source.toList = "xs:QName".toList ++ '(' :: (quoted quote value ++ [')'])) :
    Decides (qnameLiteral host (String.ofList value))
      (readExpression source host warnings).outcome := by
  have hcolon : (quoted quote value ++ [')']).head? ≠ some ':' := by
    rcases hquote with rfl | rfl <;> simp [quoted]
  obtain ⟨d, hd, htoken, hvalue, hbehind⟩ := finds_constructor hsource hcolon
  refine Leaves.decides hd fun s hs hdepth => ?_
  obtain rfl := hs
  refine .single (by rw [hdepth]; decide) (startsOperators_of_startsStep (by rw [htoken]; rfl)) ?_
  refine constructor_leaves hquote hxs hbind ?_ htoken hvalue hbehind
  show s.depth + nestedCost + nestedCost ≤ maxDepth
  rw [hdepth]
  decide

/-- What the casts of a quoted text to a name come to, and the questions whether they would
succeed. -/
theorem readExpression_casts_decided (hquote : quote = '"' ∨ quote = '\'')
    (hxs : host.namespaceOf "xs" = .ok Namespace.schema)
    (hbind : host.bind? Expr.qnameConstructor.name 1 = .ok (some Expr.qnameConstructor))
    (text : String) (warnings : List String) :
    let read := fun source => (readExpression source host warnings).outcome
    let q := String.ofList (quoted quote text.toList)
    let outcome := qnameLiteral host text
    Decides outcome (read (q ++ " cast as xs:QName")) ∧
      Decides outcome (read (q ++ " cast as xs:QName?")) ∧
        Decides outcome (read ("xs:QName(" ++ q ++ ")")) ∧
          Decides (.ok (.boolean outcome.isOk)) (read (q ++ " castable as xs:QName")) ∧
            Decides (.ok (.boolean outcome.isOk)) (read (q ++ " castable as xs:QName?")) := by
  intro read q outcome
  have hcast : ∀ (castable optional : Bool) (tail : String),
      tail.toList = ' ' :: ((castOperator castable).symbol.toList ++
        ' ' :: (SingleType.render ⟨.qname, optional⟩).toList) →
      Decides (castOutcome host castable text) (read (q ++ tail)) := by
    intro castable optional tail htail
    have hsource : (q ++ tail).toList = quoted quote text.toList ++ ' ' ::
        ((castOperator castable).symbol.toList ++
          ' ' :: (SingleType.render ⟨.qname, optional⟩).toList) := by
      rw [← htail]
      simp [q]
    have hread : Decides (castOutcome host castable (String.ofList text.toList))
      (read (q ++ tail)) := readExpression_cast hquote hxs hsource
    rwa [String.ofList_toList] at hread
  have hcall : Decides (qnameLiteral host text) (read ("xs:QName(" ++ q ++ ")")) := by
    have hread : Decides (qnameLiteral host (String.ofList text.toList))
      (read ("xs:QName(" ++ q ++ ")")) :=
        readExpression_constructor hquote hxs hbind (by simp [q])
    rwa [String.ofList_toList] at hread
  have hplain := hcast false false " cast as xs:QName" (by rfl)
  have hoptional := hcast false true " cast as xs:QName?" (by rfl)
  have htest := hcast true false " castable as xs:QName" (by rfl)
  have hoptionalTest := hcast true true " castable as xs:QName?" (by rfl)
  rw [castOutcome_false] at hplain hoptional
  rw [castOutcome_true] at htest hoptionalTest
  exact ⟨hplain, hoptional, hcall, htest, hoptionalTest⟩

end Sources

/-- All casts of a quoted text to a name give the literal, and whether they succeed is answered by
true. -/
structure CastsGive (read : String → Except Error Expr) (q : String) (literal : Literal) :
    Prop where
  cast : ∃ n, read (q ++ " cast as xs:QName") = .ok (.literal n literal)
  optionalCast : ∃ n, read (q ++ " cast as xs:QName?") = .ok (.literal n literal)
  call : ∃ n, read ("xs:QName(" ++ q ++ ")") = .ok (.literal n literal)
  castable : ∃ n, read (q ++ " castable as xs:QName") = .ok (.literal n (.boolean true))
  optionalCastable : ∃ n, read (q ++ " castable as xs:QName?") = .ok (.literal n (.boolean true))

/-- All casts of a quoted text to a name fail with the error, each at some place, and whether they
succeed is answered by false. -/
structure CastsFail (read : String → Except Error Expr) (q : String) (e : Error) : Prop where
  cast : ∃ location, read (q ++ " cast as xs:QName") = .error { e with location := some location }
  optionalCast : ∃ location,
    read (q ++ " cast as xs:QName?") = .error { e with location := some location }
  call : ∃ location, read ("xs:QName(" ++ q ++ ")") = .error { e with location := some location }
  castable : ∃ n, read (q ++ " castable as xs:QName") = .ok (.literal n (.boolean false))
  optionalCastable : ∃ n, read (q ++ " castable as xs:QName?") = .ok (.literal n (.boolean false))

/-- The casts of a string to a name agree. They give the name that the text between the quotes
means, without the blanks around it. If it means none, they fail because its first part is not
declared, or because it has not the form of a name. -/
theorem readExpression_casts_agree {context : StaticContext} {quote : Char}
    (hquote : quote = '"' ∨ quote = '\'')
    (hxs : context.namespaceOf "xs" = .ok Namespace.schema)
    (hlibrary : context.functions = .standard) (text : String) (warnings : List String) :
    let read := fun source => (readExpression source context.resolver warnings).outcome
    let q := String.ofList (quoted quote text.toList)
    (∃ literal, context.MeansQName (Text.trimBlanks text) literal ∧ CastsGive read q literal) ∨
      (¬∃ literal, context.MeansQName (Text.trimBlanks text) literal) ∧
        ∃ e, CastsFail read q e ∧
          (e.code = ErrorCode.FONS0004.name ∧ IsLexicalQName (Text.trimBlanks text) ∨
            e.code = ErrorCode.FORG0001.name ∧ ¬IsLexicalQName (Text.trimBlanks text)) := by
  intro read q
  have hbind : context.resolver.bind? Expr.qnameConstructor.name 1 =
      .ok (some Expr.qnameConstructor) := by
    show Except.ok (context.functions.bind? _ _) = _
    rw [hlibrary, Expr.bind?_qname]
  obtain ⟨hplain, hoptional, hcall, htest, hoptionalTest⟩ :=
    readExpression_casts_decided hquote hxs hbind text warnings
  cases houtcome : qnameLiteral context.resolver text with
  | ok literal =>
      simp only [houtcome] at hplain hoptional htest hoptionalTest hcall
      refine .inl ⟨literal, StaticContext.qnameLiteral_eq_ok_iff.mp houtcome, ?_⟩
      exact ⟨hplain.of_ok, hoptional.of_ok, hcall.of_ok, htest.of_ok, hoptionalTest.of_ok⟩
  | error f =>
      simp only [houtcome] at hplain hoptional htest hoptionalTest hcall
      refine .inr ⟨?_, f.error .expression, ?_, ?_⟩
      · rintro ⟨literal, hmeans⟩
        rw [StaticContext.qnameLiteral_eq_ok_iff.mpr hmeans] at houtcome
        cases houtcome
      · exact ⟨hplain.of_error, hoptional.of_error, hcall.of_error, htest.of_ok,
          hoptionalTest.of_ok⟩
      · have hcode : ∀ {code : ErrorCode}, f.ownCode? = some code →
            (f.error .expression).code = code.name := by
          intro code h
          show ((f.ownCode?.getD _).name : ExpandedName) = _
          rw [h]
          rfl
        exact (StaticContext.qnameLiteral_eq_error houtcome).imp
          (fun h => ⟨hcode h.1, h.2⟩) fun h => ⟨hcode h.1, h.2⟩

/-- Blanks around a name with a letter beyond ASCII, and a text with a doubled quote that is no
name. -/
theorem readExpression_casts_agree_of_quotes :
    CastsGive (fun source => (readExpression source ({} : StaticContext).resolver []).outcome)
      "' xs:größe\t'" (.qname (some "xs") ⟨Namespace.schema, "größe"⟩) ∧
    ∃ e, CastsFail (fun source => (readExpression source ({} : StaticContext).resolver []).outcome)
      "'it''s'" e ∧ e.code = ErrorCode.FORG0001.name := by
  have hquote : '\'' = '"' ∨ '\'' = '\'' := .inr rfl
  have hxs : ({} : StaticContext).namespaceOf "xs" = .ok Namespace.schema := rfl
  constructor
  · have hmeans : ({} : StaticContext).MeansQName (Text.trimBlanks " xs:größe\t")
        (.qname (some "xs") ⟨Namespace.schema, "größe"⟩) := by
      have htrim : Text.trimBlanks " xs:größe\t" = "xs" ++ ":" ++ "größe" := by decide +kernel
      rw [htrim]
      exact .qualified (by decide +kernel) (by decide +kernel) rfl
    have hquoted : String.ofList (quoted '\'' " xs:größe\t".toList) = "' xs:größe\t'" := by
      decide +kernel
    rcases readExpression_casts_agree hquote hxs rfl
      " xs:größe\t" [] with ⟨literal, hliteral, hgive⟩ | ⟨hnone, -⟩
    · have heq := (StaticContext.qnameLiteral_eq_ok_iff.mpr hliteral).symm.trans
        (StaticContext.qnameLiteral_eq_ok_iff.mpr hmeans)
      rw [hquoted, Except.ok.inj heq] at hgive
      exact hgive
    · exact absurd ⟨_, hmeans⟩ hnone
  · have hform : ¬IsLexicalQName (Text.trimBlanks "it's") := by
      rw [← LexicalQName.parse?_isSome_iff]
      decide +kernel
    have hquoted : String.ofList (quoted '\'' "it's".toList) = "'it''s'" := by decide +kernel
    rcases readExpression_casts_agree hquote hxs rfl
      "it's" [] with ⟨literal, hliteral, -⟩ | ⟨-, e, hfail, hcode⟩
    · exact absurd hliteral.isLexicalQName hform
    · rw [hquoted] at hfail
      rcases hcode with ⟨-, hlexical⟩ | ⟨hcode, -⟩
      · exact absurd hlexical hform
      · exact ⟨e, hfail, hcode⟩

end XPath
