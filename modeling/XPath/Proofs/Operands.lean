import XPath.Proofs.Run
import XPath.Proofs.Steps

/-!
# Reading operands

A reader that stands before a name with signs reads it as a child step with the signs around it
(`signedPath_run`), and one that stands at a type operator reads the operator with its target
(`typeOperation_run`). In both cases it then stands at the steps that are left.
-/

namespace XPath

open Parse

/-- Names without a qualifier are in no namespace, and `xs` stands for the schema namespace. -/
structure Setting.Conventional (σ : Setting) : Prop where
  elements : σ.host.elementNamespace = none
  schema : σ.host.namespaceOf "xs" = .ok Namespace.schema

namespace Parse

variable {σ : Setting} {nested : Parse Expr} {s t : ParseState} {tail : List Char} {n : Nat}
  {steps : List Step}

/-! ### Names -/

theorem parse?_word (word : Word) :
    LexicalQName.parse? (String.ofList word.chars) = some ⟨"", String.ofList word.chars⟩ := by
  have hcolon : ∀ c ∈ word.chars, decide (c ≠ ':') = true := fun c hc =>
    decide_eq_true (isNameChar_ne ((isNCName_spec word.isNCName).2 c hc) rfl)
  have hdrop : word.chars.dropWhile (fun c => decide (c ≠ ':')) = [] := by
    rw [← List.append_nil word.chars, List.dropWhile_append_of_pos hcolon, List.dropWhile_nil]
  unfold LexicalQName.parse?
  rw [String.toList_ofList, hdrop]
  dsimp only
  rw [word.isNCName]
  rfl

theorem expandName_run (hσ : σ.Conventional) (word : Word) (s : ParseState) :
    expandName σ (String.ofList word.chars) true s =
      .ok (.unqualified (String.ofList word.chars)) s := by
  unfold expandName
  rw [parse?_word]
  dsimp only
  rw [if_pos rfl, if_pos rfl, hσ.elements]
  rfl

theorem bareStep_run (hσ : σ.Conventional) {word : Word} {d : Cursor} (startsPattern : Bool)
    (htoken : s.cursor.token = .name) (hvalue : s.cursor.value = String.ofList word.chars)
    (hd : s.cursor.advance = (.ok (), d)) :
    bareStep σ startsPattern s =
      .ok (signedAt word s.cursor.offset []) { s with cursor := d } := by
  unfold bareStep
  rw [offset_bind, token_bind, value_bind, htoken]
  have htest : nodeTest σ .element s =
      .ok (.name .element (.unqualified (String.ofList word.chars))) { s with cursor := d } := by
    unfold nodeTest
    rw [token_bind, htoken]
    dsimp only
    have hkind : decide (NodeKind.element = .element) = true := rfl
    rw [value_bind, hvalue, hkind, bind_run (expandName_run hσ word s), bind_run (advance_run hd)]
    rfl
  rw [bind_run htest]
  rfl

/-- Neither a predicate nor a further step follows. -/
def EndsPath (t : Token) : Prop :=
  t ≠ .leftBracket ∧ isSeparator t = false

instance : DecidablePred EndsPath :=
  fun t => inferInstanceAs (Decidable (t ≠ .leftBracket ∧ _))

/-- A step that no predicate follows. -/
theorem step_run {e : Expr} {startsPattern : Bool}
    (h : primary σ nested startsPattern s = .ok e t) (he : isReverseStep e = false)
    (hbracket : t.cursor.token ≠ .leftBracket) :
    step σ nested startsPattern s = .ok e { t with depth := s.depth } := by
  have hloop : repeatWhile (· = .leftBracket) (predicate σ nested) e t = .ok e t :=
    repeatWhile_stop (decide_eq_false hbracket)
  unfold step
  refine nesting_run ?_
  rw [bind_run h, bind_run hloop, he]
  rfl

/-- What a path starts with is all of it when neither a predicate nor a further step follows. -/
theorem relativePath_run {e : Expr} (h : ∀ b, primary σ nested b s = .ok e t)
    (he : isReverseStep e = false) (hbracket : t.cursor.token ≠ .leftBracket)
    (hseparator : isSeparator t.cursor.token = false) :
    relativePath σ nested s = .ok e { t with depth := s.depth } := by
  unfold relativePath
  refine nesting_run (t := { t with depth := s.depth }) ?_
  rw [bind_run (step_run (h _) he hbracket)]
  exact repeatWhile_stop hseparator

/-- A name with nothing of a path behind it is a step to children. -/
theorem pathExpression_run (hσ : σ.Conventional) (ht : Closing tail) {word : Word} {c : Cursor}
    (hc : BeforeOperand tail n [] word steps c) (hs : c.advance = (.ok (), s.cursor)) :
    ∃ d, AtSteps tail (n + utf8Length word.chars) steps d ∧
      pathExpression σ nested s = .ok (signedAt word n []) { s with cursor := d } := by
  obtain ⟨e, he, htoken, hvalue, hoffset, hbehind⟩ := hc.name ht
  rw [hs] at he
  cases he
  obtain ⟨d, hd⟩ := hbehind.advance ht
  have hsteps : AtSteps tail (n + utf8Length word.chars) steps d := ⟨_, hbehind, hd⟩
  obtain ⟨hbracket, hslash, hslashes⟩ := hsteps.endsPath ht
  have hprimary : ∀ b, primary σ nested b s = .ok (signedAt word n []) { s with cursor := d } := by
    intro b
    unfold primary
    rw [token_bind, htoken, ← hoffset]
    exact bareStep_run hσ b htoken hvalue hd
  have hseparator : isSeparator d.token = false := by
    simp [isSeparator, hslash, hslashes]
  refine ⟨d, hsteps, ?_⟩
  unfold pathExpression
  rw [token_bind, htoken]
  exact relativePath_run hprimary rfl hbracket hseparator

/-! ### Signs -/

/-- Signs with their byte offsets. -/
def placedSigns : Nat → List Sign → List (Sign × Nat)
  | _, [] => []
  | n, s :: signs => (s, n) :: placedSigns (n + 2) signs

theorem applySigns_placedSigns (word : Word) (n : Nat) (signs : List Sign) :
    applySigns (signedAt word (n + 2 * signs.length) []) (placedSigns n signs).reverse =
      signedAt word n signs := by
  unfold applySigns
  rw [List.foldl_reverse]
  induction signs generalizing n with
  | nil => rfl
  | cons s signs ih =>
      have hlength : n + 2 * (s :: signs).length = n + 2 + 2 * signs.length := by
        rw [List.length_cons]
        omega
      rw [hlength, placedSigns, List.foldr_cons, ih, signedAt]

theorem sign?_operator (s : Sign) : sign? (.operator (.arithmetic s.operator)) = some s := by
  cases s <;> rfl

/-- The signs before a name, with one level for each. -/
theorem signs_run (ht : Closing tail) {signs : List Sign} {word : Word} {c : Cursor} {fuel : Nat}
    (hc : BeforeOperand tail n signs word steps c) (hs : c.advance = (.ok (), s.cursor))
    (hdepth : s.depth + signs.length ≤ maxDepth) (hfuel : signs.length ≤ fuel)
    (acc : List (Sign × Nat)) :
    ∃ d e, BeforeOperand tail (n + 2 * signs.length) [] word steps d ∧ d.advance = (.ok (), e) ∧
      repeatAtMost (fun t => (sign? t).isSome) (sign σ) fuel acc s =
        .ok ((placedSigns n signs).reverse ++ acc)
          { s with cursor := e, depth := s.depth + signs.length } := by
  induction signs generalizing n c s fuel acc with
  | nil =>
      obtain ⟨e, he, htoken, -⟩ := hc.name ht
      rw [hs] at he
      cases he
      refine ⟨c, s.cursor, hc, hs, repeatAtMost_stop ?_⟩
      rw [htoken]
      rfl
  | cons sg signs ih =>
      obtain ⟨e, he, htoken, hoffset, hnext⟩ := hc.sign
      rw [hs] at he
      cases he
      rw [List.length_cons] at hdepth hfuel
      have hlevel : s.depth + 1 ≤ maxDepth := by omega
      obtain ⟨rounds, rfl⟩ := Nat.exists_eq_add_of_le' (Nat.le_of_add_left_le hfuel)
      obtain ⟨f, hf⟩ := hnext.advance ht
      have hround : sign σ acc s =
          .ok ((sg, n) :: acc) { s with cursor := f, depth := s.depth + 1 } := by
        unfold sign
        rw [token_bind, htoken, sign?_operator]
        dsimp only
        have hadvance : advance σ { s with depth := s.depth + 1 } =
            .ok () { s with cursor := f, depth := s.depth + 1 } := advance_run hf
        rw [bind_run (descend_run hlevel), offset_bind, bind_run hadvance, pure_run, ← hoffset]
      have hgo : (sign? s.cursor.token).isSome = true := by
        rw [htoken, sign?_operator]
        rfl
      obtain ⟨d, e, hd, he, hrest⟩ := ih hnext
        (s := { s with cursor := f, depth := s.depth + 1 }) hf (by
          show s.depth + 1 + signs.length ≤ maxDepth
          omega) (Nat.le_of_succ_le_succ hfuel) ((sg, n) :: acc)
      refine ⟨d, e, ?_, he, ?_⟩
      · rw [List.length_cons, Nat.mul_add, Nat.add_comm (2 * signs.length), ← Nat.add_assoc]
        exact hd
      · rw [repeatAtMost_round hgo, bind_run hround, hrest, placedSigns, List.reverse_cons,
          List.append_assoc, List.length_cons]
        simp only [List.singleton_append, Nat.add_assoc, Nat.add_comm 1]

/-- A name with the signs before it. -/
theorem signedPath_run (hσ : σ.Conventional) (ht : Closing tail) {signs : List Sign} {word : Word}
    {c : Cursor} (hc : BeforeOperand tail n signs word steps c)
    (hs : c.advance = (.ok (), s.cursor)) (hdepth : s.depth + signs.length ≤ maxDepth) :
    ∃ d, AtSteps tail (n + utf8Length (signedText signs word)) steps d ∧
      signedPath σ nested s = .ok (signedAt word n signs) { s with cursor := d } := by
  have hfuel : signs.length ≤ s.cursor.rest.length + 1 := by
    cases signs with
    | nil => exact Nat.zero_le _
    | cons sg signs =>
        obtain ⟨d, hd, -, -, hnext⟩ := hc.sign
        rw [hs] at hd
        cases hd
        exact Nat.succ_le_succ hnext.length_le
  obtain ⟨d, e, hd, he, hsigns⟩ := signs_run ht hc hs hdepth hfuel []
  obtain ⟨f, hf, hpath⟩ := pathExpression_run hσ ht hd
    (s := { s with cursor := e, depth := s.depth + signs.length }) he
  rw [List.append_nil] at hsigns
  refine ⟨f, ?_, ?_⟩
  · rw [utf8Length_signedText, ← Nat.add_assoc]
    exact hf
  · have hinner : (do
        let signs ← repeatWhile (fun t => (sign? t).isSome) (sign σ) []
        return applySigns (← pathExpression σ nested) signs : Parse Expr) s =
        .ok (signedAt word n signs) { s with cursor := f, depth := s.depth + signs.length } := by
      rw [bind_run (repeatWhile_eq.trans hsigns), bind_run hpath, pure_run,
        applySigns_placedSigns]
    exact nesting_run hinner

/-! ### Types -/

theorem parse?_render (t : AtomicType) :
    LexicalQName.parse? t.render = some ⟨"xs", t.localName⟩ := by
  cases t <;> decide

theorem builtin?_localName (t : AtomicType) :
    SchemaType.builtin? t.localName = some (.atomic t) := by
  have hlocal : AtomicType.ofLocalName? t.localName = some t := by cases t <;> decide
  unfold SchemaType.builtin?
  rw [hlocal]

theorem atomicType_run (hxs : σ.host.namespaceOf "xs" = .ok Namespace.schema) (t : AtomicType)
    (s : ParseState) : atomicType σ t.render s = .ok t s := by
  unfold atomicType
  rw [parse?_render]
  have hqualifier : ¬("xs" = "") := by decide
  have huri : (ask σ (σ.host.namespaceOf "xs") : Parse String) s = .ok Namespace.schema s := by
    rw [hxs]
    rfl
  have hschema : ¬(Namespace.schema = "") := by decide
  dsimp only
  rw [if_neg hqualifier, bind_run huri, if_neg hschema, if_pos rfl, builtin?_localName]
  rfl

variable {t : AtomicType} {d e : Cursor}

theorem sequenceType_run (hσ : σ.Conventional) (htoken : s.cursor.token = .name)
    (hvalue : s.cursor.value = t.render) (hd : s.cursor.advance = (.ok (), d))
    (hmark : d.token = .questionMark) (he : d.endOperand.advance = (.ok (), e)) :
    sequenceType σ s = .ok ⟨.atomic t, .zeroOrOne⟩ { s with cursor := e } := by
  have hitem : itemType σ s = .ok (.atomic t) { s with cursor := d } := by
    unfold itemType
    rw [token_bind, htoken]
    dsimp only
    rw [value_bind, hvalue, bind_run (atomicType_run hσ.schema t s), bind_run (advance_run hd)]
    rfl
  have hnonempty : ¬(ItemType.atomic t = .empty) := by simp
  have hskip : skipMark σ { s with cursor := d } = .ok () { s with cursor := e } := skipMark_run he
  unfold sequenceType
  rw [bind_run hitem, if_neg hnonempty, token_bind, hmark]
  dsimp only [occurrenceMark?]
  rw [bind_run hskip]
  rfl

theorem singleType_run (hσ : σ.Conventional) (hconcrete : t.isAbstract = false)
    (htoken : s.cursor.token = .name)
    (hvalue : s.cursor.value = t.render) (hd : s.cursor.advance = (.ok (), d))
    (hmark : d.token = .questionMark) (he : d.endOperand.advance = (.ok (), e)) :
    singleType σ s = .ok ⟨t, true⟩ { s with cursor := e } := by
  have hskip : skipMark σ { s with cursor := d } = .ok () { s with cursor := e } := skipMark_run he
  unfold singleType
  rw [bind_run (expect_run htoken), value_bind, hvalue, bind_run (atomicType_run hσ.schema t s),
    hconcrete]
  show (advance σ >>= fun _ => token >>= _) s = _
  rw [bind_run (advance_run hd), token_bind, hmark]
  show (skipMark σ >>= _) { s with cursor := d } = _
  rw [bind_run hskip]
  rfl

/-- A type operator behind an operand that is no string. -/
theorem typeOperation_run (hσ : σ.Conventional) (ht : Closing tail) {t : TypeSuffix}
    (hs : AtSteps tail n (.typed t :: steps) s.cursor) {operand : Expr}
    (hoperand : operand.stringLiteral? = none) (start : Nat) :
    ∃ g, AtSteps tail (n + 1 + utf8Length t.text) steps g ∧
      typeOperation σ t.op start operand s =
        .ok (.typed start t.operation operand) { s with cursor := g } := by
  obtain ⟨-, -, e, f, he, hname, hvalue, hf, hmark, hbehind⟩ := hs.typed
  obtain ⟨g, hg⟩ := hbehind.advance ht
  have hsequence : sequenceType σ { s with cursor := e } =
      .ok ⟨.atomic t.target, .zeroOrOne⟩ { s with cursor := g } :=
    sequenceType_run hσ hname hvalue hf hmark hg
  have hsingle : singleType σ { s with cursor := e } =
      .ok ⟨t.target, true⟩ { s with cursor := g } :=
    singleType_run hσ t.concrete hname hvalue hf hmark hg
  -- only the cast of a string to a name is decided while reading
  have hcast : ∀ castable, cast σ start castable operand ⟨t.target, true⟩ =
      pure (.typed start (if castable then .castableAs ⟨t.target, true⟩
        else .castAs ⟨t.target, true⟩) operand) := by
    intro castable
    unfold cast
    rw [hoperand]
    cases t.target <;> rfl
  refine ⟨g, ⟨_, hbehind, hg⟩, ?_⟩
  unfold typeOperation TypeSuffix.operation
  rw [bind_run (advance_run he)]
  cases t.op with
  | instanceOf => exact bind_run hsequence
  | treatAs => exact bind_run hsequence
  | castableAs =>
      show (singleType σ >>= fun type => cast σ start true operand type) _ = _
      rw [bind_run hsingle, hcast]
      rfl
  | castAs =>
      show (singleType σ >>= fun type => cast σ start false operand type) _ = _
      rw [bind_run hsingle, hcast]
      rfl

end Parse

end XPath
