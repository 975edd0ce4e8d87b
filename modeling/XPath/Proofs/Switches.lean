import XPath.Context.Static
import XPath.Proofs.FollowingReading
import XPath.Proofs.PairReading

/-!
# The two switches of a context

A context that is backwards compatible, here a lenient one, differs from a strict one in what
becomes of calls of unknown functions, and in nothing else. The two readers agree as long as the
strict one does not fail for such a call (`Pair.answers_switched`); and the strict one follows the
lenient one unless an error is left in the tree, or in an argument that has been dropped. A later
version of the language only allows more.
-/

namespace XPath

open Parse

namespace StaticContext

/-- The context with calls of unknown functions as errors. -/
def strict (c : StaticContext) : StaticContext :=
  { c with backwardsCompatible := false }

/-- The context with calls of unknown functions left to fail. -/
def lenient (c : StaticContext) : StaticContext :=
  { c with backwardsCompatible := true }

/-- The context for a version of the language. -/
def ofLevel (c : StaticContext) (level : LanguageLevel) : StaticContext :=
  { c with level }

end StaticContext

/-! ### From strict to lenient -/

/-- The error is about a call of an unknown function. -/
abbrev Error.IsUnknownFunction (e : Error) : Prop :=
  e.code = ErrorCode.XPST0017.name

/-- The strict reader and the lenient one beside it. -/
abbrev StaticContext.switched (c : StaticContext) (language : Language) : Pair :=
  .together ⟨language, c.strict.resolver⟩ ⟨language, c.lenient.resolver⟩ Error.IsUnknownFunction

theorem Parse.qnameLiteral_congr {r r' : Resolver}
    (helement : r'.elementNamespace = r.elementNamespace)
    (hnamespace : r'.namespaceOf = r.namespaceOf) : qnameLiteral r' = qnameLiteral r := by
  unfold qnameLiteral
  rw [helement, hnamespace]

section Calls

variable (c : StaticContext) (language : Language)

/-- The strict reader fails for an unknown function. -/
theorem Parse.unknownCall_strict (n : Nat) (name : ExpandedName) (arity : Nat) (s : ParseState) :
    ∃ e, unknownCall ⟨language, c.strict.resolver⟩ n name arity s = .error e s ∧
      e.code = ErrorCode.XPST0017.name ∧
        e.message = (Fault.noFunction name arity (c.functions.arities name)).message :=
  ⟨_, rfl, rfl, rfl⟩

theorem Parse.qnameLiteral_switched :
    qnameLiteral c.lenient.resolver = qnameLiteral c.strict.resolver :=
  qnameLiteral_congr rfl rfl

theorem Parse.knownCall_switched (start : Nat) (f : FunctionBinding) (args : List Expr) :
    knownCall ⟨language, c.lenient.resolver⟩ start f args =
      knownCall ⟨language, c.strict.resolver⟩ start f args := by
  have hreject : ∀ fault, (reject ⟨language, c.lenient.resolver⟩ fault : Parse Expr) =
      reject ⟨language, c.strict.resolver⟩ fault := reject_congr rfl
  unfold knownCall callIn
  simp only [qnameLiteral_switched, hreject]

theorem Parse.cast_switched (start : Nat) (castable : Bool) (operand : Expr) (type : SingleType) :
    cast ⟨language, c.lenient.resolver⟩ start castable operand type =
      cast ⟨language, c.strict.resolver⟩ start castable operand type := by
  have hreject : ∀ fault, (reject ⟨language, c.lenient.resolver⟩ fault : Parse Expr) =
      reject ⟨language, c.strict.resolver⟩ fault := reject_congr rfl
  unfold cast
  simp only [qnameLiteral_switched, hreject]

end Calls

variable {c : StaticContext} {language : Language}

/-- Once a function is known, its call is the same for both. -/
theorem Pair.boundCall_switched {s s' : ParseState} (h : (c.switched language).Linked s s')
    (start : Nat) (name : ExpandedName) (args : List Expr) :
    (c.switched language).Agree ((c.switched language).Gives (c.switched language).tree)
      (boundCall ⟨language, c.strict.resolver⟩ start name args s)
      (boundCall ⟨language, c.lenient.resolver⟩ start name args s') := by
  cases hbind : c.functions.bind? name args.length with
  | none =>
      -- the lenient reader goes on, but the strict one has failed in the way that is left out
      obtain ⟨e, he, hcode, -⟩ := unknownCall_strict c language start name args.length s
      have hstrict := boundCall_of_bind ⟨language, c.strict.resolver⟩ start
        (congrArg Except.ok hbind)
      rw [hstrict, Option.elim_none, he]
      exact .gone hcode
  | some f =>
      have hstrict := boundCall_of_bind ⟨language, c.strict.resolver⟩ start
        (congrArg Except.ok hbind)
      have hlenient := boundCall_of_bind ⟨language, c.lenient.resolver⟩ start
        (congrArg Except.ok hbind)
      rw [hstrict, hlenient, Option.elim_some, Option.elim_some]
      exact .expr (knownCall_switched c language start f args) h

theorem Pair.answers_switched : (c.switched language).Answers where
  toLawful := lawful_together rfl
  expandName h lexical b := .stateless (.expandName lexical b) rfl h
  atomicType h lexical := .stateless (.atomicType lexical) rfl h
  knownType h lexical name := .stateless (.knownType lexical name) rfl h
  allowedTest h := .stateless .allowedTest rfl h
  mild := mild_together
  declaredNamespace h qualifier := .stateless (.declaredNamespace qualifier) rfl h
  functionName h _ := .stateless (.functionName _) rfl h
  hostVariable h start name lexical := .expr rfl h
  boundCall h start name args := by
    have hargs : args.map (c.switched language).tree = args :=
      (List.map_congr_left fun e _ => tree_together e).trans (List.map_id args)
    rw [hargs]
    exact boundCall_switched h start name args
  notCastable type := by
    rintro cursor _ rfl
    rfl
  cast h start castable operand type := by
    rw [tree_together]
    exact .expr (cast_switched c language start castable operand type) h
  first _ _ _ := rfl
  later _ _ := rfl
  named _ _ _ _ := rfl

/-- The lenient reader does what the strict one does, unless that fails for an unknown function. -/
theorem StaticContext.reading_lenient (c : StaticContext) (source : String) (start : Nat)
    (terminator : Token) (warnings : List String) :
    readExpressionAt source start terminator c.lenient.resolver warnings =
        readExpressionAt source start terminator c.strict.resolver warnings ∨
      ∃ e, (readExpressionAt source start terminator c.strict.resolver warnings).outcome =
        .error e ∧ e.IsUnknownFunction := by
  have : (c.switched .expression).Answers := Pair.answers_switched
  have hend : terminator = .rightBrace → ∀ d d', (c.switched .expression).Beside d d' →
      d.token = .eof → (c.switched .expression).Failing d
        (report (c.switched .expression).left d .unclosedTemplate) d'
        (report (c.switched .expression).right d' .unclosedTemplate) := by
    rintro - d _ rfl -
    rfl
  have hagree := Pair.Agree.complete hend (Pair.linked_together
    (Parser.ofSource source start .expression c.strict.resolver warnings).state) rfl
  refine Pair.reading_of_agree ?_ hagree
  rintro e t _ t' ⟨⟨rfl, hlinked⟩, -⟩
  exact ⟨Pair.tree_together e, Pair.eq_of_linked hlinked⟩

/-! ### From lenient to strict -/

namespace Expr

/-- The error that the node raises. -/
def raised? : Expr → Option Error
  | raise _ error => some error
  | _ => none

/-- An error is left in the expression. -/
def Raises (e : Expr) : Prop :=
  ∃ n error, .raise n error ∈ e.nodes

theorem not_raises_of_all {e : Expr} (h : e.nodes.all (·.raised?.isNone) = true) : ¬e.Raises := by
  rintro ⟨n, error, hmem⟩
  cases List.all_eq_true.mp h _ hmem

theorem exists_raise_of_any {e : Expr} (h : e.nodes.any (·.raised?.isSome) = true) :
    ∃ n error, raise n error ∈ e.nodes := by
  obtain ⟨node, hmem, hnode⟩ := List.any_eq_true.mp h
  cases node with
  | raise n error => exact ⟨n, error, hmem⟩
  | _ => cases hnode

theorem raises_raise (n : Nat) (error : Error) : (raise n error).Raises :=
  ⟨n, error, List.mem_singleton.mpr rfl⟩

theorem not_raises_literal {n : Nat} {value : Literal} : ¬(literal n value).Raises := by
  rintro ⟨m, error, hmem⟩
  cases List.mem_singleton.mp hmem

theorem Raises.of_part {e part : Expr} (hpart : part ∈ e.children) (h : part.Raises) :
    e.Raises := by
  obtain ⟨n, error, hmem⟩ := h
  refine ⟨n, error, ?_⟩
  rw [nodes_eq]
  exact List.mem_cons_of_mem _ (List.mem_flatMap.mpr ⟨part, hpart, hmem⟩)

theorem Raises.mapRange {f : RangeVariable → RangeVariable} {e : Expr} (h : e.Raises) :
    (e.mapRange f).Raises := by
  obtain ⟨n, error, hmem⟩ := h
  obtain ⟨bs, hocc⟩ := mem_nodes.mp hmem
  have hocc' : Occurs (e.mapRange f) bs ((raise n error).mapRange f) :=
    occurs_mapRange.mpr ⟨_, hocc, rfl⟩
  exact ⟨n, error, mem_nodes.mpr ⟨bs, hocc'⟩⟩

end Expr

/-- Functions that make names take one argument. Others are dropped where such a function is
applied to a string at once, together with the errors that are left in them. -/
def FunctionLibrary.NamesAreUnary (l : FunctionLibrary) : Prop :=
  ∀ name arity f, l.bind? name arity = some f → f.kind = .constructor .qname → arity ≤ 1

theorem FunctionLibrary.namesAreUnary_standard : standard.NamesAreUnary := by
  have hentries : ∀ entry ∈ standard.entries, entry.2.kind ≠ .constructor .qname := by
    decide +kernel
  intro name arity f hbind hkind
  unfold bind? at hbind
  split at hbind
  · split at hbind
    · omega
    · cases hbind
  · obtain ⟨s, hs, rfl⟩ := Option.map_eq_some_iff.mp hbind
    obtain ⟨⟨n, s'⟩, hmem, hentry⟩ := List.mem_filterMap.mp (List.mem_of_find?_eq_some hs)
    dsimp only at hentry
    split at hentry
    · cases hentry
      exact absurd hkind (hentries _ hmem)
    · cases hentry

/-- The strict reader follows the lenient one. -/
theorem StaticContext.widens_strict (hlibrary : c.functions.NamesAreUnary)
    (hlanguage : language ≠ .pattern) :
    Setting.Widens ⟨language, c.lenient.resolver⟩ ⟨language, c.strict.resolver⟩ id
      Expr.Raises where
  language := rfl
  host := ⟨rfl, rfl, fun _ _ => id, fun _ _ => id, fun _ _ => id, fun _ _ _ => id, id⟩
  faithful := Literal.isFaithful_id
  castable text := by rw [qnameLiteral_switched]
  part := .of_part
  mapRange := .mapRange
  literal := Expr.not_raises_literal
  unknown _ := .inl Expr.raises_raise
  dropped := .inr ⟨hlanguage, fun name arity f hbind => hlibrary name arity f
    (Except.ok.inj hbind)⟩

/-! ### Versions of the language -/

/-- A reader for the later version follows one for the earlier version. -/
theorem StaticContext.widens_level (c : StaticContext) (language : Language) :
    Setting.Widens ⟨language, (c.ofLevel .xpath20).resolver⟩
      ⟨language, (c.ofLevel .xpath30).resolver⟩ id fun _ => False where
  language := rfl
  host := ⟨rfl, rfl, fun _ _ => id, fun _ _ => id, fun _ _ => id, fun _ _ _ => id, fun _ => rfl⟩
  faithful := Literal.isFaithful_id
  castable text := by
    have hqname : qnameLiteral (c.ofLevel .xpath30).resolver =
        qnameLiteral (c.ofLevel .xpath20).resolver := qnameLiteral_congr rfl rfl
    rw [hqname]
  part _ := id
  mapRange := id
  literal := id
  unknown _ := .inr ⟨fun _ => id, fun _ _ hbind => ⟨hbind, fun _ => rfl⟩⟩
  dropped := .inl fun _ => id

/-! ### Readings -/

/-- What one reader reads without losses the one that follows it reads too. -/
theorem Parser.reading_of_widens {σ σ' : Setting} {lost : Expr → Prop} (hw : σ.Widens σ' id lost)
    {s : ParseState} {terminator : Token} {e : Expr} {warnings : List String}
    (h : Parser.reading (Parser.run ⟨σ, s⟩ (complete · terminator)) = ⟨.ok e, warnings⟩) :
    lost e ∨ Parser.reading (Parser.run ⟨σ', s⟩ (complete · terminator)) =
      ⟨.ok e, warnings⟩ := by
  obtain ⟨t, hrun, hwarnings⟩ := Parser.reading_run.mp h
  refine (complete_followedBy hw terminator s e t hrun).imp_right ?_
  rintro ⟨e', hrun', halike⟩
  rw [Expr.mapLiterals_id, Expr.mapLiterals_id] at halike
  subst halike
  exact Parser.reading_run.mpr ⟨t, hrun', hwarnings⟩

/-- The error stands for a call that starts at the offset, of a function that is not known. It
says what the strict reader says of the call, and does not say where. -/
structure Error.StandsForCall (c : StaticContext) (source : String) (start n : Nat)
    (error : Error) : Prop where
  kind : error.kind = .dynamic
  code : error.code = ErrorCode.XTDE1425.name
  location : error.location = none
  call : ∃ name arity,
    CallAt ⟨.expression, c.lenient.resolver⟩ (.ofSource source start) n name arity ∧
      c.functions.bind? name arity = none ∧
        ∀ s, ∃ e, unknownCall ⟨.expression, c.strict.resolver⟩ n name arity s = .error e s ∧
          e.code = ErrorCode.XPST0017.name ∧ e.message = error.message

theorem Error.IsDeferred.standsForCall {source : String} {start n : Nat} {error : Error}
    (h : error.IsDeferred ⟨.expression, c.lenient.resolver⟩ (.ofSource source start) n) :
    error.StandsForCall c source start n := by
  obtain ⟨name, arity, hcall, hbind, rfl⟩ := h.unknown
  exact ⟨rfl, rfl, rfl, name, arity, hcall, Except.ok.inj hbind,
    unknownCall_strict c .expression n name arity⟩

/-- Both switches only let more through. An expression of the strict reader is one of the lenient
reader, and so is an error that is not about an unknown function. An expression of the lenient
reader is one of the strict reader, unless an error is left in it; and such an error stands for a
call. What is read for the earlier version of the language is read for the later one. -/
theorem switches_are_conservative (c : StaticContext) (source : String) (start : Nat)
    (terminator : Token) (warnings : List String) :
    (∀ e warnings', readExpressionAt source start terminator c.strict.resolver warnings =
        ⟨.ok e, warnings'⟩ →
      readExpressionAt source start terminator c.lenient.resolver warnings =
        ⟨.ok e, warnings'⟩) ∧
    (∀ error warnings', readExpressionAt source start terminator c.strict.resolver warnings =
        ⟨.error error, warnings'⟩ → error.code ≠ ErrorCode.XPST0017.name →
      readExpressionAt source start terminator c.lenient.resolver warnings =
        ⟨.error error, warnings'⟩) ∧
    (c.functions.NamesAreUnary → ∀ e warnings',
      readExpressionAt source start terminator c.lenient.resolver warnings =
        ⟨.ok e, warnings'⟩ → ¬e.Raises →
      readExpressionAt source start terminator c.strict.resolver warnings =
        ⟨.ok e, warnings'⟩) ∧
    (∀ e warnings', readExpressionAt source start terminator c.lenient.resolver warnings =
        ⟨.ok e, warnings'⟩ →
      ∀ n error, .raise n error ∈ e.nodes → error.StandsForCall c source start n) ∧
    (∀ e warnings', readExpressionAt source start terminator (c.ofLevel .xpath20).resolver
        warnings = ⟨.ok e, warnings'⟩ →
      readExpressionAt source start terminator (c.ofLevel .xpath30).resolver warnings =
        ⟨.ok e, warnings'⟩) ∧
    (∀ e warnings', readPattern source (c.ofLevel .xpath20).resolver warnings =
        ⟨.ok e, warnings'⟩ →
      readPattern source (c.ofLevel .xpath30).resolver warnings = ⟨.ok e, warnings'⟩) ∧
    (∀ type warnings', readSequenceType source (c.ofLevel .xpath20).resolver warnings =
        ⟨.ok type, warnings'⟩ →
      readSequenceType source (c.ofLevel .xpath30).resolver warnings =
        ⟨.ok type, warnings'⟩) := by
  have hlenient := c.reading_lenient source start terminator warnings
  refine ⟨?_, ?_, ?_, ?_, ?_, ?_, ?_⟩
  · intro e warnings' h
    rcases hlenient with heq | ⟨error, herror, -⟩
    · rw [heq, h]
    · rw [h] at herror
      cases herror
  · intro error warnings' h hcode
    rcases hlenient with heq | ⟨error', herror, hunknown⟩
    · rw [heq, h]
    · rw [h] at herror
      cases herror
      exact absurd hunknown hcode
  · intro hlibrary e warnings' h hfree
    exact (Parser.reading_of_widens (StaticContext.widens_strict hlibrary (by decide))
      h).resolve_left hfree
  · intro e warnings' h n error hmem
    obtain ⟨t, hrun, -⟩ := Parser.reading_run.mp h
    obtain ⟨bs, hocc⟩ := Expr.mem_nodes.mp hmem
    have hread := ((complete_assembled hrun).assembled bs _ hocc).1
    exact Error.IsDeferred.standsForCall hread
  · exact fun e warnings' h => (Parser.reading_of_widens (c.widens_level _) h).resolve_left id
  · exact fun e warnings' h => (Parser.reading_of_widens (c.widens_level _) h).resolve_left id
  · intro type warnings' h
    obtain ⟨t, hrun, hwarnings⟩ := Parser.reading_run.mp h
    have hw := c.widens_level .sequenceType
    exact Parser.reading_run.mpr
      ⟨t, Repeats.completeType hw.language hw.host _ _ _ hrun, hwarnings⟩

/-- The lenient reader reads a call without an error in it, and one that it leaves to fail. -/
theorem switches_are_conservative_of_calls :
    (∃ e, readExpression "count(1)" (StaticContext.lenient {}).resolver [] = ⟨.ok e, []⟩ ∧
      readExpression "count(1)" (StaticContext.strict {}).resolver [] = ⟨.ok e, []⟩) ∧
    ∃ e n error, readExpression "count(missing(1))" (StaticContext.lenient {}).resolver [] =
        ⟨.ok e, []⟩ ∧
      .raise n error ∈ e.nodes ∧ error.StandsForCall {} "count(missing(1))" 0 n := by
  constructor
  · obtain ⟨e, hread, hfree⟩ := exists_of_reading
      (r := readExpression "count(1)" (StaticContext.lenient {}).resolver [])
      (c := fun e => e.nodes.all (·.raised?.isNone)) (by decide +kernel) (by decide +kernel)
    exact ⟨e, hread, (switches_are_conservative {} "count(1)" 0 .eof []).2.2.1
      FunctionLibrary.namesAreUnary_standard e [] hread (Expr.not_raises_of_all hfree)⟩
  · obtain ⟨e, hread, hraise⟩ := exists_of_reading
      (r := readExpression "count(missing(1))" (StaticContext.lenient {}).resolver [])
      (c := fun e => e.nodes.any (·.raised?.isSome)) (by decide +kernel) (by decide +kernel)
    obtain ⟨n, error, hmem⟩ := Expr.exists_raise_of_any hraise
    exact ⟨e, n, error, hread, hmem, (switches_are_conservative {} "count(missing(1))" 0 .eof
      []).2.2.2.1 e [] hread n error hmem⟩

/-- Declarations with a function for names that takes a second argument. -/
def StaticContext.withBinaryName : StaticContext :=
  declareNamespace
    { functions := FunctionLibrary.register {} ⟨"urn:f", "q"⟩
        ⟨1, some 2, .constructor .qname, .anySequence⟩ } "f" "urn:f"

/-- Where the second argument is dropped nothing is left of the unknown function in it. -/
theorem lenient_without_raise_of_dropped : ∃ e,
    readExpression "f:q('a', f:u())" StaticContext.withBinaryName.lenient.resolver [] =
        ⟨.ok e, []⟩ ∧ ¬e.Raises ∧
      (readExpression "f:q('a', f:u())" StaticContext.withBinaryName.strict.resolver
        []).outcome.isOk = false := by
  obtain ⟨e, hread, hfree⟩ := exists_of_reading
    (r := readExpression "f:q('a', f:u())" StaticContext.withBinaryName.lenient.resolver [])
    (c := fun e => e.nodes.all (·.raised?.isNone)) (by decide +kernel) (by decide +kernel)
  exact ⟨e, hread, Expr.not_raises_of_all hfree, by decide +kernel⟩

end XPath
