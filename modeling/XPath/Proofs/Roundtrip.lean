import Mathlib.Data.List.Basic
import XPath.Proofs.ReadbackCompounds

/-!
# Rendering and reading

What is read from a source, rendered as text and read again is the same expression, but for
offsets, the ids and the types of range variables; or it is nested too deeply, since the text has
more parentheses than the source (`readExpression_render`). This holds for the expressions that can
be written as text: a literal value that is written as a call, a part that is put into document
order, and names whose qualifiers are not known have no text that means the same.
-/

namespace XPath

open Parse

namespace Expr

mutual

/-- The expression has a text that means the same: it holds no root and nothing that is only known
when it is read or evaluated, its literals are written as themselves, and its names are in no
namespace, except for functions and for names that are values. -/
def isLegible : Expr → Bool
  | literal _ value => value.isLegible
  | varRef _ ref => ref.name.uri = ""
  | contextItem _ | parent _ => true
  | root _ | reverse _ _ | raise _ _ => false
  | axisStep _ axis test => axis.isLegible test
  | filter _ a b | path _ a b | binary _ _ a b => a.isLegible && b.isLegible
  | unary _ _ a => a.isLegible
  | conditional _ a b c => a.isLegible && b.isLegible && c.isLegible
  | binding _ _ v domain action => v.name.uri = "" && domain.isLegible && action.isLegible
  | typed _ op a => op.isLegible && a.isLegible
  | call _ f args => f.isLegible && areLegible args
  | sequence _ items => areLegible items

/-- All of several expressions have such a text. -/
def areLegible : List Expr → Bool
  | [] => true
  | e :: es => e.isLegible && areLegible es

end

theorem isLegible_of_mem {es : List Expr} (h : areLegible es = true) {e : Expr} (he : e ∈ es) :
    e.isLegible = true := by
  induction es with
  | nil => exact absurd he List.not_mem_nil
  | cons d es ih =>
      rw [areLegible, Bool.and_eq_true] at h
      rcases List.mem_cons.mp he with rfl | he
      · exact h.1
      · exact ih h.2 he

/-- Every expression of the form in which expressions are read, and with a text that means the
same, is read back from that text. -/
theorem rereads {host : Resolver} (hhost : host.IsUsual) {e : Expr} (h : e.Formed host)
    (hlegible : e.isLegible = true) : e.Rereads host := by
  induction h with
  | reverse => cases hlegible
  | @node e he _ ih =>
      cases e with
      | literal n value =>
          cases value with
          | integer m => exact rereads_number he (.integer m)
          | bigInteger digits => exact rereads_number he (.bigInteger digits)
          | decimal x => exact rereads_number he (.decimal (of_decide_eq_true hlegible))
          | double x => cases hlegible
          | string text => exact rereads_string
          | boolean b => cases hlegible
          | qname qualifier name => exact rereads_qname hhost he
          | emptySequence => exact rereads_emptySequence
      | varRef n ref => exact rereads_varRef hhost he (of_decide_eq_true hlegible)
      | contextItem n => exact rereads_contextItem
      | root n => cases hlegible
      | parent n => exact rereads_parent
      | axisStep n axis test => exact rereads_axisStep hhost he.1 he.2 hlegible
      | reverse n a => cases hlegible
      | raise n error => cases hlegible
      | filter n a b =>
          obtain ⟨ha, hb⟩ := (Bool.and_eq_true _ _).mp hlegible
          exact rereads_filter (ih a (by simp [children]) ha) (ih b (by simp [children]) hb)
      | path n a b =>
          obtain ⟨ha, hb⟩ := (Bool.and_eq_true _ _).mp hlegible
          refine rereads_path (ih a (by simp [children]) ha) (ih b (by simp [children]) hb) ?_
          rintro m rfl
          cases ha
      | binary n op a b =>
          obtain ⟨ha, hb⟩ := (Bool.and_eq_true _ _).mp hlegible
          exact rereads_binary (ih a (by simp [children]) ha) (ih b (by simp [children]) hb)
      | unary n sign a => exact rereads_unary (ih a (by simp [children]) hlegible)
      | conditional n a b c =>
          obtain ⟨hab, hc⟩ := (Bool.and_eq_true _ _).mp hlegible
          obtain ⟨ha, hb⟩ := (Bool.and_eq_true _ _).mp hab
          exact rereads_conditional (ih a (by simp [children]) ha) (ih b (by simp [children]) hb)
            (ih c (by simp [children]) hc)
      | binding n kind v domain action =>
          obtain ⟨hparts, haction⟩ := (Bool.and_eq_true _ _).mp hlegible
          obtain ⟨huri, hdomain⟩ := (Bool.and_eq_true _ _).mp hparts
          exact rereads_binding hhost he (of_decide_eq_true huri)
            (ih domain (by simp [children]) hdomain) (ih action (by simp [children]) haction)
      | typed n op a =>
          obtain ⟨hop, ha⟩ := (Bool.and_eq_true _ _).mp hlegible
          exact rereads_typed hhost he hop (ih a (by simp [children]) ha)
      | call n f args =>
          obtain ⟨hf, hargs⟩ := (Bool.and_eq_true _ _).mp hlegible
          exact rereads_call hhost he hf fun a ha => ih a ha (isLegible_of_mem hargs ha)
      | sequence n items =>
          exact rereads_sequence he fun a ha => ih a ha (isLegible_of_mem hlegible ha)

end Expr

/-! ### Hosts -/

theorem SchemaType.builtin?_name {localName : String} {type : SchemaType}
    (h : builtin? localName = some type) : type.name = ⟨Namespace.schema, localName⟩ := by
  unfold builtin? at h
  split at h
  · next t ht =>
      cases h
      unfold AtomicType.ofLocalName? at ht
      have hname : t.localName = localName := by simpa using List.find?_some ht
      rw [name, AtomicType.expandedName, hname]
  · split at h <;> cases h <;> rfl

namespace StaticContext

variable {context : StaticContext}

/-- The declared types are found under their own names, as `declareSchemaType` sees to. -/
def NamesTypes (context : StaticContext) : Prop :=
  ∀ name type, context.schemaTypes.lookup name = some type → type.name = name

theorem namesTypes_default : ({} : StaticContext).NamesTypes := by
  intro name type h
  cases h

theorem NamesTypes.declareSchemaType (h : context.NamesTypes) (type : SchemaType) :
    (context.declareSchemaType type).NamesTypes := by
  intro name found hfound
  have hfound : ((type.name, type) :: context.schemaTypes).lookup name = some found := hfound
  rw [List.lookup_cons] at hfound
  split at hfound
  · next heq =>
      cases hfound
      exact (eq_of_beq heq).symm
  · exact h name found hfound

theorem NamesTypes.resolver (h : context.NamesTypes) : context.resolver.NamesTypes := by
  intro name type htype
  have htype : context.schemaType? name = some type := htype
  unfold schemaType? at htype
  split at htype
  · next found hfound =>
      cases htype
      split at hfound
      · next hin =>
          rw [SchemaType.builtin?_name hfound]
          unfold ExpandedName.isIn at hin
          rw [Bool.and_eq_true] at hin
          rw [← of_decide_eq_true hin.2]
      · cases hfound
  · exact h name type htype

/-- A context with the standard functions, without an element namespace and with the qualifiers
`xs` and `fn` for what they usually stand for. -/
theorem isUsual (helements : context.elementNamespace = none)
    (hschema : context.namespaceOf "xs" = .ok Namespace.schema)
    (hfunctions : context.namespaceOf "fn" = .ok Namespace.functions)
    (hlibrary : context.functions = .standard) (htypes : context.NamesTypes) :
    context.resolver.IsUsual where
  elements := helements
  schema := hschema
  functions := hfunctions
  library name arity := by
    show Except.ok (context.functions.bind? name arity) = _
    rw [hlibrary]
  types := htypes.resolver

end StaticContext

/-! ### Sources -/

/-- Two expressions agree but for offsets, for the types of the variables that they bind, and for
the ids of these variables, which correspond one to one. -/
def Expr.Alike (e e' : Expr) : Prop :=
  ∃ ids : Nat → Nat, (∀ i ∈ e.boundIds, ∀ j ∈ e.boundIds, ids i = ids j → i = j) ∧
    e'.outline id = e.outline ids

section Sources

variable {host : Resolver} {source : String} {warnings : List String} {e : Expr}

theorem readExpression_formed (hhost : host.IsUsual)
    (h : (readExpression source host warnings).outcome = .ok e) : e.Formed host := by
  cases hrun : complete host.reader .eof
      (Parser.ofSource source 0 .expression host warnings).state with
  | ok e' t =>
      rw [readExpression_run hrun] at h
      cases h
      exact complete_formed hhost _ _ _ hrun
  | error e' t =>
      rw [readExpression_fails hrun] at h
      cases h

/-- Nothing around a source declares range variables, and those that it binds are numbered by
their places in the order in which they are read. -/
theorem readExpression_fits (h : (readExpression source host warnings).outcome = .ok e) :
    e.Fits host e.readIds.idxOf [] 0 := by
  have hsource :
      ((Parser.ofSource source 0 .expression host warnings).expression .eof).1 = .ok e := h
  obtain ⟨s, t, hscope, -, hreads⟩ := Parser.expression_reads hsource
  have hscoped : e.Scoped host s.scope :=
    hreads.scoped fun v hv => absurd (hscope ▸ hv) List.not_mem_nil
  rw [hscope] at hscoped
  have hnodup : e.readIds.Nodup := e.readIds_perm.nodup_iff.mpr hreads.freshIds.1
  exact ⟨hscoped, Expr.map_idxOf_eq_range' hnodup⟩

/-- The text of an expression as a whole source. -/
theorem Expr.Rereads.complete {ids : Nat → Nat} (h : e.Rereads host) (hfits : e.Fits host ids [] 0)
    (warnings : List String) :
    Meets host.reader (complete host.reader .eof)
      (Parser.ofSource e.render 0 .expression host warnings).state fun e' _ =>
        e'.outline id = e.outline ids := by
  let start := (Parser.ofSource e.render 0 .expression host warnings).state
  have hrest : start.cursor.rest = [] ++ (e.render.toList ++ []) := by
    show (Cursor.ofSource e.render 0).rest = _
    rw [ofSource_zero]
    simp
  obtain ⟨d, hd, -, hread⟩ := h.expression hfits Lexeme.precedesOperand_eof.startsOperand (.inl rfl)
    hrest .nil (by decide)
  refine .advance hd (.bind (hread _ _ ⟨rfl, rfl, rfl⟩) fun e' u hback => ?_)
  refine .token hback.place.token ?_
  rw [if_pos rfl]
  exact .pure hback.outline

/-- A legible expression that has been read from a source is rendered as a text from which it is
read again, but for offsets, ids and the types of range variables. Only the limit on levels, of
which the parentheses in the text take more than the source did, may stop this. -/
theorem readExpression_render (hhost : host.IsUsual)
    (h : (readExpression source host warnings).outcome = .ok e) (hlegible : e.isLegible = true)
    (warnings' : List String) :
    (∃ e', (readExpression e.render host warnings').outcome = .ok e' ∧ e.Alike e') ∨
      ∃ location, (readExpression e.render host warnings').outcome =
        .error { Fault.tooDeep.error .expression with location := some location } := by
  have hrereads : e.Rereads host := Expr.rereads hhost (readExpression_formed hhost h) hlegible
  rcases hrereads.complete (readExpression_fits h) warnings' with
    ⟨e', u, hrun, hback⟩ | ⟨_, rfl, location, u, hrun⟩
  · refine .inl
      ⟨e', by rw [readExpression_run hrun], e.readIds.idxOf, fun i hi j _ heq => ?_, hback⟩
    exact (List.idxOf_inj (e.readIds_perm.mem_iff.mpr hi)).mp heq
  · exact .inr ⟨location, by rw [readExpression_fails hrun]⟩

end Sources

theorem readExpression_render_of_clauses :
    ∃ e e', (readExpression "for $x in a, $y in @b return if ($x = 1.5) then -$y else ($x, 'c')"
        (StaticContext.resolver {}) []).outcome = .ok e ∧
      (readExpression e.render (StaticContext.resolver {}) []).outcome = .ok e' ∧ e.Alike e' := by
  obtain ⟨e, he, hchecks⟩ := exists_of_any
    (r := (readExpression "for $x in a, $y in @b return if ($x = 1.5) then -$y else ($x, 'c')"
      (StaticContext.resolver {}) []).outcome)
    (c := fun e => e.isLegible &&
      (readExpression e.render (StaticContext.resolver {}) []).outcome.isOk) (by decide +kernel)
  obtain ⟨hlegible, hagain⟩ := (Bool.and_eq_true _ _).mp hchecks
  have hhost : (StaticContext.resolver {}).IsUsual :=
    StaticContext.isUsual rfl rfl rfl rfl StaticContext.namesTypes_default
  rcases readExpression_render hhost he hlegible [] with ⟨e', he', halike⟩ | ⟨location, herror⟩
  · exact ⟨e, e', he, he', halike⟩
  · rw [herror] at hagain
    cases hagain

end XPath
