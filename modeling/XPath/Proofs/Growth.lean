import XPath.Context.Static
import XPath.Proofs.FollowingReading

/-!
# More declarations

What can be read with some declarations can be read with more of them, and nothing in it refers to
another declaration than before: range variables hide the declared ones, the first signature of a
function that accepts a call keeps it, and built-in types come before declared ones. There is one
answer that more declarations do change: whether a string can be cast to a name.
-/

namespace XPath

open Parse

/-! ### Libraries with more functions -/

namespace FunctionLibrary

variable {l : FunctionLibrary} {name : ExpandedName} {arity : Nat} {f : FunctionBinding}

/-- Lists several more signatures, one after another. -/
def registerAll (l : FunctionLibrary) (added : List (ExpandedName × Signature)) :
    FunctionLibrary :=
  added.foldl (fun l (name, s) => l.register name s) l

theorem signatures_register (n : ExpandedName) (s : Signature) :
    (l.register n s).signatures name =
      l.signatures name ++ if n = name then [s] else [] := by
  unfold signatures register
  rw [List.filterMap_append]
  by_cases h : n = name <;> simp [h]

/-- A call keeps its function, since earlier signatures come first. -/
theorem bind?_register (n : ExpandedName) (s : Signature) (h : l.bind? name arity = some f) :
    (l.register n s).bind? name arity = some f := by
  have htarget : (l.register n s).constructorTarget? name = l.constructorTarget? name := rfl
  unfold bind? at h ⊢
  rw [htarget]
  split at h
  · exact h
  · obtain ⟨first, hfirst, rfl⟩ := Option.map_eq_some_iff.mp h
    refine Option.map_eq_some_iff.mpr ⟨first, ?_, rfl⟩
    rw [signatures_register, List.find?_append, hfirst, Option.some_or]

theorem bind?_registerAll (added : List (ExpandedName × Signature))
    (h : l.bind? name arity = some f) : (l.registerAll added).bind? name arity = some f := by
  induction added generalizing l with
  | nil => exact h
  | cons entry added ih => exact ih (bind?_register _ _ h)

end FunctionLibrary

/-! ### Contexts with more declarations -/

/-- The second context declares what the first one does, and maybe more, with the same defaults
for the same version of the language. -/
structure StaticContext.Grows (c c' : StaticContext) : Prop where
  namespaces : ∀ qualifier uri, c.namespaces.lookup qualifier = some uri →
    c'.namespaces.lookup qualifier = some uri
  «variables» : ∀ name type, c.«variables».lookup name = some type →
    c'.«variables».lookup name = some type
  schemaTypes : ∀ name type, c.schemaTypes.lookup name = some type →
    c'.schemaTypes.lookup name = some type
  functions : ∃ added, c'.functions = c.functions.registerAll added
  elementNamespace : c'.elementNamespace = c.elementNamespace
  functionNamespace : c'.functionNamespace = c.functionNamespace
  level : c'.level = c.level

namespace StaticContext

variable {c c' c'' : StaticContext}

namespace Grows

theorem refl (c : StaticContext) : c.Grows c :=
  ⟨fun _ _ h => h, fun _ _ h => h, fun _ _ h => h, ⟨[], rfl⟩, rfl, rfl, rfl⟩

theorem trans (h : c.Grows c') (h' : c'.Grows c'') : c.Grows c'' where
  namespaces qualifier uri huri := h'.namespaces qualifier uri (h.namespaces qualifier uri huri)
  «variables» name type htype := h'.«variables» name type (h.«variables» name type htype)
  schemaTypes name type htype := h'.schemaTypes name type (h.schemaTypes name type htype)
  functions := by
    obtain ⟨added, hadded⟩ := h.functions
    obtain ⟨added', hadded'⟩ := h'.functions
    refine ⟨added ++ added', ?_⟩
    rw [hadded', hadded]
    exact (List.foldl_append ..).symm
  elementNamespace := h'.elementNamespace.trans h.elementNamespace
  functionNamespace := h'.functionNamespace.trans h.functionNamespace
  level := h'.level.trans h.level

/-- What was found before a new entry is found behind it. -/
theorem lookup_cons {α β : Type} [BEq α] [LawfulBEq α] {entries : List (α × β)} {key : α} {b : β}
    (hnew : entries.lookup key = none) (k : α) (value : β) (h : entries.lookup k = some value) :
    List.lookup k ((key, b) :: entries) = some value := by
  have hne : (k == key) = false := by
    rw [beq_eq_false_iff_ne]
    rintro rfl
    rw [hnew] at h
    cases h
  rw [List.lookup_cons, hne]
  exact h

theorem declareNamespace {qualifier : String} (hnew : c.namespaces.lookup qualifier = none)
    (uri : String) : c.Grows (c.declareNamespace qualifier uri) := by
  unfold StaticContext.declareNamespace
  split
  · exact refl c
  · exact { refl c with namespaces := lookup_cons hnew }

theorem declareVariable {name : ExpandedName} (hnew : c.«variables».lookup name = none)
    (type : SequenceType) : c.Grows (c.declareVariable name type) :=
  { refl c with «variables» := lookup_cons hnew }

theorem declareSchemaType {type : SchemaType} (hnew : c.schemaTypes.lookup type.name = none) :
    c.Grows (c.declareSchemaType type) :=
  { refl c with schemaTypes := lookup_cons hnew }

theorem register (name : ExpandedName) (s : Signature) :
    c.Grows { c with functions := c.functions.register name s } :=
  { refl c with functions := ⟨[(name, s)], rfl⟩ }

theorem extendedBy (h : c.Grows c') : c.resolver.ExtendedBy c'.resolver where
  elementNamespace := h.elementNamespace
  functionNamespace := h.functionNamespace
  namespaceOf qualifier uri huri := by
    have huri : c.namespaceOf qualifier = .ok uri := huri
    show c'.namespaceOf qualifier = .ok uri
    unfold StaticContext.namespaceOf at huri ⊢
    cases hlookup : c.namespaces.lookup qualifier with
    | some found =>
        rw [hlookup] at huri
        rw [h.namespaces qualifier found hlookup]
        exact huri
    | none =>
        rw [hlookup] at huri
        cases huri
  variableType name type htype := by
    have htype : c.variableType name = .ok type := htype
    show c'.variableType name = .ok type
    unfold StaticContext.variableType at htype ⊢
    cases hlookup : c.«variables».lookup name with
    | some found =>
        rw [hlookup] at htype
        rw [h.«variables» name found hlookup]
        exact htype
    | none =>
        rw [hlookup] at htype
        cases htype
  schemaType? name type htype := by
    have htype : c.schemaType? name = some type := htype
    show c'.schemaType? name = some type
    unfold StaticContext.schemaType? at htype ⊢
    -- a built-in type is the same in both
    split at htype
    · exact htype
    · exact h.schemaTypes name type htype
  bind? name arity f hbind := by
    obtain ⟨added, hadded⟩ := h.functions
    show Except.ok (c'.functions.bind? name arity) = .ok (some f)
    rw [hadded, FunctionLibrary.bind?_registerAll added (Except.ok.inj hbind)]
  namespaceTests htests := by
    show decide (c'.level = .xpath30) = true
    rw [h.level]
    exact htests

end Grows

end StaticContext

/-! ### Reading with more declarations -/

/-- The value, without the answer that it gives if it is one. -/
def Literal.forgetAnswer : Literal → Literal
  | .boolean _ => .boolean false
  | value => value

theorem Literal.forgetAnswer_boolean (b : Bool) : forgetAnswer (.boolean b) = .boolean false :=
  rfl

theorem Literal.isFaithful_forgetAnswer : IsFaithful forgetAnswer where
  itemType v := by cases v <;> rfl
  string n v := by cases v <;> rfl

/-- Nothing is lost when calls of unknown functions are errors. -/
theorem StaticContext.Grows.widens {c c' : StaticContext} (h : c.Grows c')
    (hstrict : c.backwardsCompatible = false) (language : Language) :
    Setting.Widens ⟨language, c.resolver⟩ ⟨language, c'.resolver⟩ Literal.forgetAnswer
      fun _ => False where
  language := rfl
  host := h.extendedBy
  faithful := Literal.isFaithful_forgetAnswer
  castable text := by rw [Literal.forgetAnswer_boolean, Literal.forgetAnswer_boolean]
  part _ := id
  mapRange := id
  literal := id
  unknown hcompatible := by
    have hcompatible : c.backwardsCompatible = true := hcompatible
    rw [hstrict] at hcompatible
    cases hcompatible
  dropped := .inl fun _ => id

/-- An expression without truth values is the only one that is alike up to them. -/
theorem Expr.eq_of_forgetAnswer {e e' : Expr} (hfree : ∀ n b, .literal n (.boolean b) ∉ e.nodes)
    (h : e'.mapLiterals Literal.forgetAnswer = e.mapLiterals Literal.forgetAnswer) : e' = e := by
  have hkept : ∀ e : Expr, (∀ n b, .literal n (.boolean b) ∉ e.nodes) →
      e.mapLiterals Literal.forgetAnswer = e := fun e hfree =>
    mapLiterals_eq_self fun bs n v hocc => by
      cases v with
      | boolean b => exact absurd (mem_nodes.mpr ⟨bs, hocc⟩) (hfree n b)
      | _ => rfl
  rw [hkept e hfree] at h
  -- what is a truth value in `e'` is one in `e` too
  rw [← hkept e' fun n b hmem => ?_, h]
  obtain ⟨bs, hocc⟩ := mem_nodes.mp hmem
  have hocc := occurs_mapLiterals (g := Literal.forgetAnswer) hocc
  rw [h] at hocc
  exact hfree n false (mem_nodes.mpr ⟨bs, hocc⟩)

/-! ### Truth values -/

/-- The truth value that the node spells out. -/
def Expr.truth? : Expr → Option Bool
  | literal _ (.boolean b) => some b
  | _ => none

theorem Literal.ofNumber?_ne_boolean {text : String} {b : Bool} :
    ofNumber? text ≠ some (.boolean b) := by
  unfold ofNumber? ofNumeral? ofInteger
  intro h
  split at h
  · obtain ⟨x, -, h⟩ := Option.map_eq_some_iff.mp h
    cases h
  · obtain ⟨x, -, h⟩ := Option.map_eq_some_iff.mp h
    cases h
  · dsimp only at h
    split at h <;> cases h

theorem Parse.qnameLiteral_ne_boolean {host : Resolver} {text : String} {b : Bool} :
    qnameLiteral host text ≠ .ok (.boolean b) := by
  unfold qnameLiteral
  intro h
  dsimp only at h
  split at h
  · cases h
  · split at h
    · cases h
    · split at h <;> cases h

/-- A truth value is the answer to a question. -/
theorem Literal.IsRead.asked {σ : Setting} {c : Cursor} {n : Nat} {b : Bool}
    (h : (Literal.boolean b).IsRead σ c n) : AskedAt σ c n b := by
  cases h with
  | number h => exact absurd h ofNumber?_ne_boolean
  | qname h => exact absurd h qnameLiteral_ne_boolean
  | boolean h => exact h

/-- What is read with some declarations is read with more of them, with the same references,
functions, types and offsets in the tree, unless there are truth values in it. These are answers to
the question whether a string can be cast to a name. -/
theorem read_with_more_declarations {c c' : StaticContext} (hgrows : c.Grows c')
    (hstrict : c.backwardsCompatible = false)
    {source : String} {start : Nat} {terminator : Token} {warnings warnings' : List String}
    {e : Expr} (h : readExpressionAt source start terminator c.resolver warnings =
      ⟨.ok e, warnings'⟩) :
    (∀ n b, .literal n (.boolean b) ∈ e.nodes →
        AskedAt ⟨.expression, c.resolver⟩ (.ofSource source start) n b) ∧
      ((∀ n b, .literal n (.boolean b) ∉ e.nodes) →
        readExpressionAt source start terminator c'.resolver warnings = ⟨.ok e, warnings'⟩) := by
  obtain ⟨t, hrun, rfl⟩ := Parser.reading_run.mp h
  constructor
  · intro n b hmem
    obtain ⟨bs, hocc⟩ := Expr.mem_nodes.mp hmem
    exact ((complete_assembled hrun).assembled bs _ hocc).1.asked
  · intro hfree
    rcases complete_followedBy (hgrows.widens hstrict .expression) terminator _ _ _ hrun with
      hlost | ⟨e', hrun', halike⟩
    · exact hlost.elim
    · rw [Expr.eq_of_forgetAnswer hfree halike] at hrun'
      exact Parser.reading_run.mpr ⟨t, hrun', rfl⟩

/-- A variable is declared that the loop has for itself, and a function is listed again. -/
theorem read_with_more_declarations_of_loop : ∃ e,
    readExpression "for $x in (1, 2) return count($x)" ({} : StaticContext).resolver [] =
        ⟨.ok e, []⟩ ∧
      readExpression "for $x in (1, 2) return count($x)" (StaticContext.resolver
        { «variables» := [(⟨"", "x"⟩, ⟨.atomic .string, .exactlyOne⟩)]
          functions := FunctionLibrary.standard.register ⟨Namespace.functions, "count"⟩
            ⟨0, none, .extended, ⟨.atomic .string, .exactlyOne⟩⟩ }) [] = ⟨.ok e, []⟩ := by
  obtain ⟨e, hread, hfree⟩ := exists_of_reading
    (r := readExpression "for $x in (1, 2) return count($x)" ({} : StaticContext).resolver [])
    (c := fun e => e.nodes.all (·.truth?.isNone)) (by decide +kernel) (by decide +kernel)
  have hvariable : ({} : StaticContext).Grows (.declareVariable {} ⟨"", "x"⟩
      ⟨.atomic .string, .exactlyOne⟩) := .declareVariable rfl _
  have hgrows := hvariable.trans (.register ⟨Namespace.functions, "count"⟩
    ⟨0, none, .extended, ⟨.atomic .string, .exactlyOne⟩⟩)
  refine ⟨e, hread, (read_with_more_declarations hgrows rfl hread).2 fun n b hmem => ?_⟩
  cases List.all_eq_true.mp hfree _ hmem

end XPath
