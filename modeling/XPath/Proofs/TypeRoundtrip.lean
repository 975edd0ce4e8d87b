import XPath.Proofs.Roundtrip

/-!
# Types and their texts

A sequence type that has been read is read again from its own text, whatever its tests, names,
content types, nesting and occurrence are. The names in it have to mean the same where they are
written without a qualifier, or with the conventional one (`ExpandedName.IsBound`).
-/

namespace XPath

open Parse

section Types

variable {host : Resolver} {source : String} {warnings : List String} {type : SequenceType}

theorem readSequenceType_run {u : ParseState}
    (h : completeType ⟨.sequenceType, host⟩
      (Parser.ofSource source 0 .sequenceType host warnings).state = .ok type u) :
    readSequenceType source host warnings = ⟨.ok type, u.warnings⟩ :=
  Parser.reading_run.mpr ⟨u, h, rfl⟩

theorem completeType_of_readSequenceType
    (h : (readSequenceType source host warnings).outcome = .ok type) :
    ∃ u, completeType ⟨.sequenceType, host⟩
      (Parser.ofSource source 0 .sequenceType host warnings).state = .ok type u := by
  obtain ⟨u, hu, -⟩ := Parser.reading_run.mp
    (show readSequenceType source host warnings = ⟨.ok type, _⟩ by rw [← h])
  exact ⟨u, hu⟩

/-- A type that is read is formed as types are. -/
theorem readSequenceType_formed (htypes : host.NamesTypes)
    (h : (readSequenceType source host warnings).outcome = .ok type) : type.IsFormed host := by
  obtain ⟨u, hu⟩ := completeType_of_readSequenceType h
  have hgives : Gives (SequenceType.IsFormed host) (completeType ⟨.sequenceType, host⟩) := by
    refine .after fun _ => ?_
    refine .bind (.sequenceType htypes) fun type htype => ?_
    refine .after fun next => ?_
    split
    · exact .pure htype
    · exact .after fun _ => .reject
  exact hgives _ _ _ hu

/-- The text of a type as a whole source. -/
theorem SequenceType.IsFormed.rereads (htype : type.IsFormed host) (hbinds : host.Binds type.names)
    (warnings : List String) :
    (readSequenceType type.render host warnings).outcome = .ok type := by
  let start := (Parser.ofSource type.render 0 .sequenceType host warnings).state
  have hrest : start.cursor.rest = [] ++ (type.render.toList ++ []) := by
    show (Cursor.ofSource type.render 0).rest = _
    rw [ofSource_zero]
    simp
  obtain ⟨d, hd, hread⟩ := sequenceType_ends (σ := ⟨.sequenceType, host⟩) htype hbinds
    Lexeme.precedesOperand_eof (.inl rfl) hrest .nil rfl
  have hcomplete : Ends ⟨.sequenceType, host⟩ (fun _ => False)
      (completeType ⟨.sequenceType, host⟩) start fun type' _ => type' = type := by
    refine .advance hd (.bind (hread _ rfl) ?_)
    rintro type' u ⟨rfl, hu⟩
    refine .token hu.token ?_
    rw [if_pos rfl]
    exact .pure rfl
  rcases hcomplete with ⟨_, u, hu, rfl⟩ | ⟨_, hfalse, -⟩
  · rw [readSequenceType_run hu]
  · exact hfalse.elim

end Types

/-- A sequence type that has been read in a context without an element namespace is rendered as
a text from which it is read again there, if all names in it are in no namespace or in one whose
conventional qualifier the context binds to it. -/
theorem readSequenceType_render {context : StaticContext} {source : String}
    {warnings : List String} {type : SequenceType} (htypes : context.NamesTypes)
    (helements : context.elementNamespace = none)
    (h : (readSequenceType source context.resolver warnings).outcome = .ok type)
    (hnames : ∀ n ∈ type.names, n.IsBound context.resolver) (warnings' : List String) :
    (readSequenceType type.render context.resolver warnings').outcome = .ok type :=
  (readSequenceType_formed htypes.resolver h).rereads ⟨helements, hnames⟩ warnings'

/-- An element test inside a document test, with a name that needs a qualifier and a declared type
of nillable content. -/
theorem readSequenceType_render_of_documents :
    ∃ type, (readSequenceType "document-node (element( xsi:a , size ? )) *"
        (StaticContext.declareSchemaType {} (.user (.unqualified "size") true)).resolver
        []).outcome = .ok type ∧
      type.render = "document-node(element(xsi:a, size?))*" ∧
      (readSequenceType type.render
        (StaticContext.declareSchemaType {} (.user (.unqualified "size") true)).resolver
        []).outcome = .ok type := by
  have hresult : (readSequenceType "document-node (element( xsi:a , size ? )) *"
      (StaticContext.declareSchemaType {} (.user (.unqualified "size") true)).resolver
      []).outcome.toOption.any (· = ⟨.node (.document (.both
        (.name .element ⟨Namespace.schemaInstance, "a"⟩)
        (.content .element (.user (.unqualified "size") true) true))), .zeroOrMore⟩) = true := by
    decide +kernel
  obtain ⟨type, htype, heq⟩ := exists_of_any hresult
  obtain rfl := of_decide_eq_true heq
  refine ⟨_, htype, by decide +kernel, readSequenceType_render
    (StaticContext.namesTypes_default.declareSchemaType _) rfl htype ?_ []⟩
  intro n hn
  rcases List.mem_cons.mp hn with rfl | hn
  · exact .inr ⟨"xsi", rfl, rfl⟩
  · rw [List.mem_singleton.mp hn]
    exact .inl rfl

end XPath
