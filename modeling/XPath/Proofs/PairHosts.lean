import XPath.Proofs.PairReading

/-!
# Readers with one host

Two readers that ask the same host get the same answers. What is left to know is that an error of
the host, or a fault that it gives rise to, fails both readers alike (`Pair.Answers.of_host`).
Two readers for one language need even less (`Pair.Answers.of_setting`).
-/

namespace XPath

open Parse

namespace Pair

variable {P : Pair} {s s' : ParseState}

/-- Both readers pass this error on. -/
def Passes (P : Pair) (e : Error) : Prop :=
  ∀ c c', P.Beside c c' → P.Failing c (failure P.left c e) c' (failure P.right c' e)

theorem Passes.agree {α β : Type} {Q : α → ParseState → β → ParseState → Prop} {e : Error}
    (he : P.Passes e) (h : P.Linked s s') :
    P.Agree Q (fail P.left e s) (fail P.right e s') :=
  .fail (he _ _ h.cursor) h.nextId h.warnings

theorem Agree.ask {α : Type} {answer : Except Error α}
    (he : ∀ e, answer = .error e → P.Passes e) (h : P.Linked s s') :
    P.Agree (Stays s s') (ask P.left answer s) (ask P.right answer s') := by
  cases answer with
  | ok a => exact .ok ⟨rfl, rfl, rfl⟩
  | error e => exact (he e rfl).agree h

theorem Agree.stays {α : Type} {a : α} :
    P.Agree (Stays s s') ((Pure.pure a : Parse α) s) ((Pure.pure a : Parse α) s') :=
  .ok ⟨rfl, rfl, rfl⟩

/-! ### Types -/

section Types

variable [P.Lawful] (hhost : P.right.host = P.left.host)
include hhost

theorem expandName_agrees (hraised : ∀ q e, P.left.host.namespaceOf q = .error e → P.Passes e)
    (h : P.Linked s s') (lexical : String) (b : Bool) :
    P.Agree (Stays s s') (expandName P.left lexical b s) (expandName P.right lexical b s') := by
  unfold expandName
  rw [hhost]
  cases LexicalQName.parse? lexical with
  | none => exact .reject h rfl
  | some n =>
      dsimp only
      split
      · exact .stays
      · refine .bind (.ask (hraised _) h) ?_
        rintro uri _ _ _ ⟨rfl, rfl, rfl⟩
        exact .stays

/-- A name of a type means the same to both hosts, or both do not know it. -/
theorem atomicType_agrees (hraised : ∀ q e, P.left.host.namespaceOf q = .error e → P.Passes e)
    (h : P.Linked s s') (lexical : String) :
    P.Agree (Stays s s') (atomicType P.left lexical s) (atomicType P.right lexical s') := by
  unfold atomicType
  rw [hhost]
  cases LexicalQName.parse? lexical with
  | none => exact .reject h rfl
  | some n =>
      -- the namespace is found in one of two ways, and what follows is the same
      have hfound : ∀ q q' : String → Parse AtomicType,
          (∀ uri, P.Agree (Stays s s') (q uri s) (q' uri s')) →
            P.Agree (Stays s s')
              ((if n.qualifier = "" then pure (P.left.host.elementNamespace.getD "") >>= q
                else ask P.left (P.left.host.namespaceOf n.qualifier) >>= q) s)
              ((if n.qualifier = "" then pure (P.left.host.elementNamespace.getD "") >>= q'
                else ask P.right (P.left.host.namespaceOf n.qualifier) >>= q') s') := by
        intro q q' hq
        split
        · exact hq _
        · refine .bind (.ask (hraised _) h) ?_
          rintro _ _ uri _ ⟨rfl, rfl, rfl⟩
          exact hq uri
      refine hfound _ _ fun uri => ?_
      dsimp only
      split
      · exact .reject h rfl
      · split
        · cases SchemaType.builtin? n.localName with
          | none => exact .reject h rfl
          | some type =>
              cases type with
              | atomic t => exact .stays
              | _ => exact .reject h rfl
        · cases P.left.host.schemaType? ⟨uri, n.localName⟩ with
          | none => exact .reject h rfl
          | some type => exact .reject h rfl

/-- Hosts that answer alike about names and types let both readers go on alike. -/
theorem TypeAnswers.of_host
    (hraised : ∀ q e, P.left.host.namespaceOf q = .error e → P.Passes e) : P.TypeAnswers where
  expandName := expandName_agrees hhost hraised
  atomicType := atomicType_agrees hhost hraised
  knownType := by
    intro s s' h lexical name
    unfold Parse.knownType
    rw [hhost]
    cases P.left.host.schemaType? name with
    | none => exact .reject h rfl
    | some type => exact .stays
  allowedTest := by
    intro s s' h
    unfold Parse.allowedTest
    rw [hhost]
    split
    · exact .stays
    · exact .reject h rfl

end Types

/-! ### Expressions -/

section Expressions

variable [P.Lawful] (hhost : P.right.host = P.left.host)
  (hraised : ∀ e, P.left.host.Raises e → P.Passes e)
  (hfaults : ∀ f : Fault, f.Arises P.left.host → P.Reports f)
include hhost hfaults

omit [P.Lawful] in
theorem declaredNamespace_agrees (h : P.Linked s s') (qualifier : String) :
    P.Agree (Stays s s') (declaredNamespace P.left qualifier s)
      (declaredNamespace P.right qualifier s') := by
  unfold declaredNamespace
  rw [hhost]
  cases P.left.host.namespaceOf qualifier with
  | ok uri => exact .stays
  | error e => exact .rejects (hfaults _ ⟨rfl, trivial⟩) h

omit [P.Lawful] in
theorem functionName_agrees {lexical : String}
    (hname : LexicalQName.parse? lexical = none → P.Reports (.malformedFunctionName lexical))
    (h : P.Linked s s') :
    P.Agree (Stays s s') (functionName P.left lexical s) (functionName P.right lexical s') := by
  unfold functionName
  rw [hhost]
  cases hparse : LexicalQName.parse? lexical with
  | none => exact .rejects (hname hparse) h
  | some n =>
      dsimp only
      split
      · exact .stays
      · refine .bind (declaredNamespace_agrees hhost hfaults h _) ?_
        rintro uri _ _ _ ⟨rfl, rfl, rfl⟩
        exact .stays

omit [P.Lawful] in
theorem cast_agrees (h : P.Linked s s') (start : Nat) (castable : Bool) (operand : Expr)
    (type : SingleType) :
    P.Agree (P.Gives P.tree) (Parse.cast P.left start castable operand type s)
      (Parse.cast P.right (P.offset start) castable (P.tree operand) type s') := by
  unfold Parse.cast
  rw [hhost]
  simp only [tree, Expr.stringLiteral?_relocate]
  generalize type.atomic = atomic, operand.stringLiteral? = text?
  split
  · cases castable with
    | true => exact .pure ⟨rfl, h⟩
    | false =>
        cases hliteral : qnameLiteral P.left.host _ with
        | ok literal => exact .pure ⟨rfl, h⟩
        | error f => exact .rejects (hfaults f (qnameLiteral_arises hliteral)) h
  · exact .pure ⟨rfl, h⟩

omit hfaults in
include hraised in
theorem hostVariable_agrees (h : P.Linked s s') (start : Nat) (name : ExpandedName)
    (lexical : String) :
    P.Agree (P.Gives P.tree) (hostVariable P.left start name lexical s)
      (hostVariable P.right (P.offset start) name lexical s') := by
  unfold hostVariable
  rw [hhost]
  cases hvariable : P.left.host.variableType name with
  | ok type => exact .pure ⟨rfl, h⟩
  | error e =>
      dsimp only
      split
      · exact .reject h rfl
      · exact (hraised e (.ofVariable name hvariable)).agree h

include hraised in
omit [P.Lawful] in
/-- A call is bound alike, since the hosts know the same functions. -/
theorem boundCall_agrees
    (hcalls : ∀ {s s'}, P.Linked s s' → ∀ {name arity function} start args,
      P.left.host.bind? name arity = .ok (some function) →
        P.Agree (P.Gives P.tree) (callIn P.left start function args s)
          (callIn P.right (P.offset start) function (args.map P.tree) s'))
    (h : P.Linked s s') (start : Nat) (name : ExpandedName) (args : List Expr) :
    P.Agree (P.Gives P.tree) (boundCall P.left start name args s)
      (boundCall P.right (P.offset start) name (args.map P.tree) s') := by
  unfold boundCall
  rw [hhost, List.length_map]
  cases hbind : P.left.host.bind? name args.length with
  | error e =>
      exact .bind (Q := fun _ _ _ _ => False) ((hraised e (.ofFunction name _ hbind)).agree h)
        fun _ _ _ _ => False.elim
  | ok function? =>
      simp only [Parse.ask, pure_bind]
      cases function? with
      | none =>
          unfold unknownCall
          rw [hhost]
          dsimp only
          split
          · exact .pure ⟨rfl, h⟩
          · exact .rejects (hfaults _ ⟨rfl, hbind, rfl⟩) h
      | some function =>
          have hliteral : (args.map P.tree).head?.bind Expr.stringLiteral? =
              args.head?.bind Expr.stringLiteral? := by
            cases args with
            | nil => rfl
            | cons e es => exact Expr.stringLiteral?_relocate e
          dsimp only
          unfold knownCall
          rw [hhost, hliteral]
          generalize function.kind = kind, args.head?.bind Expr.stringLiteral? = text?
          split
          · next text =>
              cases hqname : qnameLiteral P.left.host text with
              | ok literal => exact .pure ⟨rfl, h⟩
              | error f => exact .rejects (hfaults f (qnameLiteral_arises hqname)) h
          · exact hcalls h start args hbind

include hraised in
/-- Readers with one host get the same answers. What depends on the language are the functions
that mean nothing in a pattern, and the axis of a test for documents. -/
theorem Answers.of_host (hmild : P.relocation.IsMild)
    (hnames : ∀ c c', P.Beside c c' → c.token = .function →
      LexicalQName.parse? c.value = none → P.Reports (.malformedFunctionName c.value))
    (hcalls : ∀ {s s'}, P.Linked s s' → ∀ {name arity function} start args,
      P.left.host.bind? name arity = .ok (some function) →
        P.Agree (P.Gives P.tree) (callIn P.left start function args s)
          (callIn P.right (P.offset start) function (args.map P.tree) s'))
    (hfirst : ∀ c c', P.Beside c c' → P.Starts c →
      P.Implies c (P.left.language = .pattern) (P.right.language = .pattern))
    (hlater : ∀ c c', P.Beside c c' → P.Implies c false false)
    (hnamed : ∀ c c' axis, P.Beside c c' → c.token = .axis → Axis.ofName? c.value = some axis →
      ∀ test, P.axis c.offset test axis = axis) : P.Answers where
  toTypeAnswers := .of_host hhost fun q e he => hraised e (.ofQualifier q he)
  mild := hmild
  declaredNamespace := declaredNamespace_agrees hhost hfaults
  functionName h hs := functionName_agrees hhost hfaults (hnames _ _ h.cursor hs) h
  hostVariable := hostVariable_agrees hhost hraised
  boundCall := boundCall_agrees hhost hraised hfaults hcalls
  notCastable _ := hfaults _ ⟨rfl, trivial⟩
  cast := cast_agrees hhost hfaults
  first := hfirst _ _
  later := hlater _ _
  named := hnamed _ _ _

end Expressions

/-- Readers for one language make the same of a call. -/
theorem callIn_agrees (hsetting : P.right = P.left)
    (hgroups : P.left.language = .pattern →
      P.Reports .currentGroup ∧ P.Reports .currentGroupingKey)
    {s s' : ParseState} (h : P.Linked s s') (start : Nat) (function : FunctionBinding)
    (args : List Expr) :
    P.Agree (P.Gives P.tree) (callIn P.left start function args s)
      (callIn P.right (P.offset start) function (args.map P.tree) s') := by
  have hcall : Expr.call (P.offset start) function (args.map P.tree) =
      P.tree (.call start function args) :=
    congrArg (Expr.call _ _) (Expr.relocateAll_eq_map _ args).symm
  unfold callIn
  rw [hsetting]
  generalize hlanguage : P.left.language = language, function.kind = kind
  split
  · exact .pure ⟨rfl, h⟩
  · have hreports := (hgroups hlanguage).1
    unfold Reports at hreports
    rw [hsetting] at hreports
    exact .fail (hreports _ _ h.cursor) h.nextId h.warnings
  · have hreports := (hgroups hlanguage).2
    unfold Reports at hreports
    rw [hsetting] at hreports
    exact .fail (hreports _ _ h.cursor) h.nextId h.warnings
  · exact .pure ⟨hcall, h⟩

/-- Readers for one language with one host. -/
theorem Answers.of_setting [P.Lawful] (hsetting : P.right = P.left)
    (haxis : ∀ n test axis, P.axis n test axis = axis)
    (hraised : ∀ e, P.left.host.Raises e → P.Passes e)
    (hfaults : ∀ f : Fault, f.Arises P.left.host → P.Reports f)
    (hnames : ∀ c c', P.Beside c c' → c.token = .function →
      LexicalQName.parse? c.value = none → P.Reports (.malformedFunctionName c.value))
    (hgroups : P.left.language = .pattern →
      P.Reports .currentGroup ∧ P.Reports .currentGroupingKey) : P.Answers :=
  .of_host (congrArg Setting.host hsetting) hraised hfaults
    ⟨fun _ _ => id, fun n test axis => .inl (haxis n test axis)⟩ hnames
    (fun h _ _ function start args _ => callIn_agrees hsetting hgroups h start function args)
    (fun c _ _ _ test => by rw [haxis, hsetting]) (fun c _ _ test => haxis _ _ _)
    fun c _ axis _ _ _ test => haxis _ _ _

end Pair

end XPath
