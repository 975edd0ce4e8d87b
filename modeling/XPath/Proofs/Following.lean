import XPath.Proofs.Forms
import XPath.Proofs.Together
import XPath.Proofs.Values

/-!
# Readers that follow another one

A reader whose host knows more reads what another one reads: names, tests and types are the same
then, and calls have the same functions. Two things can come out differently. A cast that is
decided when it is read may succeed with more names, so that expressions are compared up to a
change of values; and a call that one reader leaves to fail the other one may not accept, so that
the second reader follows the first one only as long as no such call is kept
(`Setting.Widens`). With that each production is followed (`Parse.complete_followedBy`).
-/

namespace XPath

open Parse

/-! ### Hosts that know more -/

/-- The second host gives all answers that the first one gives. -/
structure Resolver.ExtendedBy (r r' : Resolver) : Prop where
  elementNamespace : r'.elementNamespace = r.elementNamespace
  functionNamespace : r'.functionNamespace = r.functionNamespace
  namespaceOf : ∀ qualifier uri, r.namespaceOf qualifier = .ok uri →
    r'.namespaceOf qualifier = .ok uri
  variableType : ∀ name type, r.variableType name = .ok type → r'.variableType name = .ok type
  schemaType? : ∀ name type, r.schemaType? name = some type → r'.schemaType? name = some type
  bind? : ∀ name arity f, r.bind? name arity = .ok (some f) → r'.bind? name arity = .ok (some f)
  namespaceTests : r.namespaceTests = true → r'.namespaceTests = true

/-- The second reader can follow the first one, up to a change of values and as long as nothing
is lost. What is lost stays so in whatever is made of it; only values take the place of others. -/
structure Setting.Widens (σ σ' : Setting) (g : Literal → Literal) (lost : Expr → Prop) : Prop where
  language : σ'.language = σ.language
  host : σ.host.ExtendedBy σ'.host
  faithful : Literal.IsFaithful g
  castable : ∀ text, g (.boolean (qnameLiteral σ'.host text).isOk) =
    g (.boolean (qnameLiteral σ.host text).isOk)
  part : ∀ {e part : Expr}, part ∈ e.children → lost part → lost e
  mapRange : ∀ {f : RangeVariable → RangeVariable} {e : Expr}, lost e → lost (e.mapRange f)
  literal : ∀ {n : Nat} {value : Literal}, ¬lost (.literal n value)
  /-- A call is left to fail by both, where nothing can be lost, or is lost then. -/
  unknown : σ.host.backwardsCompatible = true →
    (∀ n error, lost (.raise n error)) ∨ (∀ e, ¬lost e) ∧ ∀ name arity,
      σ.host.bind? name arity = .ok none → σ'.host.bind? name arity = .ok none ∧
        ∀ n, unknownCall σ' n name arity = unknownCall σ n name arity
  /-- Arguments that are dropped are not lost. -/
  dropped : (∀ e, ¬lost e) ∨ σ.language ≠ .pattern ∧ ∀ name arity f,
    σ.host.bind? name arity = .ok (some f) → f.kind = .constructor .qname → arity ≤ 1

namespace Parse

variable {α β γ : Type} {σ σ' : Setting}

/-! ### Steps that are the same in one language -/

section Language

variable (h : σ'.language = σ.language)
include h

/-- The place and the language of a fault are the same for both readers. -/
theorem reject_congr (f : Fault) : (reject σ' f : Parse α) = reject σ f := by
  unfold reject fail
  rw [h]

/-- To go on to the next token is the same for both readers. -/
theorem advance_congr : advance σ' = advance σ := by
  unfold advance
  simp only [reject_congr h]

theorem expect_congr (k : Token) : expect σ' k = expect σ k := by
  unfold expect
  simp only [reject_congr h]

theorem skip_congr (k : Token) : skip σ' k = skip σ k := by
  unfold skip
  rw [expect_congr h, advance_congr h]

theorem skipMark_congr : skipMark σ' = skipMark σ := by
  unfold skipMark
  rw [advance_congr h]

theorem descend_congr (levels : Nat) : descend σ' levels = descend σ levels := by
  unfold descend
  simp only [reject_congr h]

theorem leaf_congr (make : Nat → Expr) : leaf σ' make = leaf σ make := by
  unfold leaf
  rw [advance_congr h]

theorem sign_congr (signs : List (Sign × Nat)) : sign σ' signs = sign σ signs := by
  unfold sign
  rw [descend_congr h, advance_congr h]

theorem endTypeOperation_congr (precedence : Nat) :
    endTypeOperation σ' precedence = endTypeOperation σ precedence := by
  unfold endTypeOperation
  simp only [reject_congr h]

theorem numericLiteral_congr : numericLiteral σ' = numericLiteral σ := by
  unfold numericLiteral
  simp only [reject_congr h, leaf_congr h]

end Language

/-! ### Calls -/

/-- What is a name as a value for the first host is the same one for the second. -/
theorem qnameLiteral_of_extendedBy {r r' : Resolver} (hhost : r.ExtendedBy r') {text : String}
    {value : Literal} (h : qnameLiteral r text = .ok value) :
    qnameLiteral r' text = .ok value := by
  unfold qnameLiteral at h ⊢
  dsimp only at h ⊢
  cases hparse : LexicalQName.parse? (Text.trimBlanks text) with
  | none =>
      rw [hparse] at h
      cases h
  | some n =>
      rw [hparse] at h
      dsimp only at h ⊢
      rw [hhost.elementNamespace]
      split
      · next hplain =>
          rw [if_pos hplain] at h
          exact h
      · next hqualified =>
          rw [if_neg hqualified] at h
          cases huri : r.namespaceOf n.qualifier with
          | ok uri =>
              rw [huri] at h
              rw [hhost.namespaceOf _ uri huri]
              exact h
          | error e =>
              rw [huri] at h
              cases h

/-- A call once it is known whether there is a function for it. -/
theorem boundCall_of_bind (σ : Setting) (start : Nat) {name : ExpandedName}
    {args : List Expr} {function? : Option FunctionBinding}
    (h : σ.host.bind? name args.length = .ok function?) :
    boundCall σ start name args =
      function?.elim (unknownCall σ start name args.length) (knownCall σ start · args) := by
  unfold boundCall
  rw [h]
  cases function? <;> rfl

/-- A call that is read has an answer of the host behind it. -/
theorem exists_of_boundCall_ok {start : Nat} {name : ExpandedName} {args : List Expr}
    {s t : ParseState} {e : Expr} (h : boundCall σ start name args s = .ok e t) :
    ∃ function?, σ.host.bind? name args.length = .ok function? ∧
      function?.elim (unknownCall σ start name args.length) (knownCall σ start · args) s =
        .ok e t := by
  obtain ⟨function?, u, hask, -⟩ := bind_ok.mp h
  have hbind := (ask_ok hask).1
  rw [boundCall_of_bind σ start hbind] at h
  exact ⟨function?, hbind, h⟩

/-- A call of an unknown function is read under backwards compatible processing alone. -/
theorem unknownCall_compatible {n arity : Nat} {name : ExpandedName} {s : ParseState} {e : Expr}
    {t : ParseState} (h : unknownCall σ n name arity s = .ok e t) :
    σ.host.backwardsCompatible = true := by
  unfold unknownCall at h
  split at h
  · assumption
  · exact absurd h reject_ne_ok

/-! ### Names, types and single steps -/

namespace Repeats

theorem refl (p : Parse α) : Repeats p p :=
  fun _ _ _ h => h

theorem of_eq {p q : Parse α} (h : q = p) : Repeats p q := by
  rw [h]
  exact refl p

/-- What is repeated step by step is repeated as a whole. -/
theorem bind {p q : Parse α} {f g : α → Parse β} (hp : Repeats p q)
    (hf : ∀ a, Repeats (f a) (g a)) : Repeats (p >>= f) (q >>= g) := by
  intro s b t h
  obtain ⟨a, u, hu, h⟩ := bind_ok.mp h
  rw [bind_run (hp s a u hu)]
  exact hf a u b t h

/-- Nothing has to be said about a failure. -/
theorem reject {f : Fault} {q : Parse α} : Repeats (reject σ f) q :=
  fun _ _ _ h => absurd h reject_ne_ok

theorem reject_bind {f : Fault} {p : α → Parse β} {q : Parse β} :
    Repeats (Parse.reject σ f >>= p) q := by
  intro s b t h
  obtain ⟨_, _, h, -⟩ := bind_ok.mp h
  exact absurd h reject_ne_ok

/-- An answer that the first host gives is given by the second one as well. -/
theorem ask {answer answer' : Except Error α} (h : ∀ a, answer = .ok a → answer' = .ok a) :
    Repeats (ask σ answer) (ask σ' answer') := by
  intro s a t ha
  obtain ⟨hanswer, rfl⟩ := ask_ok ha
  rw [h a hanswer]
  rfl

section Hosts

variable (hhost : σ.host.ExtendedBy σ'.host)
include hhost

/-- A name that is known to the first host means the same to the second one. -/
theorem expandName (lexical : String) (b : Bool) :
    Repeats (expandName σ lexical b) (expandName σ' lexical b) := by
  unfold Parse.expandName
  rw [hhost.elementNamespace]
  cases LexicalQName.parse? lexical with
  | none => exact .reject
  | some n =>
      dsimp only
      split
      · exact .refl _
      · exact .bind (.ask (hhost.namespaceOf _)) fun _ => .refl _

theorem declaredNamespace (qualifier : String) :
    Repeats (declaredNamespace σ qualifier) (declaredNamespace σ' qualifier) := by
  unfold Parse.declaredNamespace
  cases huri : σ.host.namespaceOf qualifier with
  | ok uri =>
      rw [hhost.namespaceOf qualifier uri huri]
      exact .refl _
  | error e => exact .reject

theorem functionName (lexical : String) :
    Repeats (functionName σ lexical) (functionName σ' lexical) := by
  unfold Parse.functionName
  rw [hhost.functionNamespace]
  cases LexicalQName.parse? lexical with
  | none => exact .reject
  | some n =>
      dsimp only
      split
      · exact .refl _
      · exact .bind (declaredNamespace hhost _) fun _ => .refl _

/-- A type that is known to the first host is the same for the second one. -/
theorem atomicType (lexical : String) :
    Repeats (atomicType σ lexical) (atomicType σ' lexical) := by
  unfold Parse.atomicType
  rw [hhost.elementNamespace]
  cases LexicalQName.parse? lexical with
  | none => exact .reject
  | some n =>
      -- the namespace is found in one of two ways, and what follows is the same
      have hfound : ∀ q q' : String → Parse AtomicType, (∀ uri, Repeats (q uri) (q' uri)) →
          Repeats
            (if n.qualifier = "" then pure (σ.host.elementNamespace.getD "") >>= q
              else Parse.ask σ (σ.host.namespaceOf n.qualifier) >>= q)
            (if n.qualifier = "" then pure (σ.host.elementNamespace.getD "") >>= q'
              else Parse.ask σ' (σ'.host.namespaceOf n.qualifier) >>= q') := by
        intro q q' hq
        split
        · exact hq _
        · exact .bind (.ask (hhost.namespaceOf _)) hq
      refine hfound _ _ fun uri => ?_
      dsimp only
      split
      · exact .reject
      · split
        · cases SchemaType.builtin? n.localName with
          | none => exact .reject
          | some type =>
              cases type with
              | atomic t => exact .refl _
              | _ => exact .reject
        · cases σ.host.schemaType? ⟨uri, n.localName⟩ with
          | none => exact .reject
          | some type => exact .reject

end Hosts

/-- Tests and types are read alike when names are. -/
theorem typeAnswers (hlanguage : σ'.language = σ.language) (hhost : σ.host.ExtendedBy σ'.host) :
    (successes σ σ').TypeAnswers where
  toLawful := Pair.lawful_together hlanguage
  expandName h lexical b := (expandName hhost lexical b).agree (.expandName lexical b) h
  atomicType h lexical := (atomicType hhost lexical).agree (.atomicType lexical) h
  knownType := by
    intro s s' h lexical name
    have hknown : Repeats (knownType σ lexical name) (knownType σ' lexical name) := by
      unfold knownType
      cases htype : σ.host.schemaType? name with
      | none => exact .reject
      | some type =>
          rw [hhost.schemaType? name type htype]
          exact .refl _
    exact hknown.agree (.knownType lexical name) h
  allowedTest := by
    intro s s' h
    have hallowed : Repeats (allowedTest σ) (allowedTest σ') := by
      unfold allowedTest
      split
      · next htests =>
          rw [if_pos (hhost.namespaceTests htests)]
          exact .refl _
      · exact .reject
    exact hallowed.agree .allowedTest h

section Types

variable (hlanguage : σ'.language = σ.language) (hhost : σ.host.ExtendedBy σ'.host)
include hlanguage hhost

/-- A sequence type is repeated, since the names and types in it are. -/
theorem sequenceType : Repeats (sequenceType σ) (sequenceType σ') := by
  have := typeAnswers hlanguage hhost
  exact fun s _ _ h => ok_of_agree (Pair.Agree.sequenceType (Pair.linked_together s)) h

/-- The test of a step is repeated, since the names in it are. -/
theorem nodeTest (kind : NodeKind) : Repeats (nodeTest σ kind) (nodeTest σ' kind) := by
  have := typeAnswers hlanguage hhost
  intro s test t h
  unfold Parse.nodeTest at h ⊢
  rw [token_bind] at h ⊢
  cases htoken : s.cursor.token <;> rw [htoken] at h
  case name =>
    refine Repeats.bind (.refl _) (fun _ => ?_) s test t h
    refine .bind (expandName hhost _ _) fun name => ?_
    exact .bind (.of_eq (advance_congr hlanguage)) fun _ => .refl _
  case namespaceWildcard =>
    refine Repeats.bind (.refl _) (fun _ => ?_) s test t h
    refine .bind (declaredNamespace hhost _) fun uri => ?_
    exact .bind (.of_eq (advance_congr hlanguage)) fun _ => .refl _
  case localWildcard =>
    refine Repeats.bind (.of_eq (advance_congr hlanguage)) (fun _ => ?_) s test t h
    refine .bind (.refl _) fun localName => ?_
    refine .bind (.of_eq (expect_congr hlanguage _)) fun _ => ?_
    dsimp only
    split
    · exact .reject_bind
    · exact .bind (.of_eq (advance_congr hlanguage)) fun _ => .refl _
  case star =>
    exact Repeats.bind (.of_eq (advance_congr hlanguage)) (fun _ => .refl _) s test t h
  case nodeKind =>
    have hbrace : s.cursor.token ≠ .rightBrace := by simp [htoken]
    exact ok_of_agree (Pair.Agree.kindTest (Pair.linked_together s) hbrace) h
  all_goals exact absurd h reject_ne_ok

theorem singleType : Repeats (singleType σ) (singleType σ') := by
  unfold Parse.singleType
  refine .bind (.of_eq (expect_congr hlanguage _)) fun _ => ?_
  refine .bind (.refl _) fun lexical => ?_
  refine .bind (atomicType hhost lexical) fun type => ?_
  dsimp only
  split
  · exact .reject_bind
  · refine .bind (.of_eq (advance_congr hlanguage)) fun _ => ?_
    refine .bind (.refl _) fun token => ?_
    split
    · exact .bind (.of_eq (skipMark_congr hlanguage)) fun _ => .refl _
    · exact .refl _

theorem completeType : Repeats (completeType σ) (completeType σ') := by
  unfold Parse.completeType
  refine .bind (.of_eq (advance_congr hlanguage)) fun _ => ?_
  refine .bind (sequenceType hlanguage hhost) fun type => ?_
  refine .bind (.refl _) fun token => ?_
  split
  · exact .refl _
  · exact .bind (.refl _) fun _ => .reject

/-- A variable in scope is the same for both readers, and one of the first host has the same type
for the second. -/
theorem variableReference : Repeats (variableReference σ) (variableReference σ') := by
  unfold Parse.variableReference
  rw [advance_congr hlanguage, expect_congr hlanguage]
  refine .bind (.refl _) fun start => ?_
  refine .bind (.refl _) fun _ => ?_
  refine .bind (.refl _) fun _ => ?_
  refine .bind (.refl _) fun lexical => ?_
  refine .bind (.refl _) fun _ => ?_
  refine .bind (.expandName hhost _ _) fun name => ?_
  refine .bind (.refl _) fun state => ?_
  cases state.scope.find? (·.name = name) with
  | some v => exact .refl _
  | none =>
      cases htype : σ.host.variableType name with
      | ok type =>
          rw [hhost.variableType name type htype]
          exact .refl _
      | error e =>
          dsimp only
          split
          · exact .reject
          · exact fun _ _ _ h => absurd h fail_ne_ok

theorem bareStep (startsPattern : Bool) :
    Repeats (bareStep σ startsPattern) (bareStep σ' startsPattern) := by
  refine .bind (.refl _) fun _ => ?_
  refine .bind (.refl _) fun _ => ?_
  refine .bind (.refl _) fun _ => ?_
  refine .bind (.nodeTest hlanguage hhost _) fun test => ?_
  exact .refl _

theorem attributeStep : Repeats (attributeStep σ) (attributeStep σ') := by
  unfold Parse.attributeStep
  rw [advance_congr hlanguage]
  refine .bind (.refl _) fun _ => ?_
  refine .bind (.refl _) fun _ => ?_
  refine .bind (.refl _) fun token => ?_
  dsimp only
  split
  · exact .reject_bind
  · exact .bind (.nodeTest hlanguage hhost _) fun _ => .refl _

theorem axisStep : Repeats (axisStep σ) (axisStep σ') := by
  unfold Parse.axisStep
  rw [advance_congr hlanguage]
  refine .bind (.refl _) fun _ => ?_
  refine .bind (.refl _) fun name => ?_
  split
  · exact .reject
  · refine .bind (.refl _) fun _ => ?_
    refine .bind (.refl _) fun token => ?_
    dsimp only
    split
    · exact .bind (.refl _) fun _ => .reject_bind
    · exact .bind (.nodeTest hlanguage hhost _) fun _ => .refl _

end Types

end Repeats

end Parse

end XPath
