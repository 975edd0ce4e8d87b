import XPath.Proofs.Run

/-!
# What an action does, whatever comes of it

An action gives a value or fails, and leaves a state in both cases. Three things are said of that at
once (`Parse.Obeys`): how the state that it leaves is related to the one before it, what is known of
the token at which it stops, and which errors it may fail with. A relation that actions in a row
pass on and that does not look at what is read (`Frame`) is kept by the productions that take no
levels and declare nothing. All productions but clauses leave the same variables in scope
(`Balanced`), and those that give their levels back leave as many in use (`Even`). What is known of
tokens and which errors are permitted is up to a `Conduct`, so that every production is gone through
once for all of them.
-/

namespace XPath

open Parse

/-! ### How an action fails -/

namespace Parse

/-- An error as it is raised: at the current place unless it has one already. -/
def failure (σ : Setting) (c : Cursor) (e : Error) : Error :=
  { e with location := some (e.location.getD (location σ.language c)) }

/-- A fault as it is reported. -/
def report (σ : Setting) (c : Cursor) (f : Fault) : Error :=
  failure σ c (f.error σ.language)

end Parse

/-- The host answers some question with this error. -/
inductive Resolver.Raises (r : Resolver) (e : Error) : Prop
  | ofQualifier (qualifier : String) : r.namespaceOf qualifier = .error e → Raises r e
  | ofVariable (name : ExpandedName) : r.variableType name = .error e → Raises r e
  | ofFunction (name : ExpandedName) (arity : Nat) : r.bind? name arity = .error e → Raises r e

/-- The fault is one in the name of a function, type or value that has been resolved. -/
def Fault.isResolved (f : Fault) : Bool :=
  match f.ownCode? with
  | some .XPST0080 | some .XPST0081 | some .XPST0017 | some .FORG0001 | some .FONS0004 => true
  | _ => false

/-- A fault that names an unknown function says what the host has answered: that it has none for the
call, and which numbers of arguments it knows. -/
def Fault.IsAnswer (host : Resolver) : Fault → Prop
  | noFunction name arity known => host.bind? name arity = .ok none ∧ known = host.arities name
  | _ => True

/-- The fault is one that is found when a name has been resolved with the host. -/
structure Fault.Arises (host : Resolver) (f : Fault) : Prop where
  isResolved : f.isResolved = true
  isAnswer : f.IsAnswer host

/-- A text that is no name, or has an unknown qualifier, is a fault that a host brings to light. -/
theorem qnameLiteral_arises {host : Resolver} {text : String} {f : Fault}
    (h : qnameLiteral host text = .error f) : f.Arises host := by
  unfold qnameLiteral at h
  dsimp only at h
  split at h
  · cases h
    exact ⟨rfl, trivial⟩
  · split at h
    · cases h
    · split at h
      · cases h
      · cases h
        exact ⟨rfl, trivial⟩

/-- The fault is that a text is no name, where a name is resolved. -/
def Fault.isMalformedName : Fault → Bool
  | malformedName _ | malformedFunctionName _ | instructionName _ => true
  | _ => false

theorem Fault.isMalformedName_of_isResolved {f : Fault} (h : f.isResolved = true) :
    f.isMalformedName = false := by
  cases f with
  | malformedName | malformedFunctionName | instructionName => cases h
  | _ => rfl

/-- The value of the token is a name, perhaps with a qualifier. -/
def Token.holdsName : Token → Bool
  | name | function => true
  | _ => false

namespace Parse

variable {α β : Type} {σ : Setting} {s t : ParseState}

/-! ### The states around an action -/

/-- The state after an action, which may have failed. -/
def final : EStateM.Result Error ParseState α → ParseState
  | .ok _ t => t
  | .error _ t => t

/-- A relation between the states around an action that is passed on by actions in a row and does
not look at what has been read. -/
class Frame (K : ParseState → ParseState → Prop) : Prop where
  refl (s : ParseState) : K s s
  trans {s t u : ParseState} : K s t → K t u → K s u
  read (s : ParseState) (cursor : Cursor) (warnings : List String) :
    K s { s with cursor, warnings }

/-- Ids are not given out twice. -/
def Counts (s t : ParseState) : Prop :=
  s.nextId ≤ t.nextId

/-- Besides, the same variables are in scope. -/
structure Balanced (s t : ParseState) : Prop where
  scope : t.scope = s.scope
  counts : Counts s t

/-- Besides, as many levels are in use. -/
structure Even (s t : ParseState) : Prop where
  balanced : Balanced s t
  depth : t.depth = s.depth

instance : Frame Counts where
  refl s := Nat.le_refl s.nextId
  trans := Nat.le_trans
  read s _ _ := Nat.le_refl s.nextId

instance : Frame Balanced where
  refl s := ⟨rfl, Frame.refl s⟩
  trans h h' := ⟨h'.scope.trans h.scope, Frame.trans h.counts h'.counts⟩
  read s cursor warnings := ⟨rfl, Frame.read s cursor warnings⟩

instance : Frame Even where
  refl s := ⟨Frame.refl s, rfl⟩
  trans h h' := ⟨Frame.trans h.balanced h'.balanced, h'.depth.trans h.depth⟩
  read s cursor warnings := ⟨Frame.read s cursor warnings, rfl⟩

/-! ### Tokens and errors -/

/-- What is known of the current token, and which errors actions may fail with. It is known of
every token that has been read. Every fault may be reported but malformed names, and they may if it
does not follow from what is known that the name in a token can be split. -/
structure Conduct (σ : Setting) where
  Holds : Cursor → Prop
  Permits : Error → Prop
  holds_advance : ∀ {c d : Cursor}, c.advance = (.ok (), d) → Holds d
  permits_report : ∀ (c : Cursor) (f : Fault), f.isMalformedName = false → Permits (report σ c f)
  permits_failure : ∀ (c : Cursor) {e : Error}, σ.host.Raises e → Permits (failure σ c e)
  splits : ∀ {c : Cursor}, Holds c → c.token.holdsName = true →
    (∃ n, LexicalQName.parse? c.value = some n) ∨ ∀ e, Permits e

namespace Conduct

/-- Nothing is asked of tokens and errors. -/
def free (σ : Setting) : Conduct σ where
  Holds _ := True
  Permits _ := True
  holds_advance _ := trivial
  permits_report _ _ _ := trivial
  permits_failure _ _ _ := trivial
  splits _ _ := .inr fun _ => trivial

/-- The text can be split as a name, or it makes no difference. -/
def Splits (C : Conduct σ) (text : String) : Prop :=
  (∃ n, LexicalQName.parse? text = some n) ∨ ∀ e, C.Permits e

/-- What has come of an action in a state. -/
def Kept (C : Conduct σ) (K : ParseState → ParseState → Prop) (s : ParseState) :
    EStateM.Result Error ParseState α → Prop
  | .ok _ t => K s t ∧ C.Holds t.cursor
  | .error e t => K s t ∧ C.Permits e

namespace Kept

variable {C : Conduct σ} {K L : ParseState → ParseState → Prop}
  {r : EStateM.Result Error ParseState α}

theorem final (h : C.Kept K s r) : K s (final r) := by
  cases r with
  | ok a t => exact h.1
  | error e t => exact h.1

theorem mono (h : C.Kept K s r) (hKL : ∀ t, K s t → L s t) : C.Kept L s r := by
  cases r with
  | ok a t => exact ⟨hKL t h.1, h.2⟩
  | error e t => exact ⟨hKL t h.1, h.2⟩

/-- What is kept by two actions in a row is kept by both together. -/
theorem trans [Frame K] (h : K s t) (hr : C.Kept K t r) : C.Kept K s r := by
  cases r with
  | ok a u => exact ⟨Frame.trans h hr.1, hr.2⟩
  | error e u => exact ⟨Frame.trans h hr.1, hr.2⟩

/-- Whatever is known of the current token, so much is known of the next one. -/
theorem advance [Frame K] (s : ParseState) : C.Kept K s (Parse.advance σ s) := by
  unfold Parse.advance
  rw [get_bind]
  cases hc : s.cursor.advance with | mk outcome c =>
  have hread : K s { s with cursor := c } := Frame.read s c s.warnings
  cases outcome with
  | ok v => exact ⟨hread, C.holds_advance hc⟩
  | error e => exact ⟨hread, C.permits_report c (.lexical e) rfl⟩

end Kept

end Conduct

/-- At a token of which so much is known, and that satisfies `A`, the action keeps the relation
between the states, leads to such a token again, and fails with permitted errors only. -/
def Obeys (C : Conduct σ) (K : ParseState → ParseState → Prop) (A : Cursor → Prop)
    (p : Parse α) : Prop :=
  ∀ s, C.Holds s.cursor → A s.cursor → C.Kept K s (p s)

namespace Obeys

variable {C : Conduct σ} {K : ParseState → ParseState → Prop} {A B : Cursor → Prop}

theorem mono {p : Parse α} (hp : Obeys C K B p) (h : ∀ c, A c → B c) : Obeys C K A p :=
  fun s hs hA => hp s hs (h _ hA)

theorem even {p : Parse α} (hp : Obeys C Even A p) : Obeys C Balanced A p :=
  fun s hs hA => (hp s hs hA).mono fun _ h => h.balanced

theorem counts {p : Parse α} (hp : Obeys C Balanced A p) : Obeys C Counts A p :=
  fun s hs hA => (hp s hs hA).mono fun _ h => h.counts

/-! ### Steps -/

/-- What looks at the state leaves it as it is. -/
theorem look {f : ParseState → Parse α} (h : ∀ s, Obeys C K A (f s)) : Obeys C K A (get >>= f) :=
  fun s hs hA => h s s hs hA

/-- What is done after a look at the current token is done at that token. -/
theorem token {f : Token → Parse α} (h : ∀ k, Obeys C K (fun c => A c ∧ c.token = k) (f k)) :
    Obeys C K A (token >>= f) :=
  fun s hs hA => h s.cursor.token s hs ⟨hA, rfl⟩

theorem value {f : String → Parse α} (h : ∀ v, Obeys C K (fun c => A c ∧ c.value = v) (f v)) :
    Obeys C K A (value >>= f) :=
  fun s hs hA => h s.cursor.value s hs ⟨hA, rfl⟩

/-- The value of a token that holds a name can be split. -/
theorem split {p : Parse α} {v : String} (hA : ∀ c, A c → c.token.holdsName = true ∧ c.value = v)
    (h : C.Splits v → Obeys C K A p) : Obeys C K A p := by
  intro s hs hs'
  obtain ⟨hname, rfl⟩ := hA s.cursor hs'
  exact h (C.splits hs hname) s hs hs'

theorem name {f : String → Parse α} (hname : ∀ c, A c → c.token.holdsName = true)
    (h : ∀ v, C.Splits v → Obeys C K A (f v)) : Obeys C K A (Parse.value >>= f) :=
  fun s hs hA => h s.cursor.value (C.splits hs (hname s.cursor hA)) s hs hA

theorem offset {f : Nat → Parse α} (h : ∀ n, Obeys C K A (f n)) : Obeys C K A (offset >>= f) :=
  fun s hs hA => h s.cursor.offset s hs hA

theorem found {f : String → Parse α} (h : ∀ v, Obeys C K A (f v)) : Obeys C K A (found >>= f) :=
  fun s hs hA => h s.cursor.describe s hs hA

section Steps

variable [Frame K]

/-- Actions in a row obey when each of them does, where the second may start anywhere. -/
theorem bind {p : Parse α} {q : α → Parse β} (hp : Obeys C K A p)
    (hq : ∀ a, Obeys C K (fun _ => True) (q a)) : Obeys C K A (p >>= q) := by
  intro s hs hA
  have hfirst := hp s hs hA
  cases h : p s with
  | ok a t =>
      rw [h] at hfirst
      rw [bind_run h]
      exact .trans hfirst.1 (hq a t hfirst.2 trivial)
  | error e t =>
      rw [h] at hfirst
      rw [bind_fails h]
      exact hfirst

theorem pure (a : α) : Obeys C K A (pure a : Parse α) :=
  fun s hs _ => ⟨Frame.refl s, hs⟩

/-- A fault is permitted unless it is that a name is malformed. -/
theorem reject {f : Fault} (h : f.isMalformedName = false) : Obeys C K A (reject σ f : Parse α) :=
  fun s _ _ => ⟨Frame.refl s, C.permits_report s.cursor f h⟩

/-- A name that cannot be split is reported only where that makes no difference. -/
theorem malformed {text : String} {f : Fault} (h : C.Splits text)
    (hparse : LexicalQName.parse? text = none) : Obeys C K A (Parse.reject σ f : Parse α) := by
  rcases h with ⟨n, hn⟩ | hpermits
  · rw [hparse] at hn
    cases hn
  · exact fun s _ _ => ⟨Frame.refl s, hpermits _⟩

/-- An error that the host raises is permitted. -/
theorem fail {e : Error} (h : σ.host.Raises e) : Obeys C K A (fail σ e : Parse α) :=
  fun s _ _ => ⟨Frame.refl s, C.permits_failure s.cursor h⟩

theorem ask {answer : Except Error α} (h : ∀ e, answer = .error e → σ.host.Raises e) :
    Obeys C K A (ask σ answer) := by
  cases answer with
  | ok a => exact .pure a
  | error e => exact .fail (h e rfl)

theorem warn (message : String) : Obeys C K A (warn message) :=
  fun s hs _ => ⟨Frame.read s s.cursor _, hs⟩

theorem advance : Obeys C K A (advance σ) :=
  fun s _ _ => .advance s

/-- What is done after an expected token is done at that token. -/
theorem expect {k : Token} {f : Unit → Parse α}
    (h : Obeys C K (fun c => A c ∧ c.token = k) (f ())) : Obeys C K A (expect σ k >>= f) := by
  intro s hs hA
  by_cases hk : s.cursor.token = k
  · rw [bind_run (expect_run hk)]
    exact h s hs ⟨hA, hk⟩
  · have hrun : Parse.expect σ k s =
        .error (report σ s.cursor (.expected k s.cursor.describe)) s := by
      unfold Parse.expect
      rw [token_bind, if_pos hk]
      rfl
    rw [bind_fails hrun]
    exact ⟨Frame.refl s, C.permits_report _ _ rfl⟩

theorem skip (k : Token) : Obeys C K A (skip σ k) :=
  .expect .advance

theorem skipMark : Obeys C K A (skipMark σ) :=
  fun s _ _ => .trans (Frame.read s s.cursor.endOperand s.warnings) (.advance _)

/-- A fault that is found on the way makes no difference. -/
theorem guarded {c : Prop} [Decidable c] {f : Fault} {q : Unit → Parse α}
    (hf : f.isMalformedName = false) (hq : Obeys C K A (q ())) :
    Obeys C K A (if c then Parse.reject σ f >>= q else q ()) := by
  split
  · intro s hs hA
    rw [bind_fails (show Parse.reject σ f s = .error (report σ s.cursor f) s from rfl)]
    exact ⟨Frame.refl s, C.permits_report _ _ hf⟩
  · exact hq

/-! ### Repetition -/

theorem repeatAtMost {go : Token → Bool} {part : α → Parse α}
    (hpart : ∀ a, Obeys C K (fun _ => True) (part a)) (n : Nat) (a : α) :
    Obeys C K A (repeatAtMost go part n a) := by
  induction n generalizing a A with
  | zero => exact .pure a
  | succ n ih =>
      refine .token fun t => ?_
      split
      · exact .bind ((hpart a).mono fun _ _ => trivial) fun _ => ih _
      · exact .pure a

/-- A repetition obeys when each round does, wherever it starts. -/
theorem repeatWhile {go : Token → Bool} {part : α → Parse α}
    (hpart : ∀ a, Obeys C K (fun _ => True) (part a)) (a : α) :
    Obeys C K A (repeatWhile go part a) :=
  .look fun _ => .repeatAtMost hpart _ a

theorem commaSeparated {part : Parse α} (hpart : Obeys C K (fun _ => True) part) :
    Obeys C K A (commaSeparated σ part) := by
  refine .bind (hpart.mono fun _ _ => trivial) fun first => ?_
  refine .bind (.repeatWhile (fun others => ?_) []) fun others => .pure _
  refine .bind .advance fun _ => ?_
  exact .bind hpart fun next => .pure _

/-! ### Names -/

/-- A name that can be split fails only where the host does not know its qualifier. -/
theorem expandName {lexical : String} (h : C.Splits lexical) (b : Bool) :
    Obeys C K A (expandName σ lexical b) := by
  unfold Parse.expandName
  split
  · next hparse => exact .malformed h hparse
  · split
    · exact .pure _
    · exact .bind (.ask fun _ => .ofQualifier _) fun _ => .pure _

theorem declaredNamespace (qualifier : String) :
    Obeys C K A (declaredNamespace σ qualifier) := by
  unfold Parse.declaredNamespace
  split
  · exact .pure _
  · exact .reject rfl

theorem functionName {lexical : String} (h : C.Splits lexical) :
    Obeys C K A (functionName σ lexical) := by
  unfold Parse.functionName
  split
  · next hparse => exact .malformed h hparse
  · split
    · exact .pure _
    · exact .bind (.declaredNamespace _) fun _ => .pure _

/-- The faults in a name of a type arise from the answers of the host. -/
theorem atomicType {lexical : String} (h : C.Splits lexical) :
    Obeys C K A (atomicType σ lexical) := by
  unfold Parse.atomicType
  split
  · next hparse => exact .malformed h hparse
  · next n _ =>
      -- What follows the namespace stands twice, once behind each way to find it.
      have hfound : ∀ q : String → Parse AtomicType,
          (∀ uri, Obeys C K (fun _ => True) (q uri)) →
          Obeys C K A (if n.qualifier = "" then
              Pure.pure (σ.host.elementNamespace.getD "") >>= q
            else Parse.ask σ (σ.host.namespaceOf n.qualifier) >>= q) := by
        intro q hq
        split
        · exact .bind (.pure _) hq
        · exact .bind (.ask fun _ => .ofQualifier _) hq
      refine hfound _ fun uri => ?_
      dsimp only
      split
      · exact .reject rfl
      · split
        · split
          · exact .pure _
          · exact .reject rfl
          · exact .reject rfl
        · split
          · exact .reject rfl
          · exact .reject rfl

/-! ### Kind tests -/

theorem contentTest (kind : NodeKind) : Obeys C K A (contentTest σ kind) := by
  unfold Parse.contentTest
  refine .token fun k => ?_
  split
  · exact .reject rfl
  · exact .reject rfl
  · refine .name (fun _ h => h.2 ▸ rfl) fun lexical hn => .bind (.expandName hn _) fun name => ?_
    split
    · exact .reject rfl
    · next type _ =>
        have rest : Obeys C K (fun _ => True) (do
            Parse.advance σ
            let nillable := kind = .element && (← Parse.token) = .questionMark
            if nillable then Parse.advance σ
            return NodeTest.content kind type nillable) := by
          refine .bind .advance fun _ => ?_
          refine .token fun k => ?_
          dsimp only
          split
          · exact .bind .advance fun _ => .pure _
          · exact .pure _
        dsimp only
        split
        · exact .bind (.warn _) fun _ => rest
        · exact rest
  · exact .reject rfl

theorem testName (kind : NodeKind) (bySchema : Bool) :
    Obeys C K A (testName σ kind bySchema) := by
  have star : ∀ k : Token, Obeys C K (fun c => A c ∧ c.token = k) (if bySchema then
      Parse.reject σ .schemaTestStar else Pure.pure (none : Option ExpandedName)) := by
    intro k
    split
    · exact .reject rfl
    · exact .pure _
  unfold Parse.testName
  refine .token fun k => ?_
  split
  · exact star _
  · exact star _
  · exact .name (fun _ h => h.2 ▸ rfl) fun _ hn => .bind (.expandName hn _) fun _ => .pure _
  · exact .reject rfl

theorem namedTest (kind : NodeKind) (bySchema : Bool) :
    Obeys C K A (namedTest σ kind bySchema) := by
  unfold Parse.namedTest
  refine .value fun lexical => ?_
  refine .bind (.testName _ _) fun name? => ?_
  refine .bind .advance fun _ => ?_
  refine .token fun k => ?_
  split
  · refine .bind .advance fun _ => ?_
    split
    · exact .pure _
    · split
      · exact .pure _
      · split
        · exact .reject rfl
        · exact .reject rfl
  · refine .guarded rfl ?_
    refine .bind .advance fun _ => ?_
    refine .bind (.contentTest _) fun test => ?_
    refine .bind (.skip _) fun _ => ?_
    split
    · exact .pure _
    · exact .pure _
  · exact .reject rfl

theorem elementTest (kind : NodeKind) (bySchema : Bool) :
    Obeys C K A (elementTest σ kind bySchema) := by
  unfold Parse.elementTest
  refine .bind .advance fun _ => ?_
  refine .token fun k => ?_
  split
  · exact .guarded rfl (.bind .advance fun _ => .pure _)
  · exact .namedTest _ _

theorem emptyArguments : Obeys C K A (emptyArguments σ) := by
  unfold Parse.emptyArguments
  refine .bind .advance fun _ => ?_
  refine .token fun k => ?_
  split
  · exact .bind .advance fun _ => .pure _
  · exact .pure _

/-- A test without arguments gives what is known from its keyword, or fails. -/
theorem argumentless {p q : Parse α} (hp : Obeys C K (fun _ => True) p)
    (hq : Obeys C K (fun _ => True) q) :
    Obeys C K A (do if ← Parse.emptyArguments σ then p else q) := by
  refine .bind .emptyArguments fun b => ?_
  split
  · exact hp
  · exact hq

theorem plainTest (word : String) (test : NodeTest) : Obeys C K A (plainTest σ word test) :=
  .argumentless (.pure _) (.reject rfl)

theorem namespaceTest : Obeys C K A (namespaceTest σ) := by
  refine .argumentless ?_ (.reject rfl)
  split
  · exact .pure _
  · exact .reject rfl

theorem documentTest : Obeys C K A (documentTest σ) := by
  refine .argumentless (.pure _) (.value fun word => .token fun k => ?_)
  split
  · exact .bind (.elementTest _ _) fun _ => .bind (.skip _) fun _ => .pure _
  · exact .reject rfl

theorem instructionTarget : Obeys C K A (instructionTarget σ) := by
  unfold Parse.instructionTarget
  refine .value fun text => ?_
  refine .token fun k => ?_
  split
  · dsimp only
    split
    · exact .pure _
    · exact .reject rfl
  · -- The text was taken before the token was looked at, so both have to be known here.
    refine .split (fun c hc => ⟨by rw [hc.2]; rfl, hc.1.2⟩) fun hsplits => ?_
    split
    · next hparse => exact .malformed hsplits hparse
    · split
      · exact .pure _
      · exact .reject rfl
  · exact .reject rfl

theorem instructionTest : Obeys C K A (instructionTest σ) := by
  refine .argumentless (.pure _) ?_
  refine .bind .instructionTarget fun target => ?_
  refine .bind .advance fun _ => ?_
  exact .bind (.skip .rightParen) fun _ => .pure _

/-- A test that starts with a keyword obeys, case by case on the keyword. -/
theorem kindTest : Obeys C K A (kindTest σ) := by
  unfold Parse.kindTest
  refine .value fun word => ?_
  split
  · exact .plainTest _ _
  · exact .plainTest _ _
  · exact .plainTest _ _
  · exact .namespaceTest
  · exact .documentTest
  · exact .instructionTest
  · exact .elementTest _ _
  · exact .elementTest _ _
  · exact .elementTest _ _
  · exact .elementTest _ _
  · exact .bind (.bind .emptyArguments fun _ => .pure _) fun _ => .reject rfl
  · exact .reject rfl

/-! ### Sequence types -/

theorem plainType (type : ItemType) : Obeys C K A (plainType σ type) := by
  refine .bind .advance fun _ => ?_
  exact .bind (.skip _) fun _ => .pure _

theorem itemType : Obeys C K A (itemType σ) := by
  unfold Parse.itemType
  refine .token fun k => ?_
  split
  · refine .name (fun _ h => h.2 ▸ rfl) fun lexical hn => ?_
    refine .bind (.atomicType hn) fun type => ?_
    exact .bind .advance fun _ => .pure _
  · refine .value fun word => ?_
    split
    · exact .plainType _
    · exact .plainType _
    · exact .bind .kindTest fun _ => .pure _
  · exact .reject rfl

/-- A type obeys with the mark behind it. -/
theorem sequenceType : Obeys C K A (sequenceType σ) := by
  unfold Parse.sequenceType
  refine .bind .itemType fun item => ?_
  split
  · exact .pure _
  · refine .token fun k => ?_
    split
    · exact .pure _
    · exact .bind .skipMark fun _ => .pure _

theorem singleType : Obeys C K A (singleType σ) := by
  unfold Parse.singleType
  refine .expect ?_
  refine .name (fun _ h => h.2 ▸ rfl) fun lexical hn => ?_
  refine .bind (.atomicType hn) fun type => ?_
  refine .guarded rfl ?_
  refine .bind .advance fun _ => ?_
  refine .token fun k => ?_
  dsimp only
  split
  · exact .bind .skipMark fun _ => .pure _
  · exact .pure _

/-! ### Steps and literals -/

/-- The test of a step obeys, where a name is read from a token that holds one. -/
theorem nodeTest (kind : NodeKind) : Obeys C K A (nodeTest σ kind) := by
  unfold Parse.nodeTest
  refine .token fun k => ?_
  split
  · refine .name (fun _ h => h.2 ▸ rfl) fun lexical hn => ?_
    refine .bind (.expandName hn _) fun name => ?_
    exact .bind .advance fun _ => .pure _
  · refine .value fun qualifier => ?_
    refine .bind (.declaredNamespace qualifier) fun uri => ?_
    exact .bind .advance fun _ => .pure _
  · refine .bind .advance fun _ => ?_
    refine .value fun localName => ?_
    refine .expect ?_
    exact .guarded rfl (.bind .advance fun _ => .pure _)
  · exact .bind .advance fun _ => .pure _
  · exact .kindTest
  · exact .reject rfl

theorem bareStep (startsPattern : Bool) : Obeys C K A (bareStep σ startsPattern) := by
  refine .offset fun start => ?_
  refine .token fun k => ?_
  refine .value fun word => ?_
  exact .bind (.nodeTest .element) fun test => .pure _

theorem attributeStep : Obeys C K A (attributeStep σ) := by
  refine .offset fun start => ?_
  refine .bind .advance fun _ => ?_
  refine .token fun k => ?_
  exact .guarded rfl (.bind (.nodeTest .attribute) fun test => .pure _)

theorem axisStep : Obeys C K A (axisStep σ) := by
  have rest : ∀ (B : Cursor → Prop) (axis : Axis) (start : Nat), Obeys C K B (do
      return Expr.axisStep start axis (← Parse.nodeTest σ axis.principalKind)) := by
    intro B axis start
    exact .bind (.nodeTest axis.principalKind) fun test => .pure _
  refine .offset fun start => ?_
  refine .value fun name => ?_
  split
  · exact .reject rfl
  · refine .bind .advance fun _ => ?_
    refine .token fun k => ?_
    dsimp only
    split
    · refine .found fun found => ?_
      exact .bind (.reject rfl) fun _ => rest _ _ _
    · exact rest _ _ _

theorem leaf (make : Nat → Expr) : Obeys C K A (leaf σ make) := by
  refine .offset fun start => ?_
  exact .bind .advance fun _ => .pure _

theorem stringLiteral : Obeys C K A (stringLiteral σ) :=
  .value fun _ => .leaf _

theorem numericLiteral : Obeys C K A (numericLiteral σ) := by
  refine .value fun text => ?_
  split
  · exact .reject rfl
  · exact .leaf _

/-- A variable is in scope, or the host answers for it. -/
theorem variableReference : Obeys C K A (variableReference σ) := by
  refine .offset fun start => ?_
  refine .bind .advance fun _ => ?_
  refine .expect ?_
  refine .name (fun _ h => h.2 ▸ rfl) fun lexical hn => ?_
  refine .bind .advance fun _ => ?_
  refine .bind (.expandName hn _) fun name => ?_
  refine .look fun s => ?_
  split
  · exact .pure _
  · split
    · exact .pure _
    · next e he =>
        split
        · exact .reject rfl
        · exact .fail (.ofVariable name he)

/-! ### Expressions within others -/

variable {nested : Parse Expr}

theorem expression (hn : Obeys C K (fun _ => True) nested) :
    Obeys C K A (expression σ nested) := by
  refine .offset fun start => ?_
  refine .bind (.commaSeparated hn) fun items => ?_
  split
  · exact .pure _
  · exact .pure _

theorem arguments (hn : Obeys C K (fun _ => True) nested) :
    Obeys C K A (arguments σ nested) := by
  refine .token fun k => ?_
  split
  · exact .bind .advance fun _ => .pure _
  · exact .bind (.commaSeparated hn) fun _ => .bind (.skip _) fun _ => .pure _

theorem callIn (start : Nat) (f : FunctionBinding) (args : List Expr) :
    Obeys C K A (callIn σ start f args) := by
  unfold Parse.callIn
  split
  · exact .pure _
  · exact .reject rfl
  · exact .reject rfl
  · exact .pure _

/-- A known function is called, is a name at once, or has no meaning in the language. -/
theorem knownCall (start : Nat) (f : FunctionBinding) (args : List Expr) :
    Obeys C K A (knownCall σ start f args) := by
  unfold Parse.knownCall
  split
  · split
    · exact .pure _
    · next hfault =>
        exact .reject (Fault.isMalformedName_of_isResolved (qnameLiteral_arises hfault).isResolved)
  · exact .callIn _ _ _

theorem unknownCall (start : Nat) (name : ExpandedName) (arity : Nat) :
    Obeys C K A (unknownCall σ start name arity) := by
  unfold Parse.unknownCall
  dsimp only
  split
  · exact .pure _
  · exact .reject rfl

/-- A call obeys from a token on that holds the name of a function. -/
theorem functionCall (hn : Obeys C K (fun _ => True) nested) :
    Obeys C K (fun c => c.token = .function) (functionCall σ nested) := by
  refine .offset fun start => ?_
  refine .name (fun _ h => h ▸ rfl) fun lexical hname => ?_
  refine .bind (.functionName hname) fun name => ?_
  refine .bind .advance fun _ => ?_
  refine .bind (.arguments hn) fun args => ?_
  refine .bind (.ask fun _ => .ofFunction name args.length) fun function? => ?_
  split
  · exact .unknownCall _ _ _
  · exact .knownCall _ _ _

theorem parenthesized (hn : Obeys C K (fun _ => True) nested) :
    Obeys C K A (parenthesized σ nested) := by
  refine .offset fun start => ?_
  refine .bind .advance fun _ => ?_
  refine .token fun k => ?_
  split
  · exact .bind .advance fun _ => .pure _
  · exact .bind (.expression hn) fun _ => .bind (.skip _) fun _ => .pure _

/-- What a path starts with obeys, case by case on the current token. -/
theorem primary (hn : Obeys C K (fun _ => True) nested) (startsPattern : Bool) :
    Obeys C K A (primary σ nested startsPattern) := by
  refine .token fun k => ?_
  split
  · exact .variableReference
  · exact .parenthesized hn
  · exact .stringLiteral
  · exact .numericLiteral
  · exact (functionCall hn).mono fun _ h => h.2
  · exact .leaf _
  · exact .leaf _
  · exact .bareStep _
  · exact .bareStep _
  · exact .bareStep _
  · exact .bareStep _
  · exact .bareStep _
  · exact .attributeStep
  · exact .axisStep
  · exact .found fun _ => .reject rfl

theorem conditional (hn : Obeys C K (fun _ => True) nested) :
    Obeys C K A (conditional σ nested) := by
  refine .offset fun start => ?_
  refine .bind .advance fun _ => ?_
  refine .bind (.expression hn) fun condition => ?_
  refine .bind (.skip .rightParen) fun _ => ?_
  refine .bind (.skip .thenWord) fun _ => ?_
  refine .bind hn fun yes => ?_
  refine .bind (.skip .elseWord) fun _ => ?_
  exact .bind hn fun no => .pure _

/-! ### Type operators -/

theorem cast (start : Nat) (castable : Bool) (operand : Expr) (type : SingleType) :
    Obeys C K A (cast σ start castable operand type) := by
  unfold Parse.cast
  split
  · split
    · exact .pure _
    · exact .pure _
    · next hfault =>
        exact .reject (Fault.isMalformedName_of_isResolved (qnameLiteral_arises hfault).isResolved)
  · exact .pure _

/-- A type operator obeys with its type. -/
theorem typeOperation (op : TypeOperator) (start : Nat) (operand : Expr) :
    Obeys C K A (typeOperation σ op start operand) := by
  refine .bind .advance fun _ => ?_
  split
  · exact .bind .sequenceType fun _ => .pure _
  · exact .bind .sequenceType fun _ => .pure _
  · exact .bind .singleType fun _ => .cast _ _ _ _
  · exact .bind .singleType fun _ => .cast _ _ _ _

theorem endTypeOperation (precedence : Nat) : Obeys C K A (endTypeOperation σ precedence) := by
  refine .token fun t => ?_
  split
  · exact .reject rfl
  · exact .pure _

end Steps

/-! ### Levels and scope -/

/-- Levels that are given back make no difference, whatever becomes of the part between. -/
theorem nesting {p : Parse α} (hp : Obeys C Balanced A p) : Obeys C Even A (nesting p) := by
  intro s hs hA
  have h := hp s hs hA
  unfold Parse.nesting
  cases hp : p s with
  | ok a t =>
      rw [hp] at h
      exact ⟨⟨⟨h.1.scope, h.1.counts⟩, rfl⟩, h.2⟩
  | error e t =>
      rw [hp] at h
      exact ⟨⟨⟨h.1.scope, h.1.counts⟩, rfl⟩, h.2⟩

/-- Variables that are taken out of scope make no difference. -/
theorem binding {p : Parse α} (hp : Obeys C Counts A p) : Obeys C Balanced A (binding p) := by
  intro s hs hA
  have h := hp s hs hA
  unfold Parse.binding
  cases hp : p s with
  | ok a t =>
      rw [hp] at h
      exact ⟨⟨rfl, h.1⟩, h.2⟩
  | error e t =>
      rw [hp] at h
      exact ⟨⟨rfl, h.1⟩, h.2⟩

theorem descend (levels : Nat) : Obeys C Balanced A (descend σ levels) := by
  refine .bind (fun s hs _ => ⟨⟨rfl, Nat.le_refl s.nextId⟩, hs⟩) fun _ => .look fun s => ?_
  split
  · exact .reject rfl
  · exact .pure _

theorem declare (name : ExpandedName) : Obeys C Counts A (declare name) :=
  fun s hs _ => ⟨Nat.le_succ s.nextId, hs⟩

variable {nested : Parse Expr}

/-! ### Paths -/

theorem predicate (hn : Obeys C Balanced (fun _ => True) nested) (base : Expr) :
    Obeys C Balanced A (predicate σ nested base) := by
  refine .offset fun start => ?_
  refine .bind (.descend 1) fun _ => ?_
  refine .bind .advance fun _ => ?_
  refine .bind (.expression hn) fun condition => ?_
  exact .bind (.skip .rightBracket) fun _ => .pure _

theorem step (hn : Obeys C Balanced (fun _ => True) nested) (startsPattern : Bool) :
    Obeys C Balanced A (step σ nested startsPattern) := by
  refine .even (.nesting ?_)
  refine .bind (.primary hn startsPattern) fun base => ?_
  exact .bind (.repeatWhile (fun e => .predicate hn e) base) fun filtered => .pure _

theorem furtherStep (hn : Obeys C Balanced (fun _ => True) nested) (before : Expr) :
    Obeys C Balanced A (furtherStep σ nested before) := by
  refine .token fun separator => ?_
  refine .offset fun start => ?_
  refine .bind (.descend (separatorLevels separator)) fun _ => ?_
  refine .bind .advance fun _ => ?_
  exact .bind (.step hn false) fun next => .pure _

theorem furtherStepFromRoot (hn : Obeys C Balanced (fun _ => True) nested) (before : Expr) :
    Obeys C Balanced A (furtherStepFromRoot σ nested before) := by
  refine .token fun separator => ?_
  refine .offset fun start => ?_
  refine .bind .advance fun _ => ?_
  refine .bind (.descend (separatorLevels separator)) fun _ => ?_
  exact .bind (.step hn false) fun next => .pure _

theorem relativePath (hn : Obeys C Balanced (fun _ => True) nested) :
    Obeys C Balanced A (relativePath σ nested) := by
  refine .even (.nesting ?_)
  refine .bind (.step hn _) fun first => ?_
  exact .repeatWhile (fun e => .furtherStep hn e) first

theorem pathFrom (hn : Obeys C Balanced (fun _ => True) nested) (start : Nat) (origin : Expr) :
    Obeys C Balanced A (pathFrom σ nested start origin) := by
  refine .even (.nesting ?_)
  refine .bind (.descend 1) fun _ => ?_
  refine .bind (.step hn false) fun first => ?_
  exact .repeatWhile (fun e => .furtherStepFromRoot hn e) (.path start origin first)

/-- The same variables are in scope after a path, whatever has come of it. -/
theorem pathExpression (hn : Obeys C Balanced (fun _ => True) nested) :
    Obeys C Balanced A (pathExpression σ nested) := by
  refine .token fun k => ?_
  split
  · refine .offset fun start => ?_
    refine .bind .advance fun _ => ?_
    refine .token fun k => ?_
    split
    · exact .reject rfl
    · split
      · exact .pathFrom hn _ _
      · exact .pure _
  · exact .offset fun _ => .bind .advance fun _ => .pathFrom hn _ _
  · exact .relativePath hn

/-! ### Operations -/

theorem sign (signs : List (Sign × Nat)) : Obeys C Balanced A (sign σ signs) := by
  refine .token fun t => ?_
  split
  · exact .pure _
  · refine .bind (.descend 1) fun _ => ?_
    refine .offset fun start => ?_
    exact .bind .advance fun _ => .pure _

theorem signedPath (hn : Obeys C Balanced (fun _ => True) nested) :
    Obeys C Balanced A (signedPath σ nested) := by
  refine .even (.nesting ?_)
  refine .bind (.repeatWhile (fun signs => .sign signs) []) fun signs => ?_
  exact .bind (.pathExpression hn) fun operand => .pure _

theorem operation (hn : Obeys C Balanced (fun _ => True) nested)
    {tighter : Nat → Expr → Parse Expr}
    (htighter : ∀ least e, Obeys C Balanced (fun _ => True) (tighter least e)) (left : Expr) :
    Obeys C Balanced A (operation σ nested tighter left) := by
  refine .offset fun start => ?_
  refine .token fun t => ?_
  split
  · next op =>
      refine .bind (.descend 1) fun _ => ?_
      refine .bind .advance fun _ => ?_
      refine .bind (.signedPath hn) fun operand => ?_
      refine .bind (.repeatWhile (fun right => ?_) operand) fun right => .pure _
      -- the operators that bind tighter take the right operand first
      refine .token fun k => ?_
      split
      · exact (htighter _ right).mono fun _ _ => trivial
      · exact .pure right
  · next op =>
      refine .bind (.descend 1) fun _ => ?_
      refine .bind (.typeOperation op start left) fun typed => ?_
      exact .bind (.endTypeOperation op.precedence) fun _ => .pure typed
  · exact .pure left

/-- Operators obey with their operands, by induction on the tiers. -/
theorem operations (hn : Obeys C Balanced (fun _ => True) nested) (tiers least : Nat)
    (left : Expr) : Obeys C Balanced A (operations σ nested tiers least left) := by
  induction tiers generalizing least left A with
  | zero => exact .pure left
  | succ tiers ih =>
      refine .even ?_
      refine .nesting ?_
      exact .repeatWhile (fun e => .operation hn (fun _ _ => ih _ _) e) left

/-! ### Bindings -/

/-- A clause leaves its variable in scope. -/
theorem clause (hn : Obeys C Balanced (fun _ => True) nested) :
    Obeys C Counts A (clause σ nested) := by
  refine .bind (.skip .dollar) fun _ => ?_
  refine .expect ?_
  refine .name (fun _ h => h.2 ▸ rfl) fun lexical hname => ?_
  refine .bind (.expandName hname false) fun name => ?_
  refine .bind .advance fun _ => ?_
  refine .bind (.skip .inWord) fun _ => ?_
  refine .bind hn.counts fun domain => ?_
  exact .bind (.declare name) fun bound => .pure _

theorem bindingExpression (hn : Obeys C Balanced (fun _ => True) nested) (kind : BindingKind) :
    Obeys C Balanced A (bindingExpression σ nested kind) := by
  refine .offset fun start => ?_
  refine .bind (.binding ?_) fun parts => .pure _
  refine .bind .advance fun _ => ?_
  refine .bind (.commaSeparated (.clause hn)) fun clauses => ?_
  refine .bind (.skip (actionToken kind)) fun _ => ?_
  exact .bind hn.counts fun action => .pure _

theorem singleWith (hn : Obeys C Balanced (fun _ => True) nested) :
    Obeys C Even A (singleWith σ nested) := by
  refine .nesting ?_
  refine .bind (.descend _) fun _ => ?_
  refine .token fun t => ?_
  split
  · exact .bindingExpression hn _
  · exact .bindingExpression hn _
  · exact .bindingExpression hn _
  · exact .conditional hn
  · exact .bind (.signedPath hn) fun _ => .operations hn _ _ _

/-- A single expression gives back all that it takes, by induction on the levels. -/
theorem singleWithin (n : Nat) : Obeys C Even A (singleWithin σ n) := by
  induction n generalizing A with
  | zero => exact .reject rfl
  | succ n ih => exact .singleWith ih.even

/-! ### Whole sources -/

/-- What is read behind the first token of an expression that ends before a given one. -/
theorem upTo (terminator : Token) : Obeys C Even A (do
    let e ← Parse.expression σ (single σ)
    let t ← Parse.token
    if t = terminator then return e
    else if t = .eof ∧ terminator = .rightBrace then Parse.reject σ .unclosedTemplate
    else Parse.reject σ (.beyondExpression (← Parse.found))) := by
  refine .bind (.expression (.singleWithin _)) fun e => ?_
  refine .token fun t => ?_
  split
  · exact .pure _
  · split
    · exact .reject rfl
    · exact .found fun _ => .reject rfl

theorem wholeType : Obeys C Even A (do
    let type ← Parse.sequenceType σ
    if (← Parse.token) = .eof then return type
    else Parse.reject σ (.beyondType (← Parse.found))) := by
  refine .bind .sequenceType fun type => ?_
  refine .token fun k => ?_
  split
  · exact .pure _
  · exact .found fun _ => .reject rfl

end Obeys

end Parse

end XPath
