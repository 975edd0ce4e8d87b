import XPath.Proofs.Assembly

/-!
# Everything that is read is assembled

`Yields c P p` says what is known of whatever a part of a reader gives behind a cursor, and that
the part only reads on from there. It goes through sequences, loops and lists, and with it each
production gives whole expressions when the reader of the expressions within it does
(`Expr.Whole`). A step without its predicates may still be one against the order of the document.
-/

namespace XPath.Parse

variable {α β : Type} {σ : Setting} {c : Cursor}

/-- Behind the cursor, whatever the part gives has a property, and the part reads on. -/
def Yields (c : Cursor) (P : α → Prop) (p : Parse α) : Prop :=
  ∀ s a t, c.Reaches s.cursor → p s = .ok a t → P a ∧ c.Reaches t.cursor

/-- The same for a part that starts where more is known of the cursor. -/
def YieldsFrom (c : Cursor) (S : Cursor → Prop) (P : α → Prop) (p : Parse α) : Prop :=
  ∀ s a t, c.Reaches s.cursor → S s.cursor → p s = .ok a t → P a ∧ c.Reaches t.cursor

namespace YieldsFrom

variable {S : Cursor → Prop} {P : α → Prop} {Q : β → Prop}

theorem of_yields {p : Parse α} (hp : Yields c P p) : YieldsFrom c S P p :=
  fun s a t hs _ h => hp s a t hs h

/-- A part that starts at one of several places can be looked at where it starts. -/
theorem here {p : Parse α} (hp : ∀ d, c.Reaches d → S d → Yields c P p) : YieldsFrom c S P p :=
  fun s a t hs hS h => hp s.cursor hs hS s a t hs h

theorem weaken {S' : Cursor → Prop} {p : Parse α} (hp : YieldsFrom c S' P p)
    (hS : ∀ d, S d → S' d) : YieldsFrom c S P p :=
  fun s a t hs hstart h => hp s a t hs (hS _ hstart) h

/-- An action that starts at certain cursors, and one that starts anywhere behind it. -/
theorem bind {p : Parse α} {q : α → Parse β} (hp : YieldsFrom c S P p)
    (hq : ∀ a, P a → Yields c Q (q a)) : YieldsFrom c S Q (p >>= q) := by
  intro s b u hs hstart h
  obtain ⟨a, t, ha, hb⟩ := bind_ok.mp h
  obtain ⟨hP, ht⟩ := hp s a t hs hstart ha
  exact hq a hP t b u ht hb

theorem token {q : Token → Parse β}
    (hq : ∀ token, YieldsFrom c (fun d => S d ∧ d.token = token) Q (q token)) :
    YieldsFrom c S Q (Parse.token >>= q) :=
  fun s b t hs hstart h => hq _ s b t hs ⟨hstart, rfl⟩ h

theorem value {q : String → Parse β}
    (hq : ∀ text, YieldsFrom c (fun d => S d ∧ d.value = text) Q (q text)) :
    YieldsFrom c S Q (Parse.value >>= q) :=
  fun s b t hs hstart h => hq _ s b t hs ⟨hstart, rfl⟩ h

theorem offset {q : Nat → Parse β}
    (hq : ∀ n, YieldsFrom c (fun d => S d ∧ d.offset = n) Q (q n)) :
    YieldsFrom c S Q (Parse.offset >>= q) :=
  fun s b t hs hstart h => hq _ s b t hs ⟨hstart, rfl⟩ h

theorem descend {levels : Nat} {q : Unit → Parse β} (hq : ∀ a, YieldsFrom c S Q (q a)) :
    YieldsFrom c S Q (descend σ levels >>= q) := by
  intro s b u hs hstart h
  obtain ⟨a, t, ha, hb⟩ := bind_ok.mp h
  obtain ⟨-, rfl⟩ := descend_ok ha
  exact hq a { s with depth := s.depth + levels } b u hs hstart hb

/-- Behind a token it is known what the token was. -/
theorem advance {q : Unit → Parse β} (hq : ∀ a, YieldsFrom c
      (fun d => ∃ b, c.Reaches b ∧ S b ∧ b.advance = (.ok (), d)) Q (q a)) :
    YieldsFrom c S Q (advance σ >>= q) := by
  intro s b u hs hstart h
  obtain ⟨a, t, ha, hb⟩ := bind_ok.mp h
  obtain ⟨d, hd, rfl⟩ := advance_ok ha
  exact hq a { s with cursor := d } b u (hs.advance hd) ⟨s.cursor, hs, hstart, hd⟩ hb

theorem nesting {p : Parse α} (hp : YieldsFrom c S P p) : YieldsFrom c S P (nesting p) := by
  intro s a t hs hstart h
  obtain ⟨u, hu, rfl⟩ := nesting_ok h
  exact hp s a u hs hstart hu

end YieldsFrom

namespace Yields

variable {P : α → Prop} {Q : β → Prop}

/-! ### Parts of parts -/

theorem mono {P' : α → Prop} {p : Parse α} (hp : Yields c P' p) (h : ∀ a, P' a → P a) :
    Yields c P p := by
  intro s a t hs ha
  obtain ⟨hP, ht⟩ := hp s a t hs ha
  exact ⟨h a hP, ht⟩

theorem pure {a : α} (h : P a) : Yields c P (pure a) := by
  intro s b t hs hb
  obtain ⟨rfl, rfl⟩ := pure_ok.mp hb
  exact ⟨h, hs⟩

/-- Actions in a row yield what the last one does on what the first one yields. -/
theorem bind {p : Parse α} {q : α → Parse β} (hp : Yields c P p)
    (hq : ∀ a, P a → Yields c Q (q a)) : Yields c Q (p >>= q) := by
  intro s b u hs h
  obtain ⟨a, t, ha, hb⟩ := bind_ok.mp h
  obtain ⟨hP, ht⟩ := hp s a t hs ha
  exact hq a hP t b u ht hb

/-- What only reads on gives something that it gives behind the cursor. -/
theorem gave {p : Parse α} (hp : Scanning p) : Yields c (Gave c p) p :=
  fun s a t hs h => ⟨⟨s, t, hs, h⟩, hs.trans (hp s a t h).cursor⟩

/-- Nothing is asked of what has only read on. -/
theorem after {p : Parse α} (hp : Scanning p) {q : α → Parse β} (hq : ∀ a, Yields c Q (q a)) :
    Yields c Q (p >>= q) :=
  .bind (.gave hp) fun a _ => hq a

theorem token {q : Token → Parse β} (hq : ∀ token, Yields c Q (q token)) :
    Yields c Q (token >>= q) :=
  .after .token hq

theorem value {q : String → Parse β} (hq : ∀ text, Yields c Q (q text)) :
    Yields c Q (value >>= q) :=
  .after .value hq

/-- What is known wherever a part may start. -/
theorem anywhere {S : Cursor → Prop} {p : Parse α} (hp : YieldsFrom c S P p) (hS : ∀ d, S d) :
    Yields c P p :=
  fun s a t hs h => hp s a t hs (hS _) h

theorem tokenFrom {q : Token → Parse β}
    (hq : ∀ token, YieldsFrom c (fun d => d.token = token) Q (q token)) :
    Yields c Q (Parse.token >>= q) :=
  fun s b t hs h => hq _ s b t hs rfl h

theorem offset {q : Nat → Parse β} (hq : ∀ n, Yields c Q (q n)) : Yields c Q (offset >>= q) :=
  fun s b t hs h => hq s.cursor.offset s b t hs h

/-- It is known where the token was seen. -/
theorem offsetToken {q : Nat → Token → Parse β} (hq : ∀ n token,
    (∃ d, c.Reaches d ∧ d.token = token ∧ d.offset = n) → Yields c Q (q n token)) :
    Yields c Q (Parse.offset >>= fun n => Parse.token >>= q n) :=
  fun s b t hs h => hq _ _ ⟨s.cursor, hs, rfl, rfl⟩ s b t hs h

theorem descend {levels : Nat} {q : Unit → Parse β} (hq : ∀ a, Yields c Q (q a)) :
    Yields c Q (descend σ levels >>= q) := by
  intro s b u hs h
  obtain ⟨a, t, ha, hb⟩ := bind_ok.mp h
  obtain ⟨-, rfl⟩ := descend_ok ha
  exact hq a { s with depth := s.depth + levels } b u hs hb

theorem reject {f : Fault} : Yields c P (reject σ f) :=
  fun _ _ _ _ h => absurd h reject_ne_ok

/-- Nothing comes after a failure. -/
theorem reject_bind {f : Fault} {q : α → Parse β} : Yields c Q (Parse.reject σ f >>= q) :=
  .bind (P := fun _ => False) .reject fun _ h => h.elim

theorem nesting {p : Parse α} (hp : Yields c P p) : Yields c P (nesting p) := by
  intro s a t hs h
  obtain ⟨u, hu, rfl⟩ := nesting_ok h
  exact hp s a u hs hu

theorem binding {p : Parse α} (hp : Yields c P p) : Yields c P (binding p) := by
  intro s a t hs h
  obtain ⟨u, hu, rfl⟩ := binding_ok h
  exact hp s a u hs hu

/-- What a loop keeps, each of its parts has to keep only where the loop goes on. -/
theorem repeatWhileFrom {go : Token → Bool} {part : α → Parse α}
    (hpart : ∀ a, P a → YieldsFrom c (fun d => go d.token = true) P (part a)) {a : α} (ha : P a) :
    Yields c P (repeatWhile go part a) := by
  intro s b t hs h
  refine repeatWhile_ok (I := fun a s => P a ∧ c.Reaches s.cursor) ?_ ⟨ha, hs⟩ h
  intro a s b t ⟨ha, hs⟩ hgo hb
  exact hpart a ha s b t hs hgo hb

theorem repeatWhile {go : Token → Bool} {part : α → Parse α}
    (hpart : ∀ a, P a → Yields c P (part a)) {a : α} (ha : P a) :
    Yields c P (repeatWhile go part a) :=
  .repeatWhileFrom (fun a ha => .of_yields (hpart a ha)) ha

/-- There is at least one member, and what holds of each that is read holds of all. -/
theorem commaSeparated {part : Parse α} (hpart : Yields c P part) :
    Yields c (fun as => (∀ a ∈ as, P a) ∧ as ≠ []) (commaSeparated σ part) := by
  intro s as t hs h
  have hgiven : ((∀ a ∈ as, P a) ∧ c.Reaches t.cursor) ∧ as ≠ [] := by
    refine commaSeparated_ok (I := fun as t => (∀ a ∈ as, P a) ∧ c.Reaches t.cursor) ?_ ?_ h
    · intro a u hu
      obtain ⟨ha, hreaches⟩ := hpart s a u hs hu
      exact ⟨by simpa using ha, hreaches⟩
    · intro as u v w a b hI hv hw
      obtain ⟨hall, hu⟩ := hI
      obtain ⟨ha, hreaches⟩ := hpart v a w (hu.trans (Scanning.advance u b v hv).cursor) hw
      refine ⟨fun a' ha' => ?_, hreaches⟩
      rcases List.mem_append.mp ha' with ha' | ha'
      · exact hall a' ha'
      · rw [List.mem_singleton.mp ha']
        exact ha
  exact ⟨⟨hgiven.1.1, hgiven.2⟩, hgiven.1.2⟩

/-! ### Steps without predicates -/

/-- A step, or what is put in its place, before its predicates are read. -/
abbrev Base (σ : Setting) (c : Cursor) (e : Expr) : Prop :=
  e.Assembled σ c ∧ e.isBare = isReverseStep e

theorem base_of_whole {e : Expr} (h : e.Whole σ c) : Base σ c e := by
  refine ⟨h.assembled, ?_⟩
  have hbare := h.ordered
  cases e with
  | axisStep n axis test => rfl
  | _ => exact hbare

theorem base_axisStep {n : Nat} {axis : Axis} {test : NodeTest} (h : test.IsRead σ c n axis) :
    Base σ c (.axisStep n axis test) :=
  ⟨Expr.assembled_node h (by simp [Expr.IsOrdered, Expr.children]) (by simp [Expr.children]), rfl⟩

theorem impliedAxis_forward (t : Token) (word : String) (startsPattern : Bool) :
    (impliedAxis t word startsPattern).isReverse = false := by
  unfold impliedAxis
  split
  · split
    · rfl
    · split <;> rfl
  · rfl

/-- The axis of a bare test is the one to children, or another one for a test that starts with a
keyword. -/
theorem bareStep {startsPattern : Bool} :
    YieldsFrom c (StepAt σ c · startsPattern) (Expr.Whole σ c) (bareStep σ startsPattern) := by
  intro s e t hs hplace h
  obtain ⟨test, hu, rfl⟩ := bareStep_ok h
  refine ⟨?_, hs.trans (Scanning.nodeTest _ s test t hu).cursor⟩
  exact Expr.whole_leaf (e := .axisStep _ _ test)
    (.bare ⟨s, t, startsPattern, hs, rfl, hplace, rfl, hu⟩) (by simp) (impliedAxis_forward _ _ _)
    rfl

/-- A test behind an axis. -/
theorem axisTest (start : Nat) (axis : Axis) (h : AxisAt c start axis) :
    Yields c (Base σ c) (do return Expr.axisStep start axis (← nodeTest σ axis.principalKind)) :=
  .bind (.gave (.nodeTest _)) fun _ htest => .pure (base_axisStep (.ofAxis h htest))

theorem attributeStep :
    YieldsFrom c (fun d => d.token = .atSign) (Base σ c) (attributeStep σ) := by
  refine .offset fun start => ?_
  refine .here fun d hd ⟨htoken, hoffset⟩ => ?_
  refine .after .advance fun _ => ?_
  refine .token fun token => ?_
  dsimp only
  split
  · exact .reject_bind
  · exact axisTest start .attribute (.mark hd hoffset htoken)

/-- A step with its axis has that axis from the token that names it. -/
theorem axisStep : YieldsFrom c (fun d => d.token = .axis) (Base σ c) (axisStep σ) := by
  refine .offset fun start => ?_
  refine .value fun name => ?_
  refine .here fun d hd ⟨⟨htoken, hoffset⟩, hname⟩ => ?_
  split
  · exact .reject
  · next axis haxis =>
    refine .after .advance fun _ => ?_
    refine .token fun token => ?_
    dsimp only
    split
    · exact .bind (P := fun _ => True) (fun s a t hs h => ⟨trivial, by cases h; exact hs⟩)
        fun _ _ => .reject_bind
    · exact axisTest _ _ (.name hd hoffset htoken (hname ▸ haxis))

/-! ### What paths start with -/

/-- The reader of expressions within expressions gives whole ones. -/
structure Within (σ : Setting) (c : Cursor) (nested : Parse Expr) : Prop where
  levels : ∃ n, nested = singleWithin σ n
  whole : Yields c (Expr.Whole σ c) nested

section Nested

variable {nested : Parse Expr} (hn : Within σ c nested)

include hn in
/-- One expression stands for itself, and several are a row. -/
theorem expression : Yields c (Expr.Whole σ c) (expression σ nested) := by
  refine .offset fun start => ?_
  refine .bind (.commaSeparated hn.whole) fun items ⟨hitems, hne⟩ => ?_
  rcases items with _ | ⟨first, _ | ⟨second, others⟩⟩
  · exact absurd rfl hne
  · exact .pure (hitems first List.mem_cons_self)
  · refine .pure (Expr.whole_node ?_ (by simp) rfl hitems)
    show 2 ≤ _
    simp

theorem leaf {make : Nat → Expr} (h : ∀ n, (make n).Whole σ c) :
    Yields c (Expr.Whole σ c) (leaf σ make) := by
  refine .offset fun start => ?_
  exact .after .advance fun _ => .pure (h start)

theorem numericLiteral : Yields c (Expr.Whole σ c) (numericLiteral σ) := by
  refine .value fun text => ?_
  split
  · exact .reject
  · next number hnumber => exact .leaf fun n => Expr.whole_literal (.number hnumber)

/-- A reference has the name that was read at its mark, whether it is in scope or known to the host.
-/
theorem variableReference : Yields c (Expr.Whole σ c) (variableReference σ) := by
  refine .offset fun start => ?_
  refine .after .advance fun _ => ?_
  refine .after (.expect _) fun _ => ?_
  refine .value fun lexical => ?_
  refine .after .advance fun _ => ?_
  refine .bind (.gave (.expandName _ _)) fun name hname => ?_
  intro s e t hs h
  rw [get_bind] at h
  cases hfind : s.scope.find? (·.name = name) with
  | some v =>
      rw [hfind] at h
      obtain ⟨rfl, rfl⟩ := pure_ok.mp h
      have heq : v.name = name := by simpa using List.find?_some hfind
      refine ⟨Expr.whole_leaf ⟨lexical, ?_⟩ (by simp) rfl rfl, hs⟩
      show Gave c _ v.name
      rw [heq]
      exact hname
  | none =>
      rw [hfind] at h
      cases htype : σ.host.variableType name with
      | ok type =>
          rw [htype] at h
          obtain ⟨rfl, rfl⟩ := pure_ok.mp h
          exact ⟨Expr.whole_leaf ⟨lexical, hname⟩ (by simp) rfl rfl, hs⟩
      | error err =>
          rw [htype] at h
          dsimp only at h
          split at h
          · exact absurd h reject_ne_ok
          · exact absurd h fail_ne_ok

/-! ### Calls -/

include hn in
theorem arguments :
    Yields c (fun args => ∀ arg ∈ args, arg.Whole σ c) (arguments σ nested) := by
  refine .token fun token => ?_
  split
  · exact .after .advance fun _ => .pure (by simp)
  · refine .bind (.commaSeparated hn.whole) fun args hargs => ?_
    exact .after (.skip _) fun _ => .pure hargs.1

include hn in
theorem callHead : Yields c (fun head => ∀ arg ∈ head.2, arg.Whole σ c) (callHead σ nested) := by
  refine .value fun lexical => ?_
  refine .after (.functionName lexical) fun name => ?_
  refine .after .advance fun _ => ?_
  exact .bind (.arguments hn) fun args hargs => .pure hargs

/-- A call is read with its name and arguments first. -/
theorem functionCall_eq : Parse.functionCall σ nested = (do
    let start ← Parse.offset
    let (name, args) ← Parse.callHead σ nested
    match ← ask σ (σ.host.bind? name args.length) with
    | none => unknownCall σ start name args.length
    | some function => knownCall σ start function args) := by
  simp only [Parse.callHead, bind_assoc, pure_bind]
  rfl

theorem unknownCall {n arity : Nat} {name : ExpandedName} (hat : CallAt σ c n name arity)
    (hbind : σ.host.bind? name arity = .ok none) :
    Yields c (Expr.Whole σ c) (unknownCall σ n name arity) := by
  unfold Parse.unknownCall
  dsimp only
  split
  · next hcompatible =>
      exact .pure (Expr.whole_leaf ⟨hcompatible, name, arity, hat, hbind, rfl⟩ (by simp) rfl rfl)
  · exact .reject

/-- A call that is kept has a function that the host has bound to its name. -/
theorem callIn {n : Nat} {f : FunctionBinding} {args : List Expr}
    (hbound : ∃ name, CallAt σ c n name args.length ∧
      σ.host.bind? name args.length = .ok (some f))
    (hqname : f.kind = .constructor .qname → args.head?.bind Expr.stringLiteral? = none)
    (hargs : ∀ arg ∈ args, arg.Whole σ c) :
    Yields c (Expr.Whole σ c) (callIn σ n f args) := by
  unfold Parse.callIn
  split
  · exact .pure (Expr.whole_literal .emptySequence)
  · exact .reject
  · exact .reject
  · next hregex hgroup hkey =>
      have hpattern : σ.language = .pattern →
          f.kind ≠ .currentGroup ∧ f.kind ≠ .currentGroupingKey ∧ f.kind ≠ .regexGroup :=
        fun hlanguage => ⟨hgroup hlanguage, hkey hlanguage, hregex hlanguage⟩
      exact .pure (Expr.whole_node (e := .call n f args) ⟨hbound, hqname, hpattern⟩ (by simp) rfl
        hargs)

theorem knownCall {n : Nat} {f : FunctionBinding} {args : List Expr}
    (hbound : ∃ name, CallAt σ c n name args.length ∧
      σ.host.bind? name args.length = .ok (some f))
    (hargs : ∀ arg ∈ args, arg.Whole σ c) :
    Yields c (Expr.Whole σ c) (knownCall σ n f args) := by
  unfold Parse.knownCall
  split
  · split
    · next hliteral => exact .pure (Expr.whole_literal (.qname hliteral))
    · exact .reject
  · next hother =>
      refine .callIn hbound (fun hkind => ?_) hargs
      rw [Option.eq_none_iff_forall_ne_some]
      exact fun text htext => hother text hkind htext

include hn in
/-- Where the call stands is known from the token that starts it. -/
theorem functionCall {s t : ParseState} {e : Expr} (hs : c.Reaches s.cursor)
    (htoken : s.cursor.token = .function) (h : Parse.functionCall σ nested s = .ok e t) :
    e.Whole σ c ∧ c.Reaches t.cursor := by
  rw [functionCall_eq, offset_bind] at h
  obtain ⟨⟨name, args⟩, u, hu, h⟩ := bind_ok.mp h
  obtain ⟨hargs, hreaches⟩ := Yields.callHead hn s _ u hs hu
  have hat : CallAt σ c s.cursor.offset name args.length := by
    obtain ⟨levels, rfl⟩ := hn.levels
    exact ⟨levels, args, s, u, hs, htoken, rfl, hu, rfl⟩
  obtain ⟨function?, v, hv, h⟩ := bind_ok.mp h
  obtain ⟨hbind, rfl⟩ := ask_ok hv
  cases function? with
  | none => exact unknownCall hat hbind u e t hreaches h
  | some f => exact knownCall ⟨name, hat, hbind⟩ hargs u e t hreaches h

include hn in
theorem parenthesized : Yields c (Expr.Whole σ c) (parenthesized σ nested) := by
  refine .offset fun start => ?_
  refine .after .advance fun _ => ?_
  refine .token fun token => ?_
  split
  · exact .after .advance fun _ => .pure (Expr.whole_literal .emptySequence)
  · refine .bind (.expression hn) fun inner hinner => ?_
    exact .after (.skip _) fun _ => .pure hinner

include hn in
/-- What a path starts with is made in one of the ways that the tokens allow. -/
theorem primary {startsPattern : Bool} :
    YieldsFrom c (StepAt σ c · startsPattern) (Base σ c) (primary σ nested startsPattern) := by
  have hwhole : ∀ {p : Parse Expr}, Yields c (Expr.Whole σ c) p → Yields c (Base σ c) p :=
    fun hp => .mono hp fun _ => base_of_whole
  intro s e t hs hplace h
  unfold Parse.primary at h
  rw [token_bind] at h
  cases htoken : s.cursor.token <;> rw [htoken] at h
  case dollar => exact hwhole .variableReference s e t hs h
  case leftParen => exact hwhole (.parenthesized hn) s e t hs h
  case stringLiteral =>
    have hp : Yields c (Expr.Whole σ c) (stringLiteral σ) :=
      .value fun text => .leaf fun n => Expr.whole_literal (.string text)
    exact hwhole hp s e t hs h
  case number => exact hwhole .numericLiteral s e t hs h
  case function =>
    obtain ⟨he, ht⟩ := functionCall hn hs htoken h
    exact ⟨base_of_whole he, ht⟩
  case dot =>
    have hp : Yields c (Expr.Whole σ c) (Parse.leaf σ .contextItem) :=
      .leaf fun n => Expr.whole_leaf trivial (by simp) rfl rfl
    exact hwhole hp s e t hs h
  case dotDot =>
    have hp : Yields c (Expr.Whole σ c) (Parse.leaf σ .parent) :=
      .leaf fun n => Expr.whole_leaf trivial (by simp) rfl rfl
    exact hwhole hp s e t hs h
  case nodeKind | name | namespaceWildcard | localWildcard | star =>
    obtain ⟨he, ht⟩ := Yields.bareStep s e t hs hplace h
    exact ⟨base_of_whole he, ht⟩
  case atSign => exact Yields.attributeStep s e t hs htoken h
  case axis => exact Yields.axisStep s e t hs htoken h
  all_goals
    obtain ⟨_, _, -, hfail⟩ := bind_ok.mp h
    exact absurd hfail reject_ne_ok

/-! ### Paths -/

include hn in
/-- A predicate leaves the direction of its base as it is. -/
theorem predicate {base : Expr} (h : base.Assembled σ c) :
    Yields c (fun e => e.Assembled σ c ∧ e.isBare = base.isBare) (predicate σ nested base) := by
  refine .offset fun start => ?_
  refine .descend fun _ => ?_
  refine .after .advance fun _ => ?_
  refine .bind (.expression hn) fun condition hcondition => ?_
  exact .after (.skip _) fun _ => .pure ⟨Expr.assembled_filter h hcondition, rfl⟩

include hn in
/-- A bare step against the order of the document is put back into order, so that the step is whole.
-/
theorem step {startsPattern : Bool} :
    YieldsFrom c (StepAt σ c · startsPattern) (Expr.Whole σ c) (step σ nested startsPattern) := by
  refine .nesting ?_
  refine .bind (Yields.primary hn) fun base ⟨hbase, hdirection⟩ => ?_
  have hround : ∀ e : Expr, e.Assembled σ c ∧ e.isBare = base.isBare → Yields c
      (fun e => e.Assembled σ c ∧ e.isBare = base.isBare) (Parse.predicate σ nested e) :=
    fun e he => .mono (.predicate hn he.1) fun e' he' => ⟨he'.1, he'.2.trans he.2⟩
  refine .bind (.repeatWhile hround ⟨hbase, rfl⟩) fun filtered hfiltered => ?_
  have hbare : filtered.isBare = isReverseStep base := hfiltered.2.trans hdirection
  split
  · next hreverse => exact .pure (Expr.whole_reverse hfiltered.1 (hbare.trans hreverse))
  · next hforward =>
      exact .pure ⟨hfiltered.1, hbare.trans (Bool.eq_false_iff.mpr hforward)⟩

theorem whole_anyDescendant (start : Nat) : (anyDescendant start).Whole σ c :=
  Expr.whole_leaf (e := .axisStep start .descendantOrSelf .anyNode) (.descendants rfl rfl)
    (by simp) rfl rfl

theorem whole_joinStep (start : Nat) (separator : Token) {before next : Expr}
    (hbefore : before.Whole σ c) (hnext : next.Whole σ c) :
    (joinStep start separator before next).Whole σ c := by
  unfold joinStep
  split
  · exact Expr.whole_path hbefore (Expr.whole_path (whole_anyDescendant start) hnext)
  · exact Expr.whole_path hbefore hnext

/-- The step behind a separator is not the first one. -/
theorem stepAt_separated {d : Cursor}
    (h : ∃ b, c.Reaches b ∧ isSeparator b.token = true ∧ b.advance = (.ok (), d)) :
    StepAt σ c d false :=
  ⟨nofun, fun _ _ => h⟩

include hn in
theorem furtherStep {before : Expr} (h : before.Whole σ c) :
    YieldsFrom c (fun d => isSeparator d.token = true) (Expr.Whole σ c)
      (furtherStep σ nested before) := by
  refine .token fun separator => ?_
  refine .offset fun start => ?_
  refine .descend fun _ => ?_
  refine .advance fun _ => ?_
  refine .bind (.weaken (Yields.step hn) ?_) fun next hnext => .pure (whole_joinStep _ _ h hnext)
  rintro d ⟨b, hb, ⟨⟨hseparator, -⟩, -⟩, hd⟩
  exact stepAt_separated ⟨b, hb, hseparator, hd⟩

include hn in
theorem furtherStepFromRoot {before : Expr} (h : before.Whole σ c) :
    YieldsFrom c (fun d => isSeparator d.token = true) (Expr.Whole σ c)
      (furtherStepFromRoot σ nested before) := by
  refine .token fun separator => ?_
  refine .offset fun start => ?_
  refine .advance fun _ => ?_
  refine .descend fun _ => ?_
  refine .bind (.weaken (Yields.step hn) ?_) fun next hnext => .pure (whole_joinStep _ _ h hnext)
  rintro d ⟨b, hb, ⟨⟨hseparator, -⟩, -⟩, hd⟩
  exact stepAt_separated ⟨b, hb, hseparator, hd⟩

include hn in
theorem pathFrom {start : Nat} {origin : Expr} (h : origin.Whole σ c) :
    YieldsFrom c (StepAt σ c · false) (Expr.Whole σ c) (pathFrom σ nested start origin) := by
  refine .nesting ?_
  refine .descend fun _ => ?_
  refine .bind (Yields.step hn) fun first hfirst => ?_
  exact .repeatWhileFrom (fun before => furtherStepFromRoot hn) (Expr.whole_path h hfirst)

theorem whole_root (n : Nat) : (Expr.root n).Whole σ c :=
  Expr.whole_leaf trivial (by simp) rfl rfl

include hn in
theorem rootedPath :
    YieldsFrom c (fun d => isSeparator d.token = true) (Expr.Whole σ c) (rootedPath σ nested) := by
  refine .offset fun start => ?_
  refine .advance fun _ => ?_
  refine .token fun token => ?_
  split
  · exact .of_yields .reject
  · split
    · refine .weaken (Yields.pathFrom hn (whole_root start)) ?_
      rintro d ⟨⟨b, hb, ⟨hseparator, -⟩, hd⟩, -⟩
      exact stepAt_separated ⟨b, hb, hseparator, hd⟩
    · exact .of_yields (.pure (whole_root start))

include hn in
theorem descendantPath :
    YieldsFrom c (fun d => isSeparator d.token = true) (Expr.Whole σ c)
      (descendantPath σ nested) := by
  refine .offset fun start => ?_
  refine .advance fun _ => ?_
  have horigin : (Expr.path start (.root start) (anyDescendant start)).Whole σ c :=
    Expr.whole_path (whole_root start) (whole_anyDescendant start)
  refine .weaken (Yields.pathFrom hn horigin) ?_
  rintro d ⟨b, hb, ⟨hseparator, -⟩, hd⟩
  exact stepAt_separated ⟨b, hb, hseparator, hd⟩

/-- The first step of a path that starts with one may start a pattern in every pattern. -/
theorem stepAt_first (d : Cursor) : StepAt σ c d (σ.language = .pattern) :=
  ⟨of_decide_eq_true, fun hother hlanguage => absurd hlanguage (of_decide_eq_false hother)⟩

include hn in
theorem relativePath : Yields c (Expr.Whole σ c) (relativePath σ nested) := by
  refine .nesting ?_
  refine .bind (.anywhere (Yields.step hn) stepAt_first) fun first hfirst => ?_
  exact .repeatWhileFrom (fun before => furtherStep hn) hfirst

include hn in
/-- A path is whole, and each of its steps knows whether it starts a pattern. -/
theorem pathExpression : Yields c (Expr.Whole σ c) (pathExpression σ nested) := by
  refine .tokenFrom fun token => ?_
  split
  · exact .weaken (Yields.rootedPath hn) fun d htoken => by rw [htoken]; rfl
  · exact .weaken (Yields.descendantPath hn) fun d htoken => by rw [htoken]; rfl
  · exact .of_yields (.relativePath hn)

/-! ### Operations -/

theorem whole_applySigns {operand : Expr} (h : operand.Whole σ c) (signs : List (Sign × Nat)) :
    (applySigns operand signs).Whole σ c := by
  induction signs generalizing operand with
  | nil => exact h
  | cons sign signs ih =>
      rw [applySigns, List.foldl_cons, ← applySigns]
      exact ih (Expr.whole_node trivial (by simp) rfl (by simpa [Expr.children] using h))

theorem signs : Yields c (fun _ => True) (Parse.repeatWhile (fun t => (sign? t).isSome)
    (sign σ) []) := by
  refine .repeatWhile (fun signs _ => .token fun token => ?_) trivial
  split
  · exact .pure trivial
  · refine .descend fun _ => ?_
    refine .offset fun start => ?_
    exact .after .advance fun _ => .pure trivial

include hn in
theorem signedPath : Yields c (Expr.Whole σ c) (signedPath σ nested) := by
  refine .nesting ?_
  refine .bind .signs fun signs _ => ?_
  exact .bind (.pathExpression hn) fun operand h => .pure (whole_applySigns h signs)

theorem whole_typed {n : Nat} {op : TypeOperation} {operand : Expr} (h : operand.Whole σ c)
    (hread : (Expr.typed n op operand).IsRead σ c) : (Expr.typed n op operand).Whole σ c :=
  Expr.whole_node hread (by simp) rfl (by simpa [Expr.children] using h)

/-- A cast that is decided at once leaves a literal that says what was asked. -/
theorem cast {start : Nat} {castable : Bool} {operand : Expr} {type : SingleType}
    (hoperator : castable = true →
      ∃ d, c.Reaches d ∧ d.token = .typeOperator .castableAs ∧ d.offset = start)
    (h : operand.Whole σ c) (htype : Gave c (singleType σ) type) :
    Yields c (Expr.Whole σ c) (cast σ start castable operand type) := by
  unfold Parse.cast
  split
  · next text hqname _ =>
    split
    · exact .pure (Expr.whole_literal (.boolean
        ⟨hoperator rfl, ⟨type, htype, hqname⟩, ⟨text, rfl⟩⟩))
    · next hliteral => exact .pure (Expr.whole_literal (.qname hliteral))
    · exact .reject
  · next hother =>
      have hread : type.IsRead σ c operand := by
        refine ⟨htype, fun hqname => ?_⟩
        rw [Option.eq_none_iff_forall_ne_some]
        exact fun text htext => hother text hqname htext
      split
      · exact .pure (whole_typed h hread)
      · exact .pure (whole_typed h hread)

/-- A type operator keeps the type that was read behind it. -/
theorem typeOperation {op : TypeOperator} {start : Nat} {operand : Expr}
    (hoperator : ∃ d, c.Reaches d ∧ d.token = .typeOperator op ∧ d.offset = start)
    (h : operand.Whole σ c) :
    Yields c (Expr.Whole σ c) (typeOperation σ op start operand) := by
  refine .after .advance fun _ => ?_
  cases op with
  | instanceOf =>
      exact .bind (.gave .sequenceType) fun type htype => .pure (whole_typed h htype)
  | treatAs =>
      exact .bind (.gave .sequenceType) fun type htype => .pure (whole_typed h ⟨htype, rfl⟩)
  | castableAs =>
      exact .bind (.gave .singleType) fun type htype => .cast (fun _ => hoperator) h htype
  | castAs => exact .bind (.gave .singleType) fun type htype => .cast nofun h htype

theorem endTypeOperation {precedence : Nat} :
    Yields c (fun _ => True) (endTypeOperation σ precedence) := by
  refine .token fun token => ?_
  split
  · exact .reject
  · exact .pure trivial

include hn in
theorem operation {tighter : Nat → Expr → Parse Expr}
    (htighter : ∀ least e, e.Whole σ c → Yields c (Expr.Whole σ c) (tighter least e))
    {left : Expr} (h : left.Whole σ c) :
    Yields c (Expr.Whole σ c) (operation σ nested tighter left) := by
  refine .offsetToken fun start token hhere => ?_
  split
  · refine .descend fun _ => ?_
    refine .after .advance fun _ => ?_
    refine .bind (.signedPath hn) fun operand hoperand => ?_
    -- the operators that bind tighter take the right operand first
    refine .bind (.repeatWhile (fun e he => ?_) hoperand) fun right hright => ?_
    · refine .token fun token => ?_
      split
      · exact htighter _ e he
      · exact .pure he
    · refine .pure (Expr.whole_node trivial (by simp) rfl ?_)
      simpa [Expr.children] using And.intro h hright
  · refine .descend fun _ => ?_
    refine .bind (.typeOperation hhere h) fun typed htyped => ?_
    exact .bind .endTypeOperation fun _ _ => .pure htyped
  · exact .pure h

include hn in
/-- Operators join whole operands, by induction on the tiers. -/
theorem operations {tiers least : Nat} {left : Expr} (h : left.Whole σ c) :
    Yields c (Expr.Whole σ c) (operations σ nested tiers least left) := by
  induction tiers generalizing least left with
  | zero => exact .pure h
  | succ tiers ih =>
      exact .nesting (.repeatWhile (fun _ he => .operation hn (fun _ _ he => ih he) he) h)

/-! ### Bindings and conditionals -/

theorem declare {name : ExpandedName} :
    Yields c (fun v => v.name = name) (declare name) := by
  intro s v t hs h
  obtain ⟨rfl, rfl⟩ := declare_ok h
  exact ⟨rfl, hs⟩

include hn in
theorem clause : Yields c (fun clause =>
    (∃ lexical, Gave c (expandName σ lexical false) clause.bound.name) ∧
      clause.domain.Whole σ c) (clause σ nested) := by
  refine .after (.skip _) fun _ => ?_
  refine .after (.expect _) fun _ => ?_
  refine .value fun lexical => ?_
  refine .bind (.gave (.expandName _ _)) fun name hname => ?_
  refine .after .advance fun _ => ?_
  refine .after (.skip _) fun _ => ?_
  refine .bind hn.whole fun domain hdomain => ?_
  refine .bind .declare fun v hv => ?_
  refine .pure ⟨⟨lexical, ?_⟩, hdomain⟩
  rw [hv]
  exact hname

include hn in
/-- The clauses of a binding are nested around the action, each with the name that was read for it.
-/
theorem bindingExpression {kind : BindingKind} :
    Yields c (Expr.Whole σ c) (bindingExpression σ nested kind) := by
  have hparts : Yields c (fun parts =>
      (∀ clause ∈ parts.1, (∃ lexical, Gave c (expandName σ lexical false) clause.bound.name) ∧
        clause.domain.Whole σ c) ∧ parts.2.Whole σ c)
      (Parse.binding do
        Parse.advance σ
        let clauses ← Parse.commaSeparated σ (Parse.clause σ nested)
        Parse.skip σ (actionToken kind)
        return (clauses, ← nested)) := by
    refine .binding ?_
    refine .after .advance fun _ => ?_
    refine .bind (.commaSeparated (.clause hn)) fun clauses hclauses => ?_
    refine .after (.skip _) fun _ => ?_
    exact .bind hn.whole fun action haction => .pure ⟨hclauses.1, haction⟩
  refine .offset fun start => ?_
  refine .bind hparts fun parts hwhole => ?_
  exact .pure (Expr.whole_nestClauses [] hwhole.1 hwhole.2)

include hn in
theorem conditional : Yields c (Expr.Whole σ c) (conditional σ nested) := by
  refine .offset fun start => ?_
  refine .after .advance fun _ => ?_
  refine .bind (.expression hn) fun condition hcondition => ?_
  refine .after (.skip _) fun _ => ?_
  refine .after (.skip _) fun _ => ?_
  refine .bind hn.whole fun yes hyes => ?_
  refine .after (.skip _) fun _ => ?_
  refine .bind hn.whole fun no hno => ?_
  refine .pure (Expr.whole_node trivial (by simp) rfl ?_)
  simpa [Expr.children] using And.intro hcondition (And.intro hyes hno)

include hn in
/-- A single expression is whole when the expressions within it are. -/
theorem singleWith : Yields c (Expr.Whole σ c) (singleWith σ nested) := by
  refine .nesting ?_
  refine .descend fun _ => ?_
  refine .token fun token => ?_
  split
  · exact .bindingExpression hn
  · exact .bindingExpression hn
  · exact .bindingExpression hn
  · exact .conditional hn
  · exact .bind (.signedPath hn) fun operand hoperand => .operations hn hoperand

end Nested

end Yields

/-! ### Whole sources -/

/-- A single expression is whole at every level, by induction on the levels. -/
theorem singleWithin_yields (n : Nat) : Yields c (Expr.Whole σ c) (singleWithin σ n) := by
  induction n with
  | zero => exact .reject
  | succ n ih => exact .singleWith ⟨⟨n, rfl⟩, ih⟩

/-- What is read within another expression is no step against the order of the document. -/
theorem expression_forward {n : Nat} {s t : ParseState} {e : Expr}
    (h : expression σ (singleWithin σ n) s = .ok e t) : isReverseStep e = false := by
  have hwhole : Yields s.cursor (Expr.Whole σ s.cursor) (expression σ (singleWithin σ n)) :=
    .expression ⟨⟨n, rfl⟩, singleWithin_yields n⟩
  have hbare := (hwhole s e t .refl h).1.ordered
  cases e with
  | axisStep m axis test => exact hbare
  | _ => rfl

/-- All nodes of an expression that is read are as a reader makes them, and the expression is no
bare step against the order of the document. -/
theorem complete_assembled {terminator : Token} {s t : ParseState} {e : Expr}
    (h : complete σ terminator s = .ok e t) : e.Whole σ s.cursor := by
  have hcomplete : Yields s.cursor (Expr.Whole σ s.cursor) (complete σ terminator) := by
    refine .after .advance fun _ => ?_
    refine .bind (.expression ⟨⟨_, rfl⟩, singleWithin_yields _⟩) fun e he => ?_
    refine .token fun token => ?_
    split
    · exact .pure he
    · split
      · exact .reject
      · exact fun s a t _ h => absurd h (by
          obtain ⟨_, _, _, h⟩ := bind_ok.mp h
          exact absurd h reject_ne_ok)
  exact (hcomplete s e t .refl h).1

end XPath.Parse
