import XPath.Proofs.Excerpts
import XPath.Proofs.Offsets

/-!
# What is read has its offsets in order

Each production takes the offset of its node before or after it reads on, and what it reads before
and behind that token becomes the parts on the left and on the right. One lemma for each production
shows that its tree lies on the way that the reader has gone (`Locates`); a loop puts a node around
a tree that has been read before (`Extends`). From this follows the order of all offsets in the
trees of a source (`Parser.offsets_inOrder`).
-/

namespace XPath

namespace Parse

open Cursor

variable {α β : Type} {σ : Setting} {s t u : ParseState} {c d : Cursor} {nested : Parse Expr}
  {e : Expr}

/-- The part gives expressions whose nodes stand at tokens that it has read. -/
def Locates (p : Parse Expr) : Prop :=
  ∀ s e t, s.cursor.Solid → p s = .ok e t → s.cursor.Reaches t.cursor ∧
    e.Between s.cursor t.cursor

/-- At some tokens, the part makes of an expression that has been read from a cursor on another one
that has been read from there on. -/
def Extends (go : Token → Bool) (p : Expr → Parse Expr) : Prop :=
  ∀ c s a e t, c.Solid → c.Reaches s.cursor → a.Between c s.cursor → go s.cursor.token = true →
    p a s = .ok e t → s.cursor.Reaches t.cursor ∧ e.Between c t.cursor

/-- A repetition extends its value when each round does. -/
theorem Extends.repeatWhile {go : Token → Bool} {part : Expr → Parse Expr}
    (hpart : Extends go part) {a : Expr} (hc : c.Solid) (hs : c.Reaches s.cursor)
    (ha : a.Between c s.cursor) (h : repeatWhile go part a s = .ok e t) :
    s.cursor.Reaches t.cursor ∧ e.Between c t.cursor := by
  refine repeatWhile_ok (I := fun e t => s.cursor.Reaches t.cursor ∧ e.Between c t.cursor) ?_
    ⟨.refl, ha⟩ h
  intro a u b v ⟨hu, ha⟩ hgo hb
  obtain ⟨hv, hb⟩ := hpart c u a b v hc (hs.trans hu) ha hgo hb
  exact ⟨hu.trans hv, hb⟩

/-! ### Reading past a token -/

/-- The part reads past the current token before anything else. -/
def Passes (p : Parse α) : Prop :=
  ∀ s a t, p s = .ok a t → ∃ d, s.cursor.advance = (.ok (), d) ∧ d.Reaches t.cursor

namespace Passes

/-- A token that is read past at first has been read past in the end. -/
theorem bind {p : Parse α} {q : α → Parse β} (hp : Passes p) (hq : ∀ a, Scanning (q a)) :
    Passes (p >>= q) := by
  intro s b t h
  obtain ⟨a, u, hu, h⟩ := bind_ok.mp h
  obtain ⟨d, hd, hdu⟩ := hp s a u hu
  exact ⟨d, hd, hdu.trans (hq a u b t h).cursor⟩

theorem advance : Passes (advance σ) := by
  intro s a t h
  obtain ⟨d, hd, rfl⟩ := advance_ok h
  exact ⟨d, hd, .refl⟩

theorem reject {f : Fault} : Passes (reject σ f : Parse α) :=
  fun _ _ _ h => absurd h reject_ne_ok

theorem value {q : String → Parse β} (hq : ∀ text, Passes (q text)) : Passes (value >>= q) :=
  fun s b t h => hq s.cursor.value s b t h

/-- What reads nothing may come first. -/
theorem stateless {p : Parse α} {q : α → Parse β} (hp : Stateless p) (hq : ∀ a, Passes (q a)) :
    Passes (p >>= q) := by
  intro s b t h
  obtain ⟨a, u, hu, h⟩ := bind_ok.mp h
  rw [(hp s a u hu).1] at h
  exact hq a s b t h

theorem elementTest (kind : NodeKind) (bySchema : Bool) : Passes (elementTest σ kind bySchema) := by
  refine .bind .advance fun _ => ?_
  refine .bind .token fun k => ?_
  split
  · dsimp only
    split
    · exact .bind (.reject _) fun _ => .bind .advance fun _ => .pure _
    · exact .bind .advance fun _ => .pure _
  · exact .namedTest _ _

theorem emptyArguments : Passes (emptyArguments σ) := by
  refine .bind .advance fun _ => ?_
  refine .bind .token fun k => ?_
  split
  · exact .bind .advance fun _ => .pure _
  · exact .pure _

/-- A test without arguments, or with some. -/
theorem argumentless {p q : Parse α} (hp : Scanning p) (hq : Scanning q) :
    Passes (do if ← Parse.emptyArguments σ then p else q) := by
  refine .bind .emptyArguments fun b => ?_
  split
  · exact hp
  · exact hq

theorem documentTest : Passes (documentTest σ) := by
  refine .argumentless (.pure _) (.bind .value fun word => .bind .token fun k => ?_)
  split
  · exact .bind (.elementTest _ _) fun _ => .bind (.skip _) fun _ => .pure _
  · exact .reject _

theorem namespaceTest : Passes (namespaceTest σ) := by
  refine .argumentless ?_ (.reject _)
  split
  · exact .pure _
  · exact .reject _

/-- A test that starts with a keyword reads past it. -/
theorem kindTest : Passes (kindTest σ) := by
  unfold Parse.kindTest
  refine .value fun word => ?_
  split
  · exact .argumentless (.pure _) (.reject _)
  · exact .argumentless (.pure _) (.reject _)
  · exact .argumentless (.pure _) (.reject _)
  · exact .namespaceTest
  · exact .documentTest
  · refine .argumentless (.pure _) ?_
    refine .bind .instructionTarget fun target => ?_
    refine .bind .advance fun _ => ?_
    exact .bind (.skip _) fun _ => .pure _
  · exact .elementTest _ _
  · exact .elementTest _ _
  · exact .elementTest _ _
  · exact .elementTest _ _
  · exact .bind (.bind .emptyArguments fun _ => .pure _) fun _ => .reject _
  · exact .reject

theorem typeOperation {op : TypeOperator} {start : Nat} {operand : Expr} :
    Passes (typeOperation σ op start operand) := by
  have hcast : ∀ castable type, Scanning (cast σ start castable operand type) := by
    intro castable type s e t h
    obtain ⟨-, rfl⟩ := cast_ok h
    exact .refl s
  refine .bind .advance fun _ => ?_
  cases op with
  | instanceOf => exact .bind .sequenceType fun _ => .pure _
  | treatAs => exact .bind .sequenceType fun _ => .pure _
  | castableAs => exact .bind .singleType fun _ => hcast _ _
  | castAs => exact .bind .singleType fun _ => hcast _ _

/-- A test takes up some text. -/
theorem nodeTest {kind : NodeKind} {test : NodeTest} (hs : s.cursor.Solid)
    (h : nodeTest σ kind s = .ok test t) : s.cursor.offset < s.cursor.position ∧
      ∃ d, s.cursor.advance = (.ok (), d) ∧ d.Reaches t.cursor := by
  unfold Parse.nodeTest at h
  rw [token_bind] at h
  cases htoken : s.cursor.token <;> rw [htoken] at h
  case name =>
    refine ⟨hs.covers htoken (by decide), value (fun lexical => ?_) s test t h⟩
    refine .stateless (.expandName lexical _) fun name => ?_
    exact .bind .advance fun _ => .pure _
  case namespaceWildcard =>
    refine ⟨hs.covers htoken (by decide), value (fun qualifier => ?_) s test t h⟩
    refine .stateless (.declaredNamespace qualifier) fun uri => ?_
    exact .bind .advance fun _ => .pure _
  case localWildcard =>
    refine ⟨hs.covers htoken (by decide), bind advance (fun _ => ?_) s test t h⟩
    refine .bind .value fun localName => ?_
    refine .bind (.expect _) fun _ => ?_
    dsimp only
    split
    · exact .bind (.reject _) fun _ => .bind .advance fun _ => .pure _
    · exact .bind .advance fun _ => .pure _
  case star => exact ⟨hs.covers htoken (by decide), bind advance (fun _ => .pure _) s test t h⟩
  case nodeKind => exact ⟨hs.covers htoken (by decide), kindTest s test t h⟩
  all_goals exact absurd h reject_ne_ok

end Passes

/-! ### Leaves -/

/-- A token that is an expression by itself stands at its own offset. -/
theorem leaf_between {make : Nat → Expr} (hs : s.cursor.offset < s.cursor.position)
    (hmake : ∀ n, (make n).offset = n ∧ (make n).children = [])
    (h : leaf σ make s = .ok e t) : s.cursor.Reaches t.cursor ∧ e.Between s.cursor t.cursor := by
  obtain ⟨hu, rfl⟩ := leaf_ok h
  obtain ⟨d, hd, rfl⟩ := advance_ok hu
  obtain ⟨hoffset, hparts⟩ := hmake s.cursor.offset
  refine ⟨.advance .refl hd, .leaf ?_ hparts⟩
  rw [hoffset]
  exact tokenAt_of_advance .refl hs hd .refl

theorem numericLiteral_between (hs : s.cursor.offset < s.cursor.position)
    (h : numericLiteral σ s = .ok e t) :
    s.cursor.Reaches t.cursor ∧ e.Between s.cursor t.cursor := by
  obtain ⟨number, -, h⟩ := numericLiteral_ok h
  exact leaf_between hs (fun _ => ⟨rfl, rfl⟩) h

/-- A reference stands at the mark before the name. -/
theorem variableReference_between (hs : s.cursor.offset < s.cursor.position)
    (h : variableReference σ s = .ok e t) :
    s.cursor.Reaches t.cursor ∧ e.Between s.cursor t.cursor := by
  obtain ⟨u, v, name, hu, -, hv, hname, href⟩ := variableReference_ok h
  obtain ⟨d, hd, rfl⟩ := advance_ok hu
  have hdt : d.Reaches t.cursor :=
    (Scanning.advance _ _ _ hv).cursor.trans (Scanning.expandName _ _ _ _ _ hname).cursor
  refine ⟨(Reaches.advance .refl hd).trans hdt, ?_⟩
  -- whatever the name means, the reference stands at its mark
  rcases href with ⟨_, -, rfl⟩ | ⟨_, -, -, rfl⟩ <;>
    exact .leaf (tokenAt_of_advance .refl hs hd hdt) rfl

theorem bareStep_between {startsPattern : Bool} (hs : s.cursor.Solid)
    (h : bareStep σ startsPattern s = .ok e t) :
    s.cursor.Reaches t.cursor ∧ e.Between s.cursor t.cursor := by
  obtain ⟨test, hu, rfl⟩ := bareStep_ok h
  obtain ⟨hcovers, d, hd, hdu⟩ := Passes.nodeTest hs hu
  exact ⟨(Reaches.advance .refl hd).trans hdu,
    .leaf (tokenAt_of_advance .refl hcovers hd hdu) rfl⟩

/-- A test behind the mark or the name of an axis. -/
theorem axisTest_between {axis : Axis} {kind : NodeKind} {test : NodeTest}
    (hs : s.cursor.offset < s.cursor.position) (hu : advance σ s = .ok () u)
    (h : nodeTest σ kind u = .ok test t) : s.cursor.Reaches t.cursor ∧
      (Expr.axisStep s.cursor.offset axis test).Between s.cursor t.cursor := by
  obtain ⟨d, hd, rfl⟩ := advance_ok hu
  have hdt : d.Reaches t.cursor := (Scanning.nodeTest kind _ test t h).cursor
  exact ⟨(Reaches.advance .refl hd).trans hdt, .leaf (tokenAt_of_advance .refl hs hd hdt) rfl⟩

theorem attributeStep_between (hs : s.cursor.offset < s.cursor.position)
    (h : attributeStep σ s = .ok e t) :
    s.cursor.Reaches t.cursor ∧ e.Between s.cursor t.cursor := by
  obtain ⟨u, test, hu, htest, rfl⟩ := attributeStep_ok h
  exact axisTest_between hs hu htest

theorem axisStep_between (hs : s.cursor.offset < s.cursor.position)
    (h : axisStep σ s = .ok e t) : s.cursor.Reaches t.cursor ∧ e.Between s.cursor t.cursor := by
  obtain ⟨axis, u, test, -, hu, htest, rfl⟩ := axisStep_ok h
  exact axisTest_between hs hu htest

/-! ### Lists -/

/-- Expressions that have been read one after another, on the way from one cursor to another. -/
structure Listed (c d : Cursor) (es : List Expr) : Prop where
  reaches : c.Reaches d
  between : ∀ e ∈ es, e.Between c d
  ordered : es.Pairwise Expr.Before

theorem Listed.before {b : Cursor} {es : List Expr} (h : Listed c d es) (hc : c.Solid)
    (hb : b.Reaches c) : Listed b d es :=
  ⟨hb.trans h.reaches, fun e he => (h.between e he).widen (h.reaches.solid hc) hb .refl, h.ordered⟩

theorem Listed.later {d' : Cursor} {es : List Expr} (h : Listed c d es) (hc : c.Solid)
    (hd : d.Reaches d') : Listed c d' es :=
  ⟨h.reaches.trans hd, fun e he => (h.between e he).later (h.reaches.solid hc) hd, h.ordered⟩

/-- Expressions with commas between them stand in their order. -/
theorem commaSeparated_listed (hn : Locates nested) (hs : s.cursor.Solid) {es : List Expr}
    (h : commaSeparated σ nested s = .ok es t) : Listed s.cursor t.cursor es ∧ es ≠ [] := by
  refine commaSeparated_ok (I := fun es t => Listed s.cursor t.cursor es) ?_ ?_ h
  · intro a u hu
    obtain ⟨hreaches, ha⟩ := hn s a u hs hu
    exact ⟨hreaches, by simpa using ha, List.pairwise_singleton _ _⟩
  · intro as u v w a b hI hv hw
    obtain ⟨d, hd, rfl⟩ := advance_ok hv
    have hu : u.cursor.Solid := hI.reaches.solid hs
    have hud : u.cursor.Reaches d := .advance .refl hd
    obtain ⟨hdw, ha⟩ := hn _ a w (hud.solid hu) hw
    refine ⟨hI.reaches.trans (hud.trans hdw), fun e he => ?_, ?_⟩
    · rcases List.mem_append.mp he with he | he
      · exact (hI.between e he).later hu (hud.trans hdw)
      · rw [List.mem_singleton.mp he]
        exact ha.widen (hdw.solid (hud.solid hu)) (hI.reaches.trans hud) .refl
    · rw [List.pairwise_append]
      refine ⟨hI.ordered, List.pairwise_singleton _ _, fun e he a' ha' => ?_⟩
      rw [List.mem_singleton.mp ha']
      exact (hI.between e he).before ha (hud.solid hu) (hud.offset_le hu)

/-- A row stands where its first member starts. -/
theorem expression_locates (hn : Locates nested) : Locates (expression σ nested) := by
  intro s e t hs h
  obtain ⟨items, hitems, he⟩ := expression_ok h
  obtain ⟨hes, hne⟩ := commaSeparated_listed hn hs hitems
  refine ⟨hes.reaches, ?_⟩
  rcases he with rfl | ⟨rfl, -⟩
  · exact hes.between e List.mem_cons_self
  · obtain ⟨first, others, rfl⟩ := List.exists_cons_of_ne_nil hne
    have hfirst := hes.between first List.mem_cons_self
    have hoffset : first.offset ∈ first.offsets := Expr.mem_offsets.mpr (.inl rfl)
    refine .node ⟨⟨s.cursor, .refl, hes.reaches, rfl⟩, ?_⟩ hes.ordered hes.between
    exact Nat.lt_of_le_of_lt (hfirst.le hs _ hoffset) (hfirst.lt _ hoffset)

theorem arguments_listed (hn : Locates nested) (hs : s.cursor.Solid) {args : List Expr}
    (h : arguments σ nested s = .ok args t) : Listed s.cursor t.cursor args := by
  rcases arguments_ok h with ⟨rfl, ht⟩ | ⟨u, hargs, ht⟩
  · exact ⟨(Scanning.advance _ _ _ ht).cursor, by simp, .nil⟩
  · exact (commaSeparated_listed hn hs hargs).1.later hs (Scanning.skip _ _ _ _ ht).cursor

/-! ### Primary expressions -/

/-- A call stands at the name of the function, before its arguments. -/
theorem functionCall_between (hn : Locates nested)
    (hcovers : s.cursor.offset < s.cursor.position) (h : functionCall σ nested s = .ok e t) :
    s.cursor.Reaches t.cursor ∧ e.Between s.cursor t.cursor := by
  obtain ⟨u, args, hu, hargs, hcall⟩ := functionCall_ok h
  obtain ⟨d, hd, rfl⟩ := advance_ok hu
  have hsd : s.cursor.Reaches d := .advance .refl hd
  have hargs : Listed d t.cursor args := arguments_listed hn (solid_of_advance hd) hargs
  have htoken : TokenAt s.cursor t.cursor s.cursor.offset :=
    tokenAt_of_advance .refl hcovers hd hargs.reaches
  refine ⟨hsd.trans hargs.reaches, ?_⟩
  rcases hcall with ⟨function, rfl⟩ | ⟨value, rfl⟩ | ⟨err, rfl⟩
  · refine .node htoken ⟨fun arg harg m hm => ?_, hargs.ordered⟩
      (hargs.before (solid_of_advance hd) hsd).between
    have := (hargs.between arg harg).le (solid_of_advance hd) m hm
    have := position_le_offset_of_advance hd
    omega
  · exact .leaf htoken rfl
  · exact .leaf htoken rfl

theorem parenthesized_between (hn : Locates nested) (hs : s.cursor.offset < s.cursor.position)
    (h : parenthesized σ nested s = .ok e t) :
    s.cursor.Reaches t.cursor ∧ e.Between s.cursor t.cursor := by
  obtain ⟨u, hu, hrest⟩ := parenthesized_ok h
  obtain ⟨d, hd, rfl⟩ := advance_ok hu
  have hsd : s.cursor.Reaches d := .advance .refl hd
  rcases hrest with ⟨ht, rfl⟩ | ⟨v, hv, ht⟩
  · have hdt : d.Reaches t.cursor := (Scanning.advance _ _ _ ht).cursor
    exact ⟨hsd.trans hdt, .leaf (tokenAt_of_advance .refl hs hd hdt) rfl⟩
  · obtain ⟨hdv, he⟩ := expression_locates hn _ _ _ (solid_of_advance hd) hv
    have hvt : v.cursor.Reaches t.cursor := (Scanning.skip _ _ _ _ ht).cursor
    exact ⟨hsd.trans (hdv.trans hvt), he.widen (hdv.solid (solid_of_advance hd)) hsd hvt⟩

/-- What a path starts with has all its offsets on the way through it. -/
theorem primary_locates (hn : Locates nested) (startsPattern : Bool) :
    Locates (primary σ nested startsPattern) := by
  intro s e t hs h
  unfold primary at h
  rw [token_bind] at h
  have hcovers := fun {k : Token} => hs.covers (k := k)
  cases htoken : s.cursor.token <;> rw [htoken] at h
  case dollar => exact variableReference_between (hcovers htoken (by decide)) h
  case leftParen => exact parenthesized_between hn (hcovers htoken (by decide)) h
  case stringLiteral =>
    have hmake := fun n => (⟨rfl, rfl⟩ : (Expr.literal n (.string s.cursor.value)).offset = n ∧
      (Expr.literal n (.string s.cursor.value)).children = [])
    exact leaf_between (hcovers htoken (by decide)) hmake h
  case number => exact numericLiteral_between (hcovers htoken (by decide)) h
  case function => exact functionCall_between hn (hcovers htoken (by decide)) h
  case dot => exact leaf_between (hcovers htoken (by decide)) (fun _ => ⟨rfl, rfl⟩) h
  case dotDot => exact leaf_between (hcovers htoken (by decide)) (fun _ => ⟨rfl, rfl⟩) h
  case nodeKind | name | namespaceWildcard | localWildcard | star => exact bareStep_between hs h
  case atSign => exact attributeStep_between (hcovers htoken (by decide)) h
  case axis => exact axisStep_between (hcovers htoken (by decide)) h
  all_goals
    obtain ⟨_, _, -, hfail⟩ := bind_ok.mp h
    exact absurd hfail reject_ne_ok

/-! ### Paths -/

/-- A filter stands at its bracket, behind the base and before the predicate. -/
theorem predicate_extends (hn : Locates nested) :
    Extends (· = .leftBracket) (predicate σ nested) := by
  intro c s base e t hc hs hbase hgo h
  have hsolid := hs.solid hc
  have hcovers := hsolid.covers (of_decide_eq_true hgo) (by decide)
  obtain ⟨v, condition, w, -, hv, hw, hx, rfl⟩ := predicate_ok h
  obtain ⟨d, hd, rfl⟩ := advance_ok hv
  replace hd : s.cursor.advance = (.ok (), d) := hd
  have hsd : s.cursor.Reaches d := .advance .refl hd
  have hd' := solid_of_advance hd
  obtain ⟨hdw, hcondition⟩ := expression_locates hn _ _ _ hd' hw
  have hwx : w.cursor.Reaches t.cursor := (Scanning.skip _ _ _ _ hx).cursor
  refine ⟨hsd.trans (hdw.trans hwx),
    .node (tokenAt_of_advance hs hcovers hd (hdw.trans hwx)) ⟨hbase.lt, fun m hm => ?_⟩ ?_⟩
  · have : d.offset ≤ m := hcondition.le hd' m hm
    have := position_le_offset_of_advance hd
    omega
  · have hbase := hbase.later hsolid (hsd.trans (hdw.trans hwx))
    have hcondition := hcondition.widen (hdw.solid hd') (hs.trans hsd) hwx
    simpa [Expr.children] using And.intro hbase hcondition

/-- A step has its predicates behind it, in their order. -/
theorem step_locates (hn : Locates nested) (startsPattern : Bool) :
    Locates (step σ nested startsPattern) := by
  intro s e t hs h
  obtain ⟨base, v, filtered, w, hv, hw, rfl, rfl⟩ := step_ok h
  obtain ⟨hsv, hbase⟩ := primary_locates hn _ _ _ _ hs hv
  obtain ⟨hvw, hfiltered⟩ := (predicate_extends hn).repeatWhile hs hsv hbase hw
  refine ⟨hsv.trans hvw, ?_⟩
  split
  · refine .node (hfiltered.token _ (Expr.mem_offsets.mpr (.inl rfl))) trivial ?_
    simpa [Expr.children] using hfiltered
  · exact hfiltered

theorem between_anyDescendant {n : Nat} (h : TokenAt c d n) :
    (anyDescendant n).Between c d :=
  .leaf h rfl

theorem offsets_anyDescendant (n : Nat) : (anyDescendant n).offsets = [n] :=
  rfl

/-- A separator, with all that has been read before it and the step behind it. -/
theorem between_joinStep {separator : Token} {n : Nat} {before next : Expr}
    (htoken : TokenAt c d n) (hbefore : before.Between c d) (hle : ∀ m ∈ before.offsets, m ≤ n)
    (hnext : next.Between c d) (hge : ∀ m ∈ next.offsets, n ≤ m) :
    (joinStep n separator before next).Between c d := by
  unfold joinStep
  split
  · have hany : ∀ m ∈ (anyDescendant n).offsets, m = n := by simp [offsets_anyDescendant]
    refine .path htoken hbefore (.path htoken (between_anyDescendant htoken) hnext
      (fun m hm => Nat.le_of_eq (hany m hm)) hge) hle fun m hm => ?_
    rw [Expr.offsets_path, List.mem_cons, List.mem_append] at hm
    rcases hm with hm | hm | hm
    · exact Nat.le_of_eq hm.symm
    · exact Nat.le_of_eq (hany m hm).symm
    · exact hge m hm
  · exact .path htoken hbefore hnext hle hge

theorem covers_of_isSeparator (hs : s.cursor.Solid) (h : isSeparator s.cursor.token = true) :
    s.cursor.offset < s.cursor.position := by
  unfold isSeparator at h
  rw [Bool.or_eq_true, decide_eq_true_eq, decide_eq_true_eq] at h
  rcases h with h | h
  · exact hs.covers h (by decide)
  · exact hs.covers h (by decide)

/-- The step behind a separator that has been read. -/
theorem joinStep_extends {separator : Token} {before next : Expr} (hc : c.Solid)
    (hs : c.Reaches s.cursor) (hcovers : s.cursor.offset < s.cursor.position)
    (hbefore : before.Between c s.cursor) (hd : s.cursor.advance = (.ok (), d))
    (hdt : d.Reaches t.cursor) (hnext : next.Between d t.cursor) :
    s.cursor.Reaches t.cursor ∧
      (joinStep s.cursor.offset separator before next).Between c t.cursor := by
  have hd' := solid_of_advance hd
  have hsd : s.cursor.Reaches d := .advance .refl hd
  refine ⟨hsd.trans hdt, between_joinStep (tokenAt_of_advance hs hcovers hd hdt)
    (hbefore.later (hs.solid hc) (hsd.trans hdt)) (fun m hm => Nat.le_of_lt (hbefore.lt m hm))
    (hnext.widen (hdt.solid hd') (hs.trans hsd) .refl) fun m hm => ?_⟩
  exact Nat.le_trans (hsd.offset_le (hs.solid hc)) (hnext.le hd' m hm)

theorem furtherStep_extends (hn : Locates nested) :
    Extends isSeparator (furtherStep σ nested) := by
  intro c s before e t hc hs hbefore hgo h
  obtain ⟨v, next, -, hv, hnext, rfl⟩ := furtherStep_ok h
  obtain ⟨d, hd, rfl⟩ := advance_ok hv
  obtain ⟨hdt, hnext⟩ := step_locates hn false _ _ _ (solid_of_advance hd) hnext
  exact joinStep_extends hc hs (covers_of_isSeparator (hs.solid hc) hgo) hbefore hd hdt hnext

theorem furtherStepFromRoot_extends (hn : Locates nested) :
    Extends isSeparator (furtherStepFromRoot σ nested) := by
  intro c s before e t hc hs hbefore hgo h
  obtain ⟨v, next, hv, -, hnext, rfl⟩ := furtherStepFromRoot_ok h
  obtain ⟨d, hd, rfl⟩ := advance_ok hv
  obtain ⟨hdt, hnext⟩ := step_locates hn false _ _ _ (solid_of_advance hd) hnext
  exact joinStep_extends hc hs (covers_of_isSeparator (hs.solid hc) hgo) hbefore hd hdt hnext

theorem relativePath_locates (hn : Locates nested) : Locates (relativePath σ nested) := by
  intro s e t hs h
  obtain ⟨u, hu, rfl⟩ := nesting_ok h
  obtain ⟨first, v, hv, h⟩ := bind_ok.mp hu
  obtain ⟨hsv, hfirst⟩ := step_locates hn _ _ _ _ hs hv
  obtain ⟨hvu, he⟩ := (furtherStep_extends hn).repeatWhile hs hsv hfirst h
  exact ⟨hsv.trans hvu, he⟩

/-- A path behind a slash, from an origin at that slash. -/
theorem pathFrom_between (hn : Locates nested) {n : Nat} {origin : Expr} (hc : c.Solid)
    (hs : c.Reaches s.cursor) (htoken : TokenAt c s.cursor n)
    (horigin : origin.Between c s.cursor) (hle : ∀ m ∈ origin.offsets, m ≤ n)
    (h : pathFrom σ nested n origin s = .ok e t) :
    s.cursor.Reaches t.cursor ∧ e.Between c t.cursor := by
  have hsolid := hs.solid hc
  obtain ⟨u, hu, rfl⟩ := nesting_ok h
  obtain ⟨_, v, hv, h⟩ := bind_ok.mp hu
  obtain ⟨-, rfl⟩ := descend_ok hv
  obtain ⟨first, w, hw, h⟩ := bind_ok.mp h
  obtain ⟨hsw, hfirst⟩ := step_locates hn false { s with depth := s.depth + 1 } first w hsolid hw
  have hpath : (Expr.path n origin first).Between c w.cursor := by
    refine .path (htoken.widen hsolid .refl hsw) (horigin.later hsolid hsw)
      (hfirst.widen (hsw.solid hsolid) hs .refl) hle fun m hm => ?_
    have : s.cursor.offset ≤ m := hfirst.le hsolid m hm
    have := htoken.lt
    omega
  obtain ⟨hwu, he⟩ := (furtherStepFromRoot_extends hn).repeatWhile hc (hs.trans hsw) hpath h
  exact ⟨hsw.trans hwu, he⟩

theorem rootedPath_between (hn : Locates nested) (hs : s.cursor.Solid)
    (hcovers : s.cursor.offset < s.cursor.position) (h : rootedPath σ nested s = .ok e t) :
    s.cursor.Reaches t.cursor ∧ e.Between s.cursor t.cursor := by
  obtain ⟨v, hv, hrest⟩ := rootedPath_ok h
  obtain ⟨d, hd, rfl⟩ := advance_ok hv
  have hsd : s.cursor.Reaches d := .advance .refl hd
  have htoken : TokenAt s.cursor d s.cursor.offset := tokenAt_of_advance .refl hcovers hd .refl
  have hroot : (Expr.root s.cursor.offset).Between s.cursor d := .leaf htoken rfl
  rcases hrest with hpath | ⟨rfl, rfl⟩
  · obtain ⟨hdt, he⟩ := pathFrom_between hn hs hsd htoken hroot
      (by simp [Expr.offsets_eq, Expr.children, Expr.offset]) hpath
    exact ⟨hsd.trans hdt, he⟩
  · exact ⟨hsd, hroot⟩

theorem descendantPath_between (hn : Locates nested) (hs : s.cursor.Solid)
    (hcovers : s.cursor.offset < s.cursor.position) (h : descendantPath σ nested s = .ok e t) :
    s.cursor.Reaches t.cursor ∧ e.Between s.cursor t.cursor := by
  obtain ⟨v, hv, h⟩ := descendantPath_ok h
  obtain ⟨d, hd, rfl⟩ := advance_ok hv
  have hsd : s.cursor.Reaches d := .advance .refl hd
  have htoken : TokenAt s.cursor d s.cursor.offset := tokenAt_of_advance .refl hcovers hd .refl
  have horigin : (Expr.path s.cursor.offset (.root s.cursor.offset)
      (anyDescendant s.cursor.offset)).Between s.cursor d :=
    .path htoken (.leaf htoken rfl) (between_anyDescendant htoken)
      (by simp [Expr.offsets_eq, Expr.children, Expr.offset]) (by simp [offsets_anyDescendant])
  obtain ⟨hdt, he⟩ := pathFrom_between hn hs hsd htoken horigin
    (by simp [Expr.offsets_eq, Expr.children, Expr.offset, anyDescendant]) h
  exact ⟨hsd.trans hdt, he⟩

/-- A path has its separators between the steps that they join. -/
theorem pathExpression_locates (hn : Locates nested) : Locates (pathExpression σ nested) := by
  intro s e t hs h
  unfold pathExpression at h
  rw [token_bind] at h
  cases htoken : s.cursor.token <;> rw [htoken] at h
  case slash => exact rootedPath_between hn hs (hs.covers htoken (by decide)) h
  case slashSlash => exact descendantPath_between hn hs (hs.covers htoken (by decide)) h
  all_goals exact relativePath_locates hn s e t hs h

/-! ### Operations -/

/-- The signs before an operand, the last one first. -/
structure Signed (c d : Cursor) (signs : List (Sign × Nat)) : Prop where
  reaches : c.Reaches d
  token : ∀ sign ∈ signs, TokenAt c d sign.2
  ordered : signs.Pairwise fun later earlier => earlier.2 < later.2

/-- The signs before an operand stand at their own tokens, one behind the other. -/
theorem signs_signed (hs : s.cursor.Solid) {signs : List (Sign × Nat)}
    (h : repeatWhile (fun t => (sign? t).isSome) (sign σ) [] s = .ok signs t) :
    Signed s.cursor t.cursor signs := by
  refine repeatWhile_ok (I := fun signs t => Signed s.cursor t.cursor signs) ?_
    ⟨.refl, by simp, .nil⟩ h
  intro signs u signs' v hI _ hround
  have hu := hI.reaches.solid hs
  rcases sign_ok hround with ⟨rfl, rfl⟩ | ⟨kind, hsign, -, hv, rfl⟩
  · exact hI
  · obtain ⟨d, hd, rfl⟩ := advance_ok hv
    have hud : u.cursor.Reaches d := .advance .refl hd
    have hcovers : u.cursor.offset < u.cursor.position := by
      refine hu.lt ?_ ?_
      · intro htoken
        simp [htoken, sign?] at hsign
      · intro htoken
        simp [htoken, sign?] at hsign
    refine ⟨hI.reaches.trans hud, ?_, ?_⟩
    · rw [List.forall_mem_cons]
      exact ⟨tokenAt_of_advance hI.reaches hcovers hd .refl,
        fun sign hsign => (hI.token sign hsign).widen hu .refl hud⟩
    · exact List.pairwise_cons.mpr ⟨fun sign hsign => (hI.token sign hsign).lt, hI.ordered⟩

theorem between_applySigns {signs : List (Sign × Nat)} {operand : Expr}
    (hsigns : ∀ sign ∈ signs, TokenAt c d sign.2)
    (hordered : signs.Pairwise fun later earlier => earlier.2 < later.2)
    (h : operand.Between c d) (hlt : ∀ sign ∈ signs, ∀ m ∈ operand.offsets, sign.2 < m) :
    (applySigns operand signs).Between c d := by
  induction signs generalizing operand with
  | nil => exact h
  | cons sign signs ih =>
      obtain ⟨k, n⟩ := sign
      show (applySigns (.unary n k operand) signs).Between c d
      rw [List.forall_mem_cons] at hsigns hlt
      obtain ⟨hfirst, hordered⟩ := List.pairwise_cons.mp hordered
      refine ih hsigns.2 hordered ?_ fun earlier hearlier m hm => ?_
      · refine .node hsigns.1 hlt.1 ?_
        simpa [Expr.children] using h
      · rcases Expr.mem_offsets.mp hm with rfl | ⟨part, hpart, hmem⟩
        · exact hfirst earlier hearlier
        · rw [List.mem_singleton.mp hpart] at hmem
          exact hlt.2 earlier hearlier m hmem

/-- An operand stands behind all of its signs. -/
theorem signedPath_locates (hn : Locates nested) : Locates (signedPath σ nested) := by
  intro s e t hs h
  obtain ⟨signs, v, operand, w, hv, hw, rfl, rfl⟩ := signedPath_ok h
  have hsigns := signs_signed hs hv
  have hv' := hsigns.reaches.solid hs
  obtain ⟨hvw, hoperand⟩ := pathExpression_locates hn _ _ _ hv' hw
  refine ⟨hsigns.reaches.trans hvw, between_applySigns
    (fun sign hsign => (hsigns.token sign hsign).widen hv' .refl hvw) hsigns.ordered
    (hoperand.widen (hvw.solid hv') hsigns.reaches .refl) fun sign hsign m hm => ?_⟩
  have := (hsigns.token sign hsign).lt
  have := hoperand.le hv' m hm
  omega

theorem rightOperand_extends {tighter : Nat → Expr → Parse Expr}
    (htighter : ∀ k, Extends (fun _ => true) (tighter k)) (least : Nat) :
    Extends (fun _ => true) (rightOperand tighter least) := by
  intro c s a e t hc hs ha _ h
  refine rightOperand_ok (I := fun e t => s.cursor.Reaches t.cursor ∧ e.Between c t.cursor) ?_
    ⟨.refl, ha⟩ h
  intro k a u b v ⟨hu, ha⟩ hround
  obtain ⟨hv, hb⟩ := htighter k c u a b v hc (hs.trans hu) ha rfl hround
  exact ⟨hu.trans hv, hb⟩

/-- An operator stands between its operands. -/
theorem operation_extends (hn : Locates nested) {tighter : Nat → Expr → Parse Expr}
    (htighter : ∀ least, Extends (fun _ => true) (tighter least)) {go : Token → Bool} :
    Extends go (operation σ nested tighter) := by
  intro c s left e t hc hs hleft _ h
  have hsolid := hs.solid hc
  rcases operation_ok h with ⟨op, u, operand, v, right, htoken, -, hu, hv, hright, rfl⟩ |
    ⟨op, htoken, -, htyped⟩ | ⟨rfl, rfl⟩
  · have hcovers : s.cursor.offset < s.cursor.position := hsolid.covers htoken (by simp)
    obtain ⟨d, hd, rfl⟩ := advance_ok hu
    replace hd : s.cursor.advance = (.ok (), d) := hd
    have hd' := solid_of_advance hd
    have hsd : s.cursor.Reaches d := .advance .refl hd
    obtain ⟨hdv, hoperand⟩ := signedPath_locates hn _ operand v hd' hv
    obtain ⟨hvt, hright⟩ :=
      rightOperand_extends htighter _ d v operand right t hd' hdv hoperand rfl hright
    have hdt := hdv.trans hvt
    refine ⟨hsd.trans hdt,
      .node (tokenAt_of_advance hs hcovers hd hdt) ⟨hleft.lt, fun m hm => ?_⟩ ?_⟩
    · have : d.offset ≤ m := hright.le hd' m hm
      have := position_le_offset_of_advance hd
      omega
    · have hleft := hleft.later hsolid (hsd.trans hdt)
      have hright := hright.widen (hdt.solid hd') (hs.trans hsd) .refl
      simpa [Expr.children] using And.intro hleft hright
  · obtain ⟨d, hd, hdt⟩ := Passes.typeOperation _ _ _ htyped
    replace hd : s.cursor.advance = (.ok (), d) := hd
    have hsd : s.cursor.Reaches d := .advance .refl hd
    have hat : TokenAt c t.cursor s.cursor.offset :=
      tokenAt_of_advance hs (hsolid.covers htoken (by simp)) hd hdt
    refine ⟨hsd.trans hdt, ?_⟩
    obtain ⟨⟨op, rfl⟩ | ⟨value, rfl⟩, -⟩ := typeOperation_ok htyped
    · refine .node hat hleft.lt ?_
      have hleft := hleft.later hsolid (hsd.trans hdt)
      simpa [Expr.children] using hleft
    · exact .leaf hat rfl
  · exact ⟨.refl, hleft⟩

/-- Operators extend their left operand, by induction on the tiers. -/
theorem operations_extends (hn : Locates nested) (tiers : Nat) (least : Nat) :
    Extends (fun _ => true) (operations σ nested tiers least) := by
  induction tiers generalizing least with
  | zero =>
      intro c s a e t _ _ ha _ h
      obtain ⟨rfl, rfl⟩ := pure_ok.mp h
      exact ⟨.refl, ha⟩
  | succ tiers ih =>
      intro c s a e t hc hs ha _ h
      obtain ⟨u, hu, rfl⟩ := nesting_ok h
      exact Extends.repeatWhile (t := u) (operation_extends hn ih) hc hs ha hu

/-! ### Bindings and conditionals -/

/-- What is put together of clauses stands at the word that they start with, and at what has been
read for them. -/
theorem between_nestClauses {start : Nat} {kind : BindingKind} {known : List RangeVariable}
    {cs : List Clause} {action : Expr} (hstart : TokenAt c d start)
    (hcs : ∀ clause ∈ cs, clause.domain.Between c d) (haction : action.Between c d) :
    (nestClauses start kind known cs action).Between c d := by
  have htyped : ∀ (known : List RangeVariable) (e : Expr), e.Between c d →
      (withTypes known e).Between c d := by
    intro known e he
    rw [Expr.withTypes_eq_mapRange]
    exact he.mapRange _
  induction cs generalizing known with
  | nil => exact htyped known action haction
  | cons clause cs ih =>
      rw [List.forall_mem_cons] at hcs
      rw [nestClauses]
      refine .node hstart trivial ?_
      have hdomain := htyped known clause.domain hcs.1
      have hrest := @ih (known ++ [{ clause.bound with
        type := ⟨(withTypes known clause.domain).itemType, .exactlyOne⟩ }]) hcs.2
      simpa [Expr.children] using And.intro hdomain hrest

theorem clause_between (hn : Locates nested) (hs : s.cursor.Solid) {cl : Clause}
    (h : clause σ nested s = .ok cl t) :
    s.cursor.Reaches t.cursor ∧ cl.domain.Between s.cursor t.cursor := by
  obtain ⟨u, name, domain, v, hread, hv, rfl, rfl⟩ := clause_ok h
  have hsolid := hread.cursor.solid hs
  obtain ⟨hreaches, hdomain⟩ := hn u domain v hsolid hv
  exact ⟨hread.cursor.trans hreaches, hdomain.widen (hreaches.solid hsolid) hread.cursor .refl⟩

/-- A binding stands at its first word, and its clauses with it. -/
theorem bindingExpression_between (hn : Locates nested) {kind : BindingKind}
    (hcovers : s.cursor.offset < s.cursor.position)
    (h : bindingExpression σ nested kind s = .ok e t) :
    s.cursor.Reaches t.cursor ∧ e.Between s.cursor t.cursor := by
  obtain ⟨w, clauses, x, y, action, z, hw, hx, hy, hz, rfl, rfl⟩ := bindingExpression_ok h
  obtain ⟨d, hd, rfl⟩ := advance_ok hw
  have hd' := solid_of_advance hd
  have hsd : s.cursor.Reaches d := .advance .refl hd
  have hclauses : d.Reaches x.cursor ∧ ∀ cl ∈ clauses, cl.domain.Between d x.cursor := by
    refine (commaSeparated_ok (I := fun cs x => d.Reaches x.cursor ∧
      ∀ cl ∈ cs, cl.domain.Between d x.cursor) ?_ ?_ hx).1
    · intro cl x hcl
      obtain ⟨hreaches, hdomain⟩ := clause_between hn hd' hcl
      exact ⟨hreaches, by simpa using hdomain⟩
    · intro cs x x' x'' cl b hI hb hcl
      obtain ⟨hdx, hcs⟩ := hI
      have hx := hdx.solid hd'
      have hxx' : x.cursor.Reaches x'.cursor := (Scanning.advance _ _ _ hb).cursor
      obtain ⟨hxx'', hdomain⟩ := clause_between hn (hxx'.solid hx) hcl
      refine ⟨hdx.trans (hxx'.trans hxx''), fun cl' hcl' => ?_⟩
      rcases List.mem_append.mp hcl' with hcl' | hcl'
      · exact (hcs cl' hcl').later hx (hxx'.trans hxx'')
      · rw [List.mem_singleton.mp hcl']
        exact hdomain.widen ((hxx'.trans hxx'').solid hx) (hdx.trans hxx') .refl
  have hx' := hclauses.1.solid hd'
  have hxy : x.cursor.Reaches y.cursor := (Scanning.skip _ _ _ _ hy).cursor
  obtain ⟨hyz, haction⟩ := hn y action z (hxy.solid hx') hz
  have hdz := hclauses.1.trans (hxy.trans hyz)
  refine ⟨hsd.trans hdz, between_nestClauses (tokenAt_of_advance .refl hcovers hd hdz) ?_ ?_⟩
  · exact fun cl hcl => (hclauses.2 cl hcl).widen hx' hsd (hxy.trans hyz)
  · exact haction.widen ((hxy.trans hyz).solid hx') (hsd.trans (hclauses.1.trans hxy)) .refl

theorem conditional_between (hn : Locates nested) (hcovers : s.cursor.offset < s.cursor.position)
    (h : conditional σ nested s = .ok e t) :
    s.cursor.Reaches t.cursor ∧ e.Between s.cursor t.cursor := by
  obtain ⟨u, condition, u₂, u₄, yes, u₅, u₆, no, hu, h₂, h₄, h₅, h₆, h₇, rfl⟩ := conditional_ok h
  obtain ⟨d, hd, rfl⟩ := advance_ok hu
  have hsd : s.cursor.Reaches d := .advance .refl hd
  have hd' := solid_of_advance hd
  obtain ⟨hd2, hcondition⟩ := expression_locates hn _ condition u₂ hd' h₂
  have s2 := hd2.solid hd'
  have h24 : u₂.cursor.Reaches u₄.cursor := h₄.cursor
  have s4 := h24.solid s2
  obtain ⟨h45, hyes⟩ := hn u₄ yes u₅ s4 h₅
  have s5 := h45.solid s4
  have h56 : u₅.cursor.Reaches u₆.cursor := (Scanning.skip _ _ _ _ h₆).cursor
  have s6 := h56.solid s5
  obtain ⟨h67, hno⟩ := hn u₆ no t s6 h₇
  -- the three parts in the order in which they were read, on the way behind the word
  have hparts : Listed d t.cursor [condition, yes, no] := by
    refine ⟨hd2.trans (h24.trans (h45.trans (h56.trans h67))), ?_, ?_⟩
    · have hcondition := hcondition.later s2 (h24.trans (h45.trans (h56.trans h67)))
      have hyes := hyes.widen s5 (hd2.trans h24) (h56.trans h67)
      have hno := hno.widen (h67.solid s6) (hd2.trans (h24.trans (h45.trans h56))) .refl
      simpa using And.intro hcondition (And.intro hyes hno)
    · have hcy : condition.Before yes := hcondition.before hyes s4 (h24.offset_le s2)
      have hcn : condition.Before no :=
        hcondition.before hno s6 ((h24.trans (h45.trans h56)).offset_le s2)
      have hyn : yes.Before no := hyes.before hno s6 (h56.offset_le s5)
      simpa using And.intro (And.intro hcy hcn) hyn
  refine ⟨hsd.trans hparts.reaches, .node (tokenAt_of_advance .refl hcovers hd hparts.reaches)
    ⟨fun part hpart m hm => ?_, hparts.ordered⟩ (hparts.before hd' hsd).between⟩
  have := (hparts.between part hpart).le hd' m hm
  have := position_le_offset_of_advance hd
  omega

theorem operatorExpression_locates (hn : Locates nested) :
    Locates (operatorExpression σ nested) := by
  intro s e t hs h
  obtain ⟨operand, u, hu, h⟩ := bind_ok.mp h
  obtain ⟨hsu, hoperand⟩ := signedPath_locates hn s operand u hs hu
  obtain ⟨hut, he⟩ := operations_extends hn precedenceCount loosest s.cursor u operand e t hs hsu
    hoperand rfl h
  exact ⟨hsu.trans hut, he⟩

/-- A single expression stands where its first token does, or further on. -/
theorem singleWith_locates (hn : Locates nested) : Locates (singleWith σ nested) := by
  intro s e t hs h
  obtain ⟨u, hu, rfl⟩ := nesting_ok h
  obtain ⟨_, v, hv, h⟩ := bind_ok.mp hu
  have hcursor : v.cursor = s.cursor := by
    obtain ⟨-, rfl⟩ := descend_ok hv
    rfl
  rw [← hcursor] at hs ⊢
  have hword := fun {k : Token} => hs.covers (k := k)
  rw [token_bind] at h
  cases htoken : v.cursor.token <;> rw [htoken] at h
  case forWord => exact bindingExpression_between (t := u) hn (hword htoken (by decide)) h
  case someWord => exact bindingExpression_between (t := u) hn (hword htoken (by decide)) h
  case everyWord => exact bindingExpression_between (t := u) hn (hword htoken (by decide)) h
  case ifWord => exact conditional_between (t := u) hn (hword htoken (by decide)) h
  all_goals exact operatorExpression_locates hn v e u hs h

theorem singleWithin_locates (n : Nat) : Locates (singleWithin σ n) := by
  induction n with
  | zero => exact fun _ _ _ _ h => absurd h reject_ne_ok
  | succ n ih => exact singleWith_locates ih

/-! ### Whole sources -/

/-- A whole source has its expression between its first token and its end. -/
theorem complete_between {terminator : Token} (h : complete σ terminator s = .ok e t) :
    ∃ d, s.cursor.advance = (.ok (), d) ∧ d.Reaches t.cursor ∧ e.Between d t.cursor := by
  obtain ⟨u, hu, hexpression, -⟩ := complete_ok h
  obtain ⟨d, hd, rfl⟩ := advance_ok hu
  obtain ⟨hdt, he⟩ :=
    expression_locates (singleWithin_locates _) _ e t (solid_of_advance hd) hexpression
  exact ⟨d, hd, hdt, he⟩

end Parse

namespace Cursor

/-- On the way from one cursor to another a token is read that starts at the offset. -/
def ReadsAt (c d : Cursor) (n : Nat) : Prop :=
  ∃ a b, c.Reaches a ∧ a.advance = (.ok (), b) ∧ b.Reaches d ∧ b.offset = n

/-- Every token behind the first one has been read as well. -/
theorem readsAt_of_reaches {b c d : Cursor} (h : c.advance = (.ok (), d)) (hb : d.Reaches b) :
    c.ReadsAt b b.offset := by
  induction hb with
  | refl => exact ⟨c, d, .refl, h, .refl, rfl⟩
  | @advance b e hdb he _ => exact ⟨b, e, (Reaches.advance .refl h).trans hdb, he, .refl, rfl⟩
  | endOperand _ ih =>
      obtain ⟨a, b', hca, hb', hreaches, hoffset⟩ := ih
      exact ⟨a, b', hca, hb', .endOperand hreaches, hoffset⟩

theorem ReadsAt.later {c d d' : Cursor} {n : Nat} (h : c.ReadsAt d n) (hd : d.Reaches d') :
    c.ReadsAt d' n := by
  obtain ⟨a, b, hca, hb, hbd, hn⟩ := h
  exact ⟨a, b, hca, hb, hbd.trans hd, hn⟩

end Cursor

open Parse

/-- Whatever a reader has been asked for before, the nodes of an expression that it reads stand at
tokens that it has read for it, behind the start of the source and before the token at which the
expression ends, and they are in the order of the source. -/
theorem Parser.offsets_inOrder {source : String} {start : Nat} {language : Language}
    {host : Resolver} {warnings : List String} {cs : List Call} {terminator : Token} {e : Expr}
    {after : Parser} (h : ((ofSource source start language host warnings).calls cs).expression
      terminator = (.ok e, after)) :
    (∀ n ∈ e.offsets,
      ((ofSource source start language host warnings).calls cs).state.cursor.ReadsAt
        after.state.cursor n ∧
      (∀ k, IsBoundary source k → k ≤ start → k ≤ n) ∧ n < after.endOffset) ∧
      ∀ sub ∈ e.nodes, sub.InOrder := by
  obtain ⟨t, hrun⟩ := expression_ok (congrArg Prod.fst h)
  have hafter : after.state = t := by
    rw [expression_run hrun] at h
    exact congrArg (·.2.state) h.symm
  obtain ⟨d, hd, hreaches, he⟩ := complete_between hrun
  refine ⟨fun n hn => ?_, he.inOrder⟩
  have htoken := he.token n hn
  refine ⟨?_, fun k hk hle => ?_, ?_⟩
  · obtain ⟨⟨b, hdb, hbt, rfl⟩, -⟩ := htoken
    rw [hafter]
    exact (Cursor.readsAt_of_reaches hd hdb).later hbt
  · -- the reader never moves back, so that it stands behind its start when it is called
    obtain ⟨-, -, -, hposition⟩ := shows_calls (Cursor.ofSource_shows source start) cs
      (p := ofSource source start language host warnings)
    have := (Cursor.ofSource_position source start).2 k hk hle
    have := Cursor.position_le_offset_of_advance hd
    have := htoken.le (Cursor.solid_of_advance hd)
    omega
  · show n < after.state.cursor.offset
    rw [hafter]
    exact htoken.lt

/-- A path with a predicate, a call and a conditional, read from behind the first character. -/
theorem Parser.offsets_inOrder_of_path :
    let fresh := ofSource "é if (a//b[2]/.. = -1) then concat('x', 'y') else (1 to 2, c)" 2
      .expression (StaticContext.resolver {}) []
    ∃ e after, fresh.expression .eof = (.ok e, after) ∧
      (∀ n ∈ e.offsets, fresh.state.cursor.ReadsAt after.state.cursor n ∧
        (∀ k, IsBoundary "é if (a//b[2]/.. = -1) then concat('x', 'y') else (1 to 2, c)" k →
          k ≤ 2 → k ≤ n) ∧ n < after.endOffset) ∧ ∀ sub ∈ e.nodes, sub.InOrder := by
  intro fresh
  have hok : (fresh.expression .eof).1.isOk = true := by decide +kernel
  cases hr : fresh.expression .eof with | mk outcome after =>
  rw [hr] at hok
  obtain ⟨e, rfl⟩ := exists_of_isOk hok
  have hcalls : (fresh.calls []).expression .eof = (.ok e, after) := hr
  exact ⟨e, after, rfl, Parser.offsets_inOrder hcalls⟩

end XPath
