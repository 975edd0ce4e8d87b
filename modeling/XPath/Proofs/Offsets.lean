import XPath.Proofs.Progress
import XPath.Proofs.Run
import XPath.Proofs.Tree

/-!
# Offsets in order

The nodes of a tree stand at tokens, and the order of these tokens is that of the parts of the tree
(`Expr.InOrder`): an operator stands between its operands, a sign, a call or a conditional before
all that belongs to it, a predicate and a type behind what they belong to. The offsets of tokens
grow while a cursor reads on, as long as the current token covers some text (`Cursor.Solid`). What
is read on the way between two cursors is a tree whose nodes stand at tokens of that way
(`Expr.Between`).
-/

namespace XPath

open Parse

/-! ### Offsets of tokens -/

namespace Cursor

variable {b c c' d d' : Cursor} {n : Nat}

/-- The current token starts before the place of the cursor, unless the source has ended or the
token has been taken for the end of an operand. -/
structure Solid (c : Cursor) : Prop where
  offset_le : c.offset ≤ c.position
  lt : c.token ≠ .eof → c.token ≠ .rightParen → c.offset < c.position

/-- A token of the source is neither its end nor in the place of another one. -/
theorem Solid.covers {k : Token} (h : c.Solid) (htoken : c.token = k)
    (hk : k ≠ .eof ∧ k ≠ .rightParen) : c.offset < c.position := by
  subst htoken
  exact h.lt hk.1 hk.2

/-- A token that has been read takes up some text, unless it ends the source. -/
theorem solid_of_advance (h : c.advance = (.ok (), d)) : d.Solid := by
  obtain ⟨gap, rest, l, -, hread, rfl⟩ := advance_ok h
  constructor
  · simp only [accept]
    omega
  · intro htoken _
    have hrest : rest ≠ [] := by
      rintro rfl
      cases hread
      exact htoken rfl
    have := utf8Length_pos (Lexeme.text_ne_nil hrest hread)
    simp only [accept]
    omega

theorem position_le_offset_of_advance (h : c.advance = (.ok (), d)) : c.position ≤ d.offset := by
  obtain ⟨gap, rest, l, -, -, rfl⟩ := advance_ok h
  simp only [accept]
  omega

theorem Reaches.solid (h : c.Reaches d) (hc : c.Solid) : d.Solid := by
  induction h with
  | refl => exact hc
  | advance _ he _ => exact solid_of_advance he
  | endOperand _ ih => exact ⟨ih.offset_le, fun _ hparen => absurd rfl hparen⟩

/-- Later tokens do not start before earlier ones. -/
theorem Reaches.offset_le (h : c.Reaches d) (hc : c.Solid) : c.offset ≤ d.offset := by
  induction h with
  | refl => exact Nat.le_refl _
  | @advance d e hd he ih =>
      have := (hd.solid hc).offset_le
      have := position_le_offset_of_advance he
      omega
  | endOperand _ ih => exact ih

/-- On the way from one cursor to another there is a token at the offset, before the one at which
the way ends. -/
structure TokenAt (c d : Cursor) (n : Nat) : Prop where
  read : ∃ b, c.Reaches b ∧ b.Reaches d ∧ b.offset = n
  lt : n < d.offset

theorem TokenAt.widen (h : TokenAt c d n) (hsolid : d.Solid) (hc : c'.Reaches c)
    (hd : d.Reaches d') : TokenAt c' d' n := by
  obtain ⟨⟨b, hcb, hbd, hn⟩, hlt⟩ := h
  exact ⟨⟨b, hc.trans hcb, hbd.trans hd, hn⟩, Nat.lt_of_lt_of_le hlt (hd.offset_le hsolid)⟩

theorem TokenAt.le (h : TokenAt c d n) (hc : c.Solid) : c.offset ≤ n := by
  obtain ⟨⟨b, hcb, -, rfl⟩, -⟩ := h
  exact hcb.offset_le hc

/-- A token that covers some text, and all that is read behind it. -/
theorem tokenAt_of_advance (hb : c.Reaches b) (hcovers : b.offset < b.position)
    (hd : b.advance = (.ok (), d)) (hd' : d.Reaches d') : TokenAt c d' b.offset := by
  refine ⟨⟨b, hb, (Reaches.advance .refl hd).trans hd', rfl⟩, ?_⟩
  have := position_le_offset_of_advance hd
  have := hd'.offset_le (solid_of_advance hd)
  omega

end Cursor

/-! ### Offsets of nodes -/

namespace Expr

/-- The offsets of all nodes. -/
def offsets (e : Expr) : List Nat :=
  e.nodes.map offset

/-- The offsets in an expression are its own and those in its parts. -/
theorem offsets_eq (e : Expr) : e.offsets = e.offset :: e.children.flatMap offsets := by
  rw [offsets, nodes_eq, List.map_cons, List.map_flatMap]
  rfl

theorem offsets_path (n : Nat) (first step : Expr) :
    (path n first step).offsets = n :: (first.offsets ++ step.offsets) := by
  simp [offsets_eq (path n first step), children, offset]

theorem mem_offsets {n : Nat} {e : Expr} :
    n ∈ e.offsets ↔ n = e.offset ∨ ∃ part ∈ e.children, n ∈ part.offsets := by
  rw [offsets_eq, List.mem_cons, List.mem_flatMap]

/-- All of the first expression stands before all of the second one. -/
def Before (a b : Expr) : Prop :=
  ∀ m ∈ a.offsets, ∀ n ∈ b.offsets, m < n

/-- The node stands where its parts leave room for it, and parts that are written one after another
stand in that order. The steps that a double slash stands for are at its own offset. -/
def InOrder : Expr → Prop
  | binary n _ left right | filter n left right =>
    (∀ m ∈ left.offsets, m < n) ∧ ∀ m ∈ right.offsets, n < m
  | path n first step => (∀ m ∈ first.offsets, m ≤ n) ∧ ∀ m ∈ step.offsets, n ≤ m
  | typed n _ operand => ∀ m ∈ operand.offsets, m < n
  | unary n _ operand => ∀ m ∈ operand.offsets, n < m
  | conditional n condition yes no =>
    (∀ part ∈ [condition, yes, no], ∀ m ∈ part.offsets, n < m) ∧
      [condition, yes, no].Pairwise Before
  | call n _ args => (∀ arg ∈ args, ∀ m ∈ arg.offsets, n < m) ∧ args.Pairwise Before
  | sequence _ items => items.Pairwise Before
  | literal _ _ | varRef _ _ | contextItem _ | root _ | parent _ | axisStep _ _ _ | reverse _ _
  | binding _ _ _ _ _ | raise _ _ => True

theorem inOrder_of_leaf {e : Expr} (h : e.children = []) : e.InOrder := by
  cases e with
  | call n f args =>
      have hargs : args = [] := h
      subst hargs
      exact ⟨by simp, .nil⟩
  | sequence n items =>
      have hitems : items = [] := h
      subst hitems
      exact .nil
  | _ => trivial

/-! ### Changed references -/

section MapRange

variable (f : RangeVariable → RangeVariable)

theorem offset_mapRange (e : Expr) : (e.mapRange f).offset = e.offset := by
  cases e with
  | varRef n ref => cases ref <;> rfl
  | _ => simp [mapRange, offset]

theorem offsets_mapRange (e : Expr) : (e.mapRange f).offsets = e.offsets := by
  induction e using parts_induction with
  | step e ih =>
      rw [offsets_eq, offsets_eq e, offset_mapRange, children_mapRange, List.flatMap_map,
        List.flatMap_def, List.flatMap_def, List.map_congr_left ih]

theorem before_mapRange {a b : Expr} : (a.mapRange f).Before (b.mapRange f) ↔ a.Before b := by
  unfold Before
  rw [offsets_mapRange, offsets_mapRange]

/-- The order of nodes does not depend on the types of variables. -/
theorem inOrder_mapRange {e : Expr} (h : e.InOrder) : (e.mapRange f).InOrder := by
  cases e with
  | varRef n ref => cases ref <;> exact trivial
  | conditional n condition yes no =>
      show (∀ part ∈ [condition, yes, no].map (mapRange f), ∀ m ∈ part.offsets, n < m) ∧
        ([condition, yes, no].map (mapRange f)).Pairwise Before
      simpa only [InOrder, List.forall_mem_map, List.pairwise_map, before_mapRange,
        offsets_mapRange] using h
  | call n g args =>
      simpa only [mapRange, InOrder, mapRangeAll_eq_map, List.pairwise_map, before_mapRange,
        List.forall_mem_map, offsets_mapRange] using h
  | sequence n items =>
      simpa only [mapRange, InOrder, mapRangeAll_eq_map, List.pairwise_map,
        before_mapRange] using h
  | binary | filter | path | typed | unary =>
      simpa only [mapRange, InOrder, offsets_mapRange] using h
  | _ => exact trivial

end MapRange

/-! ### Trees on the way between two cursors -/

variable {a b c c' d d' : Cursor} {e left right : Expr} {n : Nat}

/-- The nodes stand at tokens on the way from one cursor to another, and they are in order. -/
structure Between (c d : Cursor) (e : Expr) : Prop where
  token : ∀ n ∈ e.offsets, Cursor.TokenAt c d n
  inOrder : ∀ sub ∈ e.nodes, sub.InOrder

namespace Between

/-- A node is between two cursors when its own token and its parts are, in their order. -/
theorem node (htoken : Cursor.TokenAt c d e.offset) (hin : e.InOrder)
    (hparts : ∀ part ∈ e.children, part.Between c d) : e.Between c d := by
  constructor
  · intro n hn
    rcases mem_offsets.mp hn with rfl | ⟨part, hpart, hn⟩
    · exact htoken
    · exact (hparts part hpart).token n hn
  · intro sub hsub
    rw [nodes_eq, List.mem_cons, List.mem_flatMap] at hsub
    rcases hsub with rfl | ⟨part, hpart, hsub⟩
    · exact hin
    · exact (hparts part hpart).inOrder sub hsub

theorem leaf (htoken : Cursor.TokenAt c d e.offset) (hparts : e.children = []) : e.Between c d :=
  node htoken (inOrder_of_leaf hparts) (by simp [hparts])

/-- An expression between two cursors is also between others further apart. -/
theorem widen (h : e.Between c d) (hsolid : d.Solid) (hc : c'.Reaches c) (hd : d.Reaches d') :
    e.Between c' d' :=
  ⟨fun n hn => (h.token n hn).widen hsolid hc hd, h.inOrder⟩

/-- A cursor reads on behind the expression. -/
theorem later (h : e.Between c d) (hsolid : d.Solid) (hd : d.Reaches d') : e.Between c d' :=
  h.widen hsolid .refl hd

theorem lt (h : e.Between c d) : ∀ m ∈ e.offsets, m < d.offset :=
  fun m hm => (h.token m hm).lt

theorem le (h : e.Between c d) (hc : c.Solid) : ∀ m ∈ e.offsets, c.offset ≤ m :=
  fun m hm => (h.token m hm).le hc

/-- What starts where something else has ended stands behind it. -/
theorem before (h : left.Between c d) (h' : right.Between c' d') (hc' : c'.Solid)
    (hle : d.offset ≤ c'.offset) : left.Before right := by
  intro m hm n hn
  have := h.lt m hm
  have := h'.le hc' n hn
  omega

theorem mapRange (f : RangeVariable → RangeVariable) (h : e.Between c d) :
    (e.mapRange f).Between c d := by
  constructor
  · rw [offsets_mapRange]
    exact h.token
  · intro sub hsub
    obtain ⟨bs, hocc⟩ := mem_nodes.mp hsub
    obtain ⟨sub', hsub', rfl⟩ := occurs_mapRange.mp hocc
    exact inOrder_mapRange f (h.inOrder sub' (mem_nodes.mpr ⟨bs, hsub'⟩))

/-- A path is in order when its parts stand on both sides of their separator. -/
theorem path {first step : Expr} (htoken : Cursor.TokenAt c d n) (hfirst : first.Between c d)
    (hstep : step.Between c d) (hle : ∀ m ∈ first.offsets, m ≤ n)
    (hge : ∀ m ∈ step.offsets, n ≤ m) : (Expr.path n first step).Between c d := by
  refine node htoken ⟨hle, hge⟩ ?_
  simpa [children] using And.intro hfirst hstep

end Between

end Expr

end XPath
