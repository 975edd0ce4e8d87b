import Mathlib.Algebra.Ring.Nat
import XPath.Proofs.Compounds

/-!
# Levels and height

What the limit on levels says of the tree that is read. Along every branch the levels charged for
its edges stay within the limit (`Parser.charges_le`), but not every edge is charged: the left
operand of an operator was read before the operator, and the further clauses of a binding are
read like the first. So the limit bounds the height of a tree only together with the number of
free edges on a branch.
-/

namespace XPath

open Parse

namespace Expr

/-! ### Height -/

/-- An expression is one node higher than its highest part. -/
theorem height_eq (e : Expr) : e.height = 1 + greatestHeight e.children := by
  cases e <;> simp [height, greatestHeight, children]

theorem height_pos (e : Expr) : 0 < e.height := by
  rw [height_eq]
  omega

theorem exists_height_eq_greatest {es : List Expr} (h : es ≠ []) :
    ∃ e ∈ es, e.height = greatestHeight es := by
  induction es with
  | nil => exact absurd rfl h
  | cons e es ih =>
      rw [greatestHeight]
      by_cases hle : greatestHeight es ≤ e.height
      · exact ⟨e, List.mem_cons_self, (Nat.max_eq_left hle).symm⟩
      · have hne : es ≠ [] := by
          rintro rfl
          exact hle (Nat.zero_le _)
        obtain ⟨e', hmem, heq⟩ := ih hne
        refine ⟨e', List.mem_cons_of_mem _ hmem, ?_⟩
        rw [heq]
        omega

/-! ### Branches -/

/-- The charges on the edges of a way down from the root of an expression. -/
inductive Branch : Expr → List Nat → Prop
  | root (e : Expr) : Branch e []
  | edge {e c : Expr} {charge : Nat} {charges : List Nat} :
      (charge, c) ∈ e.chargedParts → Branch c charges → Branch e (charge :: charges)

/-- The height counts the nodes of a longest branch. -/
theorem exists_branch_of_height (e : Expr) :
    ∃ charges, e.Branch charges ∧ e.height = charges.length + 1 := by
  induction e using parts_induction with
  | step e ih =>
      by_cases hleaf : e.children = []
      · refine ⟨[], .root e, ?_⟩
        rw [height_eq, hleaf]
        rfl
      · obtain ⟨c, hc, hheight⟩ := exists_height_eq_greatest hleaf
        obtain ⟨charges, hbranch, hlength⟩ := ih c hc
        rw [← map_snd_chargedParts] at hc
        obtain ⟨⟨charge, c⟩, hmem, rfl⟩ := List.mem_map.mp hc
        refine ⟨charge :: charges, .edge hmem hbranch, ?_⟩
        rw [height_eq, ← hheight, hlength, List.length_cons, Nat.add_comm]

theorem height_lt_of_mem_children {e c : Expr} (h : c ∈ e.children) : c.height < e.height := by
  have hle : ∀ es : List Expr, c ∈ es → c.height ≤ greatestHeight es := by
    intro es hmem
    induction es with
    | nil => exact absurd hmem List.not_mem_nil
    | cons e es ih =>
        rw [greatestHeight]
        rcases List.mem_cons.mp hmem with rfl | hmem
        · exact Nat.le_max_left _ _
        · exact Nat.le_trans (ih hmem) (Nat.le_max_right _ _)
  rw [height_eq e]
  exact Nat.lt_of_le_of_lt (hle e.children h) (Nat.lt_add_of_pos_left Nat.one_pos)

/-- No branch is longer than the tree is high. -/
theorem length_lt_height {e : Expr} {charges : List Nat} (h : e.Branch charges) :
    charges.length < e.height := by
  induction h with
  | root e => exact e.height_pos
  | @edge e c charge charges hmem _ ih =>
      have hpart := List.mem_map_of_mem (f := Prod.snd) hmem
      rw [map_snd_chargedParts] at hpart
      exact Nat.lt_of_le_of_lt ih (height_lt_of_mem_children hpart)

theorem continues_mapRange (start : Nat) (f : RangeVariable → RangeVariable) (e : Expr) :
    (e.mapRange f).continues start = e.continues start := by
  cases e with
  | varRef n ref => cases ref <;> simp [mapRange, continues]
  | _ => simp [mapRange, continues]

theorem chargedParts_mapRange (f : RangeVariable → RangeVariable) (e : Expr) :
    (e.mapRange f).chargedParts = e.chargedParts.map fun (charge, c) => (charge, c.mapRange f) := by
  cases e with
  | varRef n ref => cases ref <;> simp [mapRange, chargedParts]
  | _ => simp [mapRange, chargedParts, continues_mapRange, mapRangeAll_eq_map]

theorem branch_of_mapRange {f : RangeVariable → RangeVariable} {e : Expr} {charges : List Nat}
    (h : Branch (e.mapRange f) charges) : Branch e charges := by
  induction charges generalizing e with
  | nil => exact .root e
  | cons charge charges ih =>
      cases h with
      | edge hmem hb =>
          rw [chargedParts_mapRange] at hmem
          obtain ⟨⟨_, c⟩, hc, heq⟩ := List.mem_map.mp hmem
          cases heq
          exact .edge hc (ih hb)

/-- Further clauses are not charged, and their parts are charged like those of the first. -/
theorem branch_nestClauses {start base : Nat} {kind : BindingKind} {known : List RangeVariable}
    {cs : List Clause} {action : Expr} {charges : List Nat}
    (hcs : ∀ c ∈ cs, ∀ ns, Branch c.domain ns → base + nestedCost + ns.sum ≤ maxDepth)
    (ha : ∀ ns, Branch action ns → base + nestedCost + ns.sum ≤ maxDepth)
    (h : Branch (nestClauses start kind known cs action) charges) :
    base + charges.sum ≤ maxDepth := by
  induction cs generalizing known charges with
  | nil =>
      rw [nestClauses, withTypes_eq_mapRange] at h
      have := ha charges (branch_of_mapRange h)
      omega
  | cons c cs ih =>
      cases h with
      | root _ =>
          have := hcs c List.mem_cons_self [] (.root _)
          simp only [List.sum_nil] at this ⊢
          omega
      | @edge _ _ charge ns hmem hb =>
          rw [nestClauses] at hmem
          simp only [chargedParts, List.mem_cons, Prod.mk.injEq, List.not_mem_nil,
            or_false] at hmem
          rcases hmem with ⟨rfl, rfl⟩ | ⟨rfl, rfl⟩
          · -- down into the domain, which is charged for itself
            rw [withTypes_eq_mapRange] at hb
            have := hcs c List.mem_cons_self ns (branch_of_mapRange hb)
            rw [List.sum_cons]
            omega
          · -- on to the next clause, or down into the action
            rw [List.sum_cons]
            cases cs with
            | nil =>
                rw [nestClauses, withTypes_eq_mapRange] at hb
                have := ha ns (branch_of_mapRange hb)
                split <;> omega
            | cons c' cs =>
                have := ih (fun c'' hc'' => hcs c'' (List.mem_cons_of_mem _ hc'')) hb
                rw [nestClauses, continues, if_pos (decide_eq_true rfl)]
                omega

end Expr

/-! ### Derivations -/

/-- The levels in use before a piece and those charged below it stay within the limit. -/
def Piece.WithinLevels (depth : Nat) : Piece → Prop
  | whole e => depth ≤ maxDepth → ∀ charges, e.Branch charges → depth + charges.sum ≤ maxDepth
  | parts base es => ∀ part ∈ es, ∀ charges, part.2.Branch charges →
      base + part.1 + charges.sum ≤ maxDepth
  | clauses _ base cs => ∀ c ∈ cs, ∀ charges, c.domain.Branch charges →
      base + nestedCost + charges.sum ≤ maxDepth

/-- Whatever is read takes no more levels on any branch than are left. -/
theorem Reads.withinLevels {σ : Setting} {s t : ParseState} {p : Piece} (h : Reads σ s p t) :
    p.WithinLevels s.depth := by
  induction h with
  | plain _ _ ih =>
      intro hs charges hb
      cases hb with
      | root _ => exact hs
      | edge hmem hb =>
          rw [List.sum_cons, ← Nat.add_assoc]
          exact ih _ hmem _ hb
  | range _ _ =>
      intro hs charges hb
      cases hb with
      | root _ => exact hs
      | edge hmem _ => exact absurd hmem List.not_mem_nil
  | declared _ _ _ =>
      intro hs charges hb
      cases hb with
      | root _ => exact hs
      | edge hmem _ => exact absurd hmem List.not_mem_nil
  | binding _ _ _ _ hd hmax _ _ ihcs iha =>
      intro _ charges hb
      refine Expr.branch_nestClauses ihcs (fun ns hns => ?_) hb
      have := iha hmax ns hns
      omega
  | noParts _ => exact fun _ hpart => absurd hpart List.not_mem_nil
  | part _ hd hmax _ _ ihe ihes =>
      intro part hpart charges hb
      rcases List.mem_cons.mp hpart with rfl | hpart
      · have := ihe hmax charges hb
        show _ + _ + _ ≤ _
        omega
      · exact ihes part hpart charges hb
  | noClauses _ => exact fun _ hc => absurd hc List.not_mem_nil
  | clause _ _ hd hmax _ _ ihdom ihcs =>
      intro c hc charges hb
      rcases List.mem_cons.mp hc with rfl | hc
      · have := ihdom hmax charges hb
        omega
      · exact ihcs c hc charges hb

/-! ### Sources -/

/-- Along every branch of an expression that is read from a source, the levels that are charged
stay within the limit. -/
theorem Parser.charges_le {source : String} {start : Nat} {language : Language}
    {host : Resolver} {warnings : List String} {terminator : Token} {e : Expr}
    (h : ((Parser.ofSource source start language host warnings).expression terminator).1 = .ok e)
    {charges : List Nat} (hb : e.Branch charges) : nestedCost + charges.sum ≤ maxDepth := by
  obtain ⟨s, t, -, hdepth, hreads⟩ := Parser.expression_reads h
  have hwithin : Piece.WithinLevels s.depth (.whole e) := hreads.withinLevels
  rw [hdepth] at hwithin
  exact hwithin (by decide) charges hb

theorem length_le_count_add_sum (charges : List Nat) :
    charges.length ≤ charges.count 0 + charges.sum := by
  induction charges with
  | nil => exact Nat.le_refl 0
  | cons charge charges ih =>
      rw [List.length_cons, List.count_cons, List.sum_cons]
      cases charge with
      | zero => simp; omega
      | succ charge => simp; omega

end XPath
