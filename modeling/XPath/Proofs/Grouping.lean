import XPath.Expr.Basic

/-!
# Grouping by precedence

How a row of operators is read: it is split at the loosest one, the last of them if there are
several, and the two sides are read in the same way. `group` is that reading and says nothing
of how a reader gets there in one pass. A reader that goes from left to right relies on three
facts: an operator with only tighter ones behind it takes them all as its operand
(`group_cons`), tighter ones before a looser one may be applied first (`group_append`), and
operators that are tighter than all the others belong to the operands (`group_flatten`).
-/

namespace XPath

/-- An operator with the operand behind it. -/
structure Joint where
  precedence : Nat
  /-- what becomes of the operands before and behind -/
  apply : Expr → Expr → Expr
  operand : Expr

namespace Joint

/-! ### The loosest operator -/

/-- The last of the loosest operators, with those before and behind it. -/
def splitLoosest : List Joint → Option (List Joint × Joint × List Joint)
  | [] => none
  | j :: js =>
    match splitLoosest js with
    | none => some ([], j, [])
    | some (before, loosest, behind) =>
      if j.precedence < loosest.precedence then some ([], j, js)
      else some (j :: before, loosest, behind)

theorem splitLoosest_eq_none {js : List Joint} : splitLoosest js = none ↔ js = [] := by
  cases js with
  | nil => exact ⟨fun _ => rfl, fun _ => rfl⟩
  | cons j js =>
      constructor
      · intro h
        rw [splitLoosest] at h
        split at h
        · cases h
        · split at h <;> cases h
      · intro h
        cases h

/-- None before the loosest operator is looser, and all behind it are tighter. -/
theorem splitLoosest_spec {js before behind : List Joint} {loosest : Joint}
    (h : splitLoosest js = some (before, loosest, behind)) :
    js = before ++ loosest :: behind ∧ (∀ j ∈ before, loosest.precedence ≤ j.precedence) ∧
      ∀ j ∈ behind, loosest.precedence < j.precedence := by
  induction js generalizing before loosest behind with
  | nil => cases h
  | cons j js ih =>
      rw [splitLoosest] at h
      split at h
      · next hnone =>
          rw [splitLoosest_eq_none] at hnone
          cases h
          subst hnone
          exact ⟨rfl, fun _ hj => absurd hj List.not_mem_nil,
            fun _ hj => absurd hj List.not_mem_nil⟩
      · next before' loosest' behind' hsome =>
          obtain ⟨rfl, hbefore, hbehind⟩ := ih hsome
          split at h
          · next hlt =>
              cases h
              refine ⟨rfl, fun _ hj => absurd hj List.not_mem_nil, fun k hk => ?_⟩
              rcases List.mem_append.mp hk with hk | hk
              · exact Nat.lt_of_lt_of_le hlt (hbefore k hk)
              · rcases List.mem_cons.mp hk with rfl | hk
                · exact hlt
                · exact Nat.lt_trans hlt (hbehind k hk)
          · next hle =>
              cases h
              refine ⟨rfl, fun k hk => ?_, hbehind⟩
              rcases List.mem_cons.mp hk with rfl | hk
              · exact Nat.le_of_not_lt hle
              · exact hbefore k hk

/-- The two conditions fix where the operators are split. -/
theorem splitLoosest_append {before behind : List Joint} {loosest : Joint}
    (hbefore : ∀ j ∈ before, loosest.precedence ≤ j.precedence)
    (hbehind : ∀ j ∈ behind, loosest.precedence < j.precedence) :
    splitLoosest (before ++ loosest :: behind) = some (before, loosest, behind) := by
  induction before with
  | nil =>
      rw [List.nil_append, splitLoosest]
      split
      · next hnone => rw [splitLoosest_eq_none.mp hnone]
      · next before' loosest' behind' hsome =>
          obtain ⟨rfl, -, -⟩ := splitLoosest_spec hsome
          rw [if_pos (hbehind loosest' (List.mem_append_right _ List.mem_cons_self))]
  | cons j before ih =>
      rw [List.cons_append, splitLoosest, ih fun k hk => hbefore k (List.mem_cons_of_mem _ hk)]
      dsimp only
      rw [if_neg (Nat.not_lt_of_le (hbefore j List.mem_cons_self))]

/-! ### Grouping -/

/-- An operand with the operators behind it, split at the last of the loosest, and so on on both
sides. -/
def group (first : Expr) (js : List Joint) : Expr :=
  match _hsplit : splitLoosest js with
  | none => first
  | some (before, loosest, behind) =>
    loosest.apply (group first before) (group loosest.operand behind)
termination_by js.length
decreasing_by
  all_goals
    rw [(splitLoosest_spec _hsplit).1, List.length_append, List.length_cons]
    omega

theorem group_nil (first : Expr) : group first [] = first := by
  rw [group]
  rfl

theorem group_split {before behind : List Joint} {loosest : Joint} (first : Expr)
    (hbefore : ∀ j ∈ before, loosest.precedence ≤ j.precedence)
    (hbehind : ∀ j ∈ behind, loosest.precedence < j.precedence) :
    group first (before ++ loosest :: behind) =
      loosest.apply (group first before) (group loosest.operand behind) := by
  rw [group]
  split
  · next hnone => simp [splitLoosest_eq_none] at hnone
  · next before' loosest' behind' hsome =>
      rw [splitLoosest_append hbefore hbehind] at hsome
      cases hsome
      rfl

/-- An operator takes the tighter ones behind it as its operand. -/
theorem group_cons {j : Joint} {js : List Joint} (first : Expr)
    (h : ∀ k ∈ js, j.precedence < k.precedence) :
    group first (j :: js) = j.apply first (group j.operand js) := by
  have hsplit := group_split first (fun _ hk => absurd hk List.not_mem_nil) h
  rw [List.nil_append, group_nil] at hsplit
  exact hsplit

/-- Operators may be applied before one that binds no tighter is looked at. -/
theorem group_append {js ks : List Joint} (first : Expr)
    (h : ∀ k ∈ ks.head?, ∀ j ∈ js, k.precedence ≤ j.precedence) :
    group first (js ++ ks) = group (group first js) ks := by
  induction hn : ks.length using Nat.strongRecOn generalizing ks with
  | ind n ih =>
      cases hsplit : splitLoosest ks with
      | none =>
          rw [splitLoosest_eq_none.mp hsplit, List.append_nil, group_nil]
      | some split =>
          obtain ⟨before, loosest, behind⟩ := split
          obtain ⟨rfl, hbefore, hbehind⟩ := splitLoosest_spec hsplit
          -- the loosest of the later operators is no tighter than the first of them
          have hloosest : ∀ j ∈ js, loosest.precedence ≤ j.precedence := by
            intro j hj
            cases before with
            | nil => exact h loosest rfl j hj
            | cons k before =>
                exact Nat.le_trans (hbefore k List.mem_cons_self) (h k rfl j hj)
          have hall : ∀ j ∈ js ++ before, loosest.precedence ≤ j.precedence := by
            intro j hj
            rcases List.mem_append.mp hj with hj | hj
            · exact hloosest j hj
            · exact hbefore j hj
          have hshort : group first (js ++ before) = group (group first js) before := by
            refine ih before.length ?_ ?_ rfl
            · rw [← hn, List.length_append, List.length_cons]
              omega
            · intro k hk
              cases before with
              | nil => cases hk
              | cons k' before =>
                  cases hk
                  exact h _ rfl
          rw [← List.append_assoc, group_split first hall hbehind, hshort,
            group_split _ hbefore hbehind]

/-! ### Operators within operands -/

/-- An operator with some that apply to its operand. -/
structure Block where
  joint : Joint
  within : List Joint

/-- The operators of several blocks in one row. -/
def flatten (blocks : List Block) : List Joint :=
  blocks.flatMap fun b => b.joint :: b.within

/-- The operator with all of them applied to its operand. -/
def Block.absorb (b : Block) : Joint :=
  { b.joint with operand := group b.joint.operand b.within }

/-- When the operators within operands are tighter than those between, they are applied to the
operands first. -/
theorem group_flatten {blocks : List Block} {bound : Nat} (first : Expr)
    (hjoint : ∀ b ∈ blocks, b.joint.precedence ≤ bound)
    (hwithin : ∀ b ∈ blocks, ∀ j ∈ b.within, bound < j.precedence) :
    group first (flatten blocks) = group first (blocks.map Block.absorb) := by
  induction hn : blocks.length using Nat.strongRecOn generalizing blocks first with
  | ind n ih =>
      cases hsplit : splitLoosest (blocks.map Block.absorb) with
      | none =>
          rw [splitLoosest_eq_none, List.map_eq_nil_iff] at hsplit
          rw [hsplit]
          rfl
      | some split =>
          obtain ⟨before, loosest, behind⟩ := split
          obtain ⟨hblocks, hbefore, hbehind⟩ := splitLoosest_spec hsplit
          obtain ⟨bs, bs', rfl, rfl, hrest⟩ := List.map_eq_append_iff.mp hblocks
          obtain ⟨b, bs', rfl, rfl, rfl⟩ := List.map_eq_cons_iff.mp hrest
          have hb : b ∈ bs ++ b :: bs' := List.mem_append_right _ List.mem_cons_self
          have hlength : bs.length + (bs'.length + 1) = n := by
            rw [← hn, List.length_append, List.length_cons]
          have hbs : ∀ c ∈ bs, c ∈ bs ++ b :: bs' := fun c hc => List.mem_append_left _ hc
          have hbs' : ∀ c ∈ bs', c ∈ bs ++ b :: bs' := fun c hc =>
            List.mem_append_right _ (List.mem_cons_of_mem _ hc)
          -- the loosest of all is the one between operands, since those within are tighter
          have hrow : flatten (bs ++ b :: bs') =
              flatten bs ++ b.joint :: (b.within ++ flatten bs') := by
            simp [flatten]
          have hleft : ∀ j ∈ flatten bs, b.joint.precedence ≤ j.precedence := by
            intro j hj
            obtain ⟨c, hc, hj⟩ := List.mem_flatMap.mp hj
            rcases List.mem_cons.mp hj with rfl | hj
            · exact hbefore c.absorb (List.mem_map_of_mem hc)
            · exact Nat.le_of_lt (Nat.lt_of_le_of_lt (hjoint b hb) (hwithin c (hbs c hc) j hj))
          have hright : ∀ j ∈ b.within ++ flatten bs', b.joint.precedence < j.precedence := by
            intro j hj
            rcases List.mem_append.mp hj with hj | hj
            · exact Nat.lt_of_le_of_lt (hjoint b hb) (hwithin b hb j hj)
            · obtain ⟨c, hc, hj⟩ := List.mem_flatMap.mp hj
              rcases List.mem_cons.mp hj with rfl | hj
              · exact hbehind c.absorb (List.mem_map_of_mem hc)
              · exact Nat.lt_of_le_of_lt (hjoint b hb) (hwithin c (hbs' c hc) j hj)
          -- its own operand takes what is within it first
          have hoperand : group b.joint.operand (b.within ++ flatten bs') =
              group (group b.joint.operand b.within) (flatten bs') := by
            refine group_append _ fun k hk j hj => ?_
            cases bs' with
            | nil => cases hk
            | cons c bs' =>
                cases hk
                exact Nat.le_of_lt
                  (Nat.lt_of_le_of_lt (hjoint c (hbs' c List.mem_cons_self)) (hwithin b hb j hj))
          have hfirst := ih bs.length (by omega) first (fun c hc => hjoint c (hbs c hc))
            (fun c hc => hwithin c (hbs c hc)) rfl
          have hlast := ih bs'.length (by omega) (group b.joint.operand b.within)
            (fun c hc => hjoint c (hbs' c hc)) (fun c hc => hwithin c (hbs' c hc)) rfl
          rw [hrow, group_split first hleft hright, hoperand, hfirst, hlast, List.map_append,
            List.map_cons, group_split first hbefore hbehind]
          rfl

end Joint

end XPath
