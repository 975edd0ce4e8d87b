import XPath.Proofs.Productions

/-!
# What the compound productions read

Steps with predicates, paths, signs, operators, bindings and conditionals. A production with a
loop reads on after an expression that it has already (`ReadsOn`): the new expression has the old
one as its first part, which was read before any level was charged for the new one. The last
theorem closes the recursion over expressions within expressions.
-/

namespace XPath.Parse

variable {σ : Setting} {nested : Parse Expr} {s t u : ParseState}

/-! ### Reading on after an expression -/

/-- A part that makes a larger expression of one that has been read since `s`, with no fewer
levels in use than at its start. -/
def ReadsOn (σ : Setting) (part : Expr → Parse Expr) : Prop :=
  ∀ s t u e e', Ready s → Reads σ s (.whole e) t → s.depth ≤ t.depth → t.depth ≤ maxDepth →
    part e t = .ok e' u → Reads σ s (.whole e') u ∧ t.depth ≤ u.depth ∧ u.depth ≤ maxDepth

theorem ReadsOn.repeatWhile {part : Expr → Parse Expr} (hp : ReadsOn σ part)
    (go : Token → Bool) : ReadsOn σ (repeatWhile go part) := by
  intro s t u e e' hs he hd hmax h
  refine repeatWhile_ok (I := fun e u =>
    Reads σ s (.whole e) u ∧ t.depth ≤ u.depth ∧ u.depth ≤ maxDepth) ?_
    ⟨he, Nat.le_refl _, hmax⟩ h
  intro e v e' w hI _ hround
  obtain ⟨he', hd', hmax'⟩ := hp s v w e e' hs hI.1 (Nat.le_trans hd hI.2.1) hI.2.2 hround
  exact ⟨he', Nat.le_trans hI.2.1 hd', hmax'⟩

theorem ReadsOn.nesting {part : Expr → Parse Expr} (hp : ReadsOn σ part) :
    ReadsOn σ fun e => nesting (part e) := by
  intro s t u e e' hs he hd hmax h
  obtain ⟨v, hv, rfl⟩ := nesting_ok h
  obtain ⟨he', -, -⟩ := hp s t v e e' hs he hd hmax hv
  exact ⟨he'.withDepth t.depth, Nat.le_refl _, hmax⟩

/-- Levels that are given back may be taken in between. -/
theorem nesting_reads {p : Parse Expr}
    (hp : ∀ s e t, Ready s → p s = .ok e t → Reads σ s (.whole e) t) :
    ReadsWhole σ (nesting p) := by
  intro s e t hs h
  obtain ⟨u, hu, rfl⟩ := nesting_ok h
  exact ⟨(hp s e u hs hu).withDepth s.depth, rfl⟩

/-- A part that is read first, and a loop behind it. -/
theorem ReadsOn.after {p : Parse Expr} {part : Expr → Parse Expr} (hpart : ReadsOn σ part)
    (hp : ReadsWhole σ p) (hs : Ready s) {e : Expr} (h : (p >>= part) s = .ok e t) :
    Reads σ s (.whole e) t := by
  obtain ⟨first, u, hu, h⟩ := bind_ok.mp h
  obtain ⟨hfirst, hd⟩ := hp s first u hs hu
  exact (hpart s u t first e hs hfirst (Nat.le_of_eq hd.symm) (hd ▸ hs.depth) h).1

/-- After an expression the reader is still ready, once it has taken levels within bounds. -/
theorem Ready.after {e : Expr} (hs : Ready s) (he : Reads σ s (.whole e) t) (hm : Moves t u)
    (hmax : u.depth ≤ maxDepth) : Ready u :=
  ⟨hmax, (he.moves.cursor.trans hm.cursor).behindWord hs.word⟩

/-- A node with one further part behind the expression it starts with. -/
theorem reads_two {e a b : Expr} {levels : Nat} {v : ParseState} (hplain : e.isPlain = true)
    (hparts : e.chargedParts = [(0, a), (levels, b)]) (ha : Reads σ s (.whole a) t)
    (hs : s.depth ≤ maxDepth) (hm : Moves t u) (hd : s.depth + levels ≤ u.depth)
    (hmax : u.depth ≤ maxDepth) (hb : Reads σ u (.whole b) v) : Reads σ s (.whole e) v := by
  refine .plain hplain ?_
  rw [hparts]
  exact .part (.refl s) (Nat.le_refl _) hs ha (.part hm hd hmax hb (.noParts (.refl v)))

/-- A node whose only part takes no level. -/
theorem reads_one {e a : Expr} (hplain : e.isPlain = true) (hparts : e.chargedParts = [(0, a)])
    (ha : Reads σ s (.whole a) t) (hs : s.depth ≤ maxDepth) : Reads σ s (.whole e) t := by
  refine .plain hplain ?_
  rw [hparts]
  exact .part (.refl s) (Nat.le_refl _) hs ha (.noParts (.refl t))

theorem moves_of_descend {levels : Nat} {a : Unit} (h : descend σ levels s = .ok a t) :
    Moves s t ∧ t.depth = s.depth + levels ∧ t.depth ≤ maxDepth := by
  obtain ⟨hmax, rfl⟩ := descend_ok h
  exact ⟨moves_deeper s _, rfl, hmax⟩

/-! ### Steps -/

theorem predicate_readsOn (hn : ReadsNested σ nested) : ReadsOn σ (predicate σ nested) := by
  intro s t u e e' hs he hd hmax h
  obtain ⟨w, condition, x, hmaxs, hw, hx, hy, rfl⟩ := predicate_ok h
  have hdown : Moves t { t with depth := t.depth + 1 } := moves_deeper t _
  have hscan := scans_of_advance hw
  have hdw : w.depth = t.depth + 1 := hscan.depth
  have hready : Ready w := hs.after he (hdown.trans hscan.moves) (hdw ▸ hmaxs)
  obtain ⟨hmaxw, hcondition, hdx⟩ := expression_reads hn w condition x hready hx
  have hskip : Scans x u := Scanning.skip _ _ _ _ hy
  -- a predicate takes one level, and its condition those of an expression within another
  have hbelow : s.depth + (1 + nestedCost) ≤ w.depth + nestedCost := by omega
  have hdu : u.depth = t.depth + 1 := hskip.depth.trans (hdx.trans hdw)
  exact ⟨reads_two rfl rfl he hs.depth (hdown.trans (hscan.moves.trans (moves_deeper w _)))
    hbelow hmaxw (hcondition.after hskip.moves), by omega, by omega⟩

theorem step_reads (hn : ReadsNested σ nested) (startsPattern : Bool) :
    ReadsWhole σ (step σ nested startsPattern) := by
  intro s e t hs h
  obtain ⟨base, u, filtered, v, hu, hv, rfl, rfl⟩ := step_ok h
  obtain ⟨hbase, hd⟩ := primary_reads hn startsPattern s base u hs hu
  have hfiltered := ((predicate_readsOn hn).repeatWhile _ s u v base filtered hs hbase
    (Nat.le_of_eq hd.symm) (hd ▸ hs.depth) hv).1
  refine ⟨Reads.withDepth ?_ s.depth, rfl⟩
  split
  · exact reads_one rfl rfl hfiltered hs.depth
  · exact hfiltered

/-! ### Paths -/

/-- A step that is joined to a path after its levels have been taken. -/
theorem reads_joinStep {start levels : Nat} {separator : Token} {before next : Expr}
    (hseparator : levels = separatorLevels separator) (hs : Ready s)
    (hbefore : Reads σ s (.whole before) t) (hm : Moves t u)
    (hd : s.depth + levels ≤ u.depth) (hmax : u.depth ≤ maxDepth) {v : ParseState}
    (hnext : Reads σ u (.whole next) v) :
    Reads σ s (.whole (joinStep start separator before next)) v := by
  unfold joinStep
  unfold separatorLevels at hseparator
  split
  · next hslashes =>
      rw [if_pos hslashes] at hseparator
      -- the step to the descendants is read, without a token of its own, one level further up
      have hbound : s.depth + 1 ≤ maxDepth := by omega
      have hall : Reads σ { u with depth := s.depth + 1 } (.whole (anyDescendant start))
          { u with depth := s.depth + 1 } := reads_leaf rfl rfl (.refl _)
      have hback : Moves { u with depth := s.depth + 1 } u := ⟨rfl, Nat.le_refl _, .refl⟩
      have hdeeper : s.depth + 1 + 1 ≤ u.depth := by omega
      have hjoined : Reads σ { u with depth := s.depth + 1 }
          (.whole (.path start (anyDescendant start) next)) v :=
        reads_two rfl rfl hall hbound hback hdeeper hmax hnext
      exact reads_two rfl rfl hbefore hs.depth (hm.trans (moves_deeper u _)) (Nat.le_refl _)
        hbound hjoined
  · next hslash =>
      rw [if_neg hslash] at hseparator
      exact reads_two rfl rfl hbefore hs.depth hm (by omega) hmax hnext

theorem furtherStep_readsOn (hn : ReadsNested σ nested) : ReadsOn σ (furtherStep σ nested) := by
  intro s t u e e' hs he hd hmax h
  obtain ⟨w, next, hmaxs, hw, hx, rfl⟩ := furtherStep_ok h
  have hscan := scans_of_advance hw
  have hdw : w.depth = t.depth + _ := hscan.depth
  have hmaxw : w.depth ≤ maxDepth := hdw ▸ hmaxs
  have hm : Moves t w := (moves_deeper t _).trans hscan.moves
  obtain ⟨hnext, hdu⟩ := step_reads hn false w next u (hs.after he hm hmaxw) hx
  exact ⟨reads_joinStep rfl hs he hm (by omega) hmaxw hnext, by omega, by omega⟩

theorem furtherStepFromRoot_readsOn (hn : ReadsNested σ nested) :
    ReadsOn σ (furtherStepFromRoot σ nested) := by
  intro s t u e e' hs he hd hmax h
  obtain ⟨v, next, hv, hmaxw, hx, rfl⟩ := furtherStepFromRoot_ok h
  have hscan := scans_of_advance hv
  have hdv : v.depth = t.depth := hscan.depth
  have hm := hscan.moves.trans (moves_deeper v (v.depth + separatorLevels t.cursor.token))
  obtain ⟨hnext, hdu⟩ := step_reads hn false _ next u (hs.after he hm hmaxw) hx
  dsimp only at hdu
  exact ⟨reads_joinStep rfl hs he hm (by dsimp only; omega) hmaxw hnext, by omega, by omega⟩

theorem relativePath_reads (hn : ReadsNested σ nested) : ReadsWhole σ (relativePath σ nested) := by
  refine nesting_reads ?_
  intro s e t hs h
  exact ((furtherStep_readsOn hn).repeatWhile _).after (step_reads hn _) hs h

/-- The steps after a root that is read without a token. -/
theorem pathFrom_reads {start : Nat} {origin : Expr} (hn : ReadsNested σ nested)
    (horigin : ∀ s : ParseState, s.depth + 1 ≤ maxDepth → Reads σ s (.whole origin) s) :
    ReadsWhole σ (pathFrom σ nested start origin) := by
  refine nesting_reads ?_
  intro s e t hs h
  obtain ⟨_, u, hu, h⟩ := bind_ok.mp h
  obtain ⟨hdown, hdu, hmaxu⟩ := moves_of_descend hu
  obtain ⟨first, v, hv, h⟩ := bind_ok.mp h
  have hready : Ready u := ⟨hmaxu, hdown.cursor.behindWord hs.word⟩
  obtain ⟨hfirst, hdv⟩ := step_reads hn false u first v hready hv
  -- the origin has no token, so it can be read before the level of the first step is taken
  have hpath : Reads σ s (.whole (.path start origin first)) v :=
    reads_two rfl rfl (horigin s (hdu ▸ hmaxu)) hs.depth hdown (by omega) hmaxu hfirst
  exact ((furtherStepFromRoot_readsOn hn).repeatWhile _ s v t _ e hs hpath (by omega) (by omega)
    h).1

theorem rootedPath_reads (hn : ReadsNested σ nested) : ReadsWhole σ (rootedPath σ nested) := by
  intro s e t hs h
  obtain ⟨u, hu, hpath | ⟨rfl, rfl⟩⟩ := rootedPath_ok h
  · have hscan := scans_of_advance hu
    obtain ⟨he, hd⟩ := pathFrom_reads hn (fun s _ => reads_leaf rfl rfl (.refl s)) u e t
      (hs.scans hscan) hpath
    exact ⟨he.before hscan.moves (Nat.le_of_eq hscan.depth.symm), hd.trans hscan.depth⟩
  · have hscan := scans_of_advance hu
    exact ⟨reads_leaf rfl rfl hscan.moves, hscan.depth⟩

theorem descendantPath_reads (hn : ReadsNested σ nested) :
    ReadsWhole σ (descendantPath σ nested) := by
  intro s e t hs h
  obtain ⟨u, hu, h⟩ := descendantPath_ok h
  have hscan := scans_of_advance hu
  have horigin : ∀ v : ParseState, v.depth + 1 ≤ maxDepth → Reads σ v (.whole
      (.path s.cursor.offset (.root s.cursor.offset) (anyDescendant s.cursor.offset))) v := by
    intro v hv
    have hstep : Reads σ { v with depth := v.depth + 1 } (.whole (anyDescendant s.cursor.offset))
        v := reads_leaf rfl rfl ⟨rfl, Nat.le_refl _, .refl⟩
    exact reads_two rfl rfl (reads_leaf rfl rfl (.refl v)) (Nat.le_of_succ_le hv)
      (moves_deeper v _) (Nat.le_refl _) hv hstep
  obtain ⟨he, hd⟩ := pathFrom_reads hn horigin u e t (hs.scans hscan) h
  exact ⟨he.before hscan.moves (Nat.le_of_eq hscan.depth.symm), hd.trans hscan.depth⟩

theorem pathExpression_reads (hn : ReadsNested σ nested) :
    ReadsWhole σ (pathExpression σ nested) := by
  intro s e t hs h
  unfold pathExpression at h
  rw [token_bind] at h
  cases htoken : s.cursor.token <;> rw [htoken] at h
  case slash => exact rootedPath_reads hn s e t hs h
  case slashSlash => exact descendantPath_reads hn s e t hs h
  all_goals exact relativePath_reads hn s e t hs h

/-! ### Signs -/

/-- Every sign before an operand takes one level. -/
theorem signs_ok {signs : List (Sign × Nat)} (hs : s.depth ≤ maxDepth)
    (h : repeatWhile (fun t => (sign? t).isSome) (sign σ) [] s = .ok signs t) :
    Moves s t ∧ t.depth = s.depth + signs.length ∧ t.depth ≤ maxDepth := by
  refine repeatWhile_ok (I := fun signs t =>
    Moves s t ∧ t.depth = s.depth + signs.length ∧ t.depth ≤ maxDepth) ?_
    ⟨.refl s, rfl, hs⟩ h
  intro signs u signs' v hI _ hround
  obtain ⟨hm, hd, hmax⟩ := hI
  rcases sign_ok hround with ⟨rfl, rfl⟩ | ⟨kind, -, hmaxu, hv, rfl⟩
  · exact ⟨hm, hd, hmax⟩
  · have hscan := scans_of_advance hv
    have hdv : v.depth = u.depth + 1 := hscan.depth
    refine ⟨hm.trans ((moves_deeper u _).trans hscan.moves), ?_, hdv ▸ hmaxu⟩
    rw [hdv, hd, List.length_cons]
    omega

/-- The levels of the signs are in use while their operand is read. -/
theorem reads_applySigns {signs : List (Sign × Nat)} {operand : Expr}
    (hmax : s.depth + signs.length ≤ maxDepth)
    (h : Reads σ { s with depth := s.depth + signs.length } (.whole operand) t) :
    Reads σ s (.whole (applySigns operand signs)) t := by
  induction signs generalizing operand with
  | nil => exact h
  | cons sign signs ih =>
      -- the last sign is the innermost node, so the levels of all others are in use around it
      have hback : Moves { s with depth := s.depth + signs.length }
          { s with depth := s.depth + (sign :: signs).length } := ⟨rfl, Nat.le_refl _, .refl⟩
      have hsigned : Reads σ { s with depth := s.depth + signs.length }
          (.whole (.unary sign.2 sign.1 operand)) t :=
        .plain rfl (.part hback (Nat.le_refl _) hmax h (.noParts (.refl t)))
      exact ih (Nat.le_of_succ_le hmax) hsigned

theorem signedPath_reads (hn : ReadsNested σ nested) : ReadsWhole σ (signedPath σ nested) := by
  intro s e t hs h
  obtain ⟨signs, u, operand, v, hu, hv, rfl, rfl⟩ := signedPath_ok h
  obtain ⟨hm, hd, hmax⟩ := signs_ok hs.depth hu
  have hready : Ready u := ⟨hmax, hm.cursor.behindWord hs.word⟩
  obtain ⟨hoperand, -⟩ := pathExpression_reads hn u operand v hready hv
  refine ⟨(reads_applySigns (hd ▸ hmax) ?_).withDepth s.depth, rfl⟩
  exact hoperand.before ⟨hm.scope, hm.nextId, hm.cursor⟩ (Nat.le_of_eq hd.symm)

/-! ### Operators -/

theorem rightOperand_readsOn {tighter : Nat → Expr → Parse Expr}
    (htighter : ∀ k, ReadsOn σ (tighter k)) (least : Nat) :
    ReadsOn σ (rightOperand tighter least) := by
  intro s t u e e' hs he hd hmax h
  refine rightOperand_ok (I := fun e u =>
    Reads σ s (.whole e) u ∧ t.depth ≤ u.depth ∧ u.depth ≤ maxDepth) ?_
    ⟨he, Nat.le_refl _, hmax⟩ h
  intro k e v e' w hI hround
  obtain ⟨he', hd', hmax'⟩ :=
    htighter k s v w e e' hs hI.1 (Nat.le_trans hd hI.2.1) hI.2.2 hround
  exact ⟨he', Nat.le_trans hI.2.1 hd', hmax'⟩

theorem operation_readsOn {tighter : Nat → Expr → Parse Expr} (hn : ReadsNested σ nested)
    (htighter : ∀ least, ReadsOn σ (tighter least)) : ReadsOn σ (operation σ nested tighter) := by
  intro s t u e e' hs he hd hmax h
  rcases operation_ok h with ⟨op, w, operand, x, right, -, hmaxt, hw, hx, hright, rfl⟩ |
    ⟨op, -, hmaxt, htyped⟩ | ⟨rfl, rfl⟩
  · have hscan := scans_of_advance hw
    have hdw : w.depth = t.depth + 1 := hscan.depth
    have hmaxw : w.depth ≤ maxDepth := hdw ▸ hmaxt
    have hm : Moves t w := (moves_deeper t _).trans hscan.moves
    have hready : Ready w := hs.after he hm hmaxw
    obtain ⟨hoperand, hdx⟩ := signedPath_reads hn w operand x hready hx
    obtain ⟨hright, hdu, hmaxu⟩ := rightOperand_readsOn htighter _ w x u operand right hready
      hoperand (Nat.le_of_eq hdx.symm) (hdx ▸ hmaxw) hright
    exact ⟨reads_two rfl rfl he hs.depth hm (by omega) hmaxw hright, by omega, hmaxu⟩
  · obtain ⟨hoperator, hscan⟩ := typeOperation_ok htyped
    have hdu : u.depth = t.depth + 1 := hscan.depth
    have hm : Moves t u := (moves_deeper t _).trans hscan.moves
    refine ⟨?_, by omega, hdu ▸ hmaxt⟩
    rcases hoperator with ⟨op', rfl⟩ | ⟨value, rfl⟩
    · exact reads_one rfl rfl (he.after hm) hs.depth
    · exact reads_leaf rfl rfl (he.moves.trans hm)
  · exact ⟨he, Nat.le_refl _, hmax⟩

theorem operations_readsOn (hn : ReadsNested σ nested) (tiers least : Nat) :
    ReadsOn σ (operations σ nested tiers least) := by
  induction tiers generalizing least with
  | zero =>
      intro s t u e e' hs he hd hmax h
      obtain ⟨rfl, rfl⟩ := pure_ok.mp h
      exact ⟨he, Nat.le_refl _, hmax⟩
  | succ tiers ih => exact ((operation_readsOn hn ih).repeatWhile _).nesting

theorem operatorExpression_reads (hn : ReadsNested σ nested) (hs : Ready s) {e : Expr}
    (h : operatorExpression σ nested s = .ok e t) : Reads σ s (.whole e) t :=
  (operations_readsOn hn _ _).after (signedPath_reads hn) hs h

/-! ### Bindings -/

/-- A clause behind others, once the word or comma before it has been read. -/
theorem clause_reads {start base : Nat} {c : Clause} {cs : List Clause}
    (hn : ReadsNested σ nested) (hs : Ready s) (hstart : start < s.cursor.horizon)
    (hd : s.depth = base) (hcs : Reads σ u (.clauses start base cs) s)
    (h : clause σ nested s = .ok c t) :
    Reads σ u (.clauses start base (cs ++ [c])) t ∧ t.depth = base ∧ Ready t := by
  obtain ⟨y, name, domain, z, hscan, hz, rfl, rfl⟩ := clause_ok h
  obtain ⟨hmaxy, hdomain, hdz⟩ := hn y domain z (hs.scans hscan) hz
  have hdy : y.depth = base := hscan.depth.trans hd
  refine ⟨reads_clause_snoc ((hcs.after hscan.moves).withDepth _) ?_ ?_ hmaxy hdomain (.refl _),
    hdz.trans hdy, (hs.scans hscan).next hdomain.moves.cursor hdz⟩
  · exact Nat.lt_of_lt_of_le hstart hscan.cursor.horizon_le
  · exact Nat.add_le_add_right (Nat.le_of_eq hdy.symm) nestedCost

theorem clauses_reads {start : Nat} {cs : List Clause} (hn : ReadsNested σ nested) (hs : Ready s)
    (hstart : start < s.cursor.horizon)
    (h : commaSeparated σ (clause σ nested) s = .ok cs t) :
    (Reads σ s (.clauses start s.depth cs) t ∧ t.depth = s.depth ∧ Ready t) ∧ cs ≠ [] := by
  refine commaSeparated_ok (I := fun cs t =>
    Reads σ s (.clauses start s.depth cs) t ∧ t.depth = s.depth ∧ Ready t) ?_ ?_ h
  · intro c u hu
    have hnone : Reads σ s (.clauses start s.depth []) s := .noClauses (.refl s)
    exact clause_reads hn hs hstart rfl hnone hu
  · intro cs u v w c b hI hb hw
    obtain ⟨hcs, hd, hu⟩ := hI
    have hscan := scans_of_advance hb
    refine clause_reads hn (hu.scans hscan) ?_ (hscan.depth.trans hd) (hcs.after hscan.moves) hw
    exact Nat.lt_of_lt_of_le hstart
      (hcs.extends_scope.2.2.trans hscan.cursor).horizon_le

theorem bindingExpression_reads {kind : BindingKind} (hn : ReadsNested σ nested) (hs : Ready s)
    (hword : s.cursor.token ∈ [Token.forWord, .someWord, .everyWord]) {e : Expr}
    (h : bindingExpression σ nested kind s = .ok e t) : Reads σ s (.whole e) t := by
  obtain ⟨w, cs, x, y, action, z, hw, hx, hy, hz, rfl, rfl⟩ := bindingExpression_ok h
  have hscan := scans_of_advance hw
  obtain ⟨c, hc, rfl⟩ := advance_ok hw
  -- the first word of the binding is not empty, and nothing after it starts at its offset
  have hstart : s.cursor.offset < c.horizon :=
    Nat.lt_of_lt_of_le (hs.word hword) (Cursor.position_le_horizon_of_advance hc)
  obtain ⟨⟨hcs, hdx, hready⟩, hne⟩ := clauses_reads hn (hs.scans hscan) hstart hx
  have hskip : Scans x y := Scanning.skip _ _ _ _ hy
  obtain ⟨hmaxy, haction, -⟩ := hn y action z (hready.scans hskip) hz
  have hdy : y.depth = s.depth := hskip.depth.trans hdx
  have hcs' : Reads σ s (.clauses s.cursor.offset s.depth cs)
      { y with depth := y.depth + nestedCost } :=
    ((hcs.after hskip.moves).withDepth _).clauses_before hscan.moves (Nat.le_refl _)
  have hbehind := hcs.extends_scope.2.2.trans hskip.cursor
  refine .binding (Nat.min_le_left _ _) hne hcs'
    (Nat.lt_of_lt_of_le hstart hbehind.horizon_le) ?_ hmaxy haction (.refl _)
  exact Nat.add_le_add_right (Nat.le_of_eq hdy.symm) nestedCost

/-! ### Conditionals -/

theorem conditional_reads (hn : ReadsNested σ nested) (hs : Ready s) {e : Expr}
    (h : conditional σ nested s = .ok e t) : Reads σ s (.whole e) t := by
  obtain ⟨u, condition, v, x, yes, y, z, no, hu, hv, hscan', hy, hz, hz', rfl⟩ := conditional_ok h
  have hscan := scans_of_advance hu
  have hready := hs.scans hscan
  obtain ⟨hmaxu, hcondition, hdv⟩ := expression_reads hn u condition v hready hv
  have hready' := (hready.next hcondition.moves.cursor hdv).scans hscan'
  obtain ⟨hmaxx, hyes, hdy⟩ := hn x yes y hready' hy
  have hscan'' : Scans y z := Scanning.skip _ _ _ _ hz
  have hready'' := (hready'.next hyes.moves.cursor hdy).scans hscan''
  obtain ⟨hmaxz, hno, -⟩ := hn z no t hready'' hz'
  have hdu : u.depth = s.depth := hscan.depth
  have hdx : x.depth = s.depth := hscan'.depth.trans (hdv.trans hdu)
  have hdz' : z.depth = s.depth := hscan''.depth.trans (hdy.trans hdx)
  refine .plain rfl (.part (hscan.moves.trans (moves_deeper u _)) ?_ hmaxu hcondition
    (.part (hscan'.moves.trans (moves_deeper x _)) ?_ hmaxx hyes
      (.part (hscan''.moves.trans (moves_deeper z _)) ?_ hmaxz hno (.noParts (.refl _)))))
  · exact Nat.add_le_add_right (Nat.le_of_eq hdu.symm) nestedCost
  · exact Nat.add_le_add_right (Nat.le_of_eq hdx.symm) nestedCost
  · exact Nat.add_le_add_right (Nat.le_of_eq hdz'.symm) nestedCost

/-! ### All expressions -/

theorem singleWith_reads (hn : ReadsNested σ nested) : ReadsNested σ (singleWith σ nested) := by
  intro s e t hs h
  obtain ⟨u, hu, rfl⟩ := nesting_ok h
  obtain ⟨_, v, hv, hu⟩ := bind_ok.mp hu
  obtain ⟨hmax, rfl⟩ := descend_ok hv
  have hready : Ready { s with depth := s.depth + nestedCost } := ⟨hmax, hs.word⟩
  refine ⟨hmax, .withDepth ?_ s.depth, rfl⟩
  rw [token_bind] at hu
  dsimp only at hu
  cases htoken : s.cursor.token <;> rw [htoken] at hu
  case forWord => exact bindingExpression_reads hn hready (by simp [htoken]) hu
  case someWord => exact bindingExpression_reads hn hready (by simp [htoken]) hu
  case everyWord => exact bindingExpression_reads hn hready (by simp [htoken]) hu
  case ifWord => exact conditional_reads hn hready hu
  all_goals exact operatorExpression_reads hn hready hu

theorem singleWithin_reads (n : Nat) : ReadsNested σ (singleWithin σ n) := by
  induction n with
  | zero =>
      intro s e t hs h
      exact absurd h reject_ne_ok
  | succ n ih => exact singleWith_reads ih

/-- Every expression that is read before a terminator has a derivation, from a state in which the
levels of one expression are in use. -/
theorem complete_reads {terminator : Token} {e : Expr} (hs : s.depth ≤ maxDepth)
    (h : complete σ terminator s = .ok e t) :
    s.depth + nestedCost ≤ maxDepth ∧
      Reads σ { s with depth := s.depth + nestedCost } (.whole e) t := by
  obtain ⟨u, hu, hexpression, -⟩ := complete_ok h
  have hscan := scans_of_advance hu
  have hdu : u.depth = s.depth := hscan.depth
  have hready : Ready u := by
    obtain ⟨c, hc, rfl⟩ := advance_ok hu
    exact ⟨hs, .advance hc⟩
  obtain ⟨hmax, he, -⟩ := expression_reads (singleWithin_reads _) u e t hready hexpression
  have hdepth : s.depth + nestedCost ≤ u.depth + nestedCost := by omega
  exact ⟨hdu ▸ hmax, he.before ⟨hscan.scope, Nat.le_of_eq hscan.nextId.symm, hscan.cursor⟩ hdepth⟩

end XPath.Parse

namespace XPath

open Parse

/-- Every expression that is read from a source has a derivation, with nothing in scope before
it. -/
theorem Parser.expression_reads {source : String} {start : Nat} {language : Language}
    {host : Resolver} {warnings : List String} {terminator : Token} {e : Expr}
    (h : ((Parser.ofSource source start language host warnings).expression terminator).1 = .ok e) :
    ∃ s t, s.scope = [] ∧ s.depth = nestedCost ∧ Reads ⟨language, host⟩ s (.whole e) t := by
  obtain ⟨t, hrun⟩ := Parser.expression_ok h
  exact ⟨_, t, rfl, rfl, (complete_reads (Nat.zero_le _) hrun).2⟩

end XPath
