import XPath.Proofs.Derivation
import XPath.Proofs.Stages

/-!
# What the productions read

Every expression that a reader gives is derived by `Reads` (`complete_reads`). One lemma for each
production says so, given the same of the expressions within it, and the reader for these is
the production for single expressions itself with fewer levels left.
-/

namespace XPath.Parse

variable {σ : Setting} {nested : Parse Expr} {s t u : ParseState}

/-! ### Ready states -/

/-- The levels in use are within bounds, and a word that starts a binding has been read. -/
structure Ready (s : ParseState) : Prop where
  depth : s.depth ≤ maxDepth
  word : s.cursor.BehindWord

theorem Ready.next (hs : Ready s) (hcursor : s.cursor.Reaches t.cursor)
    (hdepth : t.depth = s.depth) : Ready t :=
  ⟨hdepth ▸ hs.depth, hcursor.behindWord hs.word⟩

theorem Ready.scans (hs : Ready s) (h : Scans s t) : Ready t :=
  hs.next h.cursor h.depth

/-- A part that reads an expression and gives its levels back. -/
def ReadsWhole (σ : Setting) (p : Parse Expr) : Prop :=
  ∀ s e t, Ready s → p s = .ok e t → Reads σ s (.whole e) t ∧ t.depth = s.depth

/-- A part that reads an expression within another: it takes the levels of one. -/
def ReadsNested (σ : Setting) (p : Parse Expr) : Prop :=
  ∀ s e t, Ready s → p s = .ok e t → s.depth + nestedCost ≤ maxDepth ∧
    Reads σ { s with depth := s.depth + nestedCost } (.whole e) t ∧ t.depth = s.depth

theorem moves_deeper (s : ParseState) (depth : Nat) : Moves s { s with depth } :=
  (Moves.refl s).withDepth depth

/-- The levels of an expression within another may be counted from the whole. -/
theorem ReadsNested.whole {p : Parse Expr} (hp : ReadsNested σ p) : ReadsWhole σ p := by
  intro s e t hs h
  obtain ⟨-, he, hd⟩ := hp s e t hs h
  exact ⟨he.before (moves_deeper s _) (Nat.le_add_right _ _), hd⟩

theorem scans_of_advance {a : Unit} (h : advance σ s = .ok a t) : Scans s t :=
  Scanning.advance s a t h

/-! ### Several parts -/

/-- A part behind others. -/
theorem reads_snoc {base levels : Nat} {e : Expr} {es : List (Nat × Expr)}
    (hes : Reads σ s (.parts base es) t) (hd : base + levels ≤ t.depth) (hmax : t.depth ≤ maxDepth)
    (he : Reads σ t (.whole e) u) : Reads σ s (.parts base (es ++ [(levels, e)])) u := by
  induction es generalizing s with
  | nil =>
      cases hes with
      | noParts hm => exact .part hm hd hmax he (.noParts (.refl u))
  | cons e' es ih =>
      cases hes with
      | part hm' hd' hmax' he' hes => exact .part hm' hd' hmax' he' (ih hes)

/-- A clause behind others. -/
theorem reads_clause_snoc {v : ParseState} {start base : Nat} {name : ExpandedName}
    {domain : Expr} {cs : List Clause} (hcs : Reads σ s (.clauses start base cs) t)
    (hstart : start < t.cursor.horizon) (hd : base + nestedCost ≤ t.depth)
    (hmax : t.depth ≤ maxDepth) (hdom : Reads σ t (.whole domain) u)
    (hv : Moves { u with scope := ⟨u.nextId, name, .singleItem⟩ :: u.scope
                         nextId := u.nextId + 1 } v) :
    Reads σ s (.clauses start base (cs ++ [⟨⟨u.nextId, name, .singleItem⟩, domain⟩])) v := by
  induction cs generalizing s with
  | nil =>
      cases hcs with
      | noClauses hm => exact .clause hm hstart hd hmax hdom (.noClauses hv)
  | cons c cs ih =>
      cases hcs with
      | clause hm' hstart' hd' hmax' hdom' hcs =>
          exact .clause hm' hstart' hd' hmax' hdom' (ih hcs)

/-- Several expressions with commas between them, each within another. -/
theorem commaSeparated_reads {es : List Expr} (hn : ReadsNested σ nested) (hs : Ready s)
    (h : commaSeparated σ nested s = .ok es t) :
    (Reads σ s (.parts s.depth (es.map (nestedCost, ·))) t ∧ t.depth = s.depth ∧ Ready t) ∧
      es ≠ [] := by
  refine commaSeparated_ok (I := fun es u =>
    Reads σ s (.parts s.depth (es.map (nestedCost, ·))) u ∧ u.depth = s.depth ∧ Ready u) ?_ ?_ h
  · intro e u hu
    obtain ⟨hmax, he, hd⟩ := hn s e u hs hu
    exact ⟨.part (moves_deeper s _) (Nat.le_refl _) hmax he (.noParts (.refl u)), hd,
      hs.next he.moves.cursor hd⟩
  · intro es u v w e b hI hb he
    obtain ⟨hes, hd, hu⟩ := hI
    have hscan := scans_of_advance hb
    obtain ⟨hmax, he, hd'⟩ := hn v e w (hu.scans hscan) he
    have hdv : v.depth = s.depth := hscan.depth.trans hd
    have hes' : Reads σ s (.parts s.depth (es.map (nestedCost, ·)))
        { v with depth := v.depth + nestedCost } :=
      (hes.after hscan.moves).withDepth _
    refine ⟨?_, hd'.trans hdv, (hu.scans hscan).next he.moves.cursor hd'⟩
    rw [List.map_append]
    exact reads_snoc hes' (Nat.le_of_eq (by rw [hdv])) hmax he

/-- Levels that all parts take may be taken before the first. -/
theorem reads_parts_deeper {base levels : Nat} {es : List Expr}
    (h : Reads σ s (.parts base (es.map (levels, ·))) t) :
    Reads σ s (.parts (base + levels) (es.map (0, ·))) t := by
  induction es generalizing s with
  | nil =>
      cases h with
      | noParts hm => exact .noParts hm
  | cons e es ih =>
      cases h with
      | part hm hd hmax he hes => exact .part hm hd hmax he (ih hes)

/-- One expression or a sequence, within another. -/
theorem expression_reads (hn : ReadsNested σ nested) : ReadsNested σ (expression σ nested) := by
  intro s e t hs h
  obtain ⟨items, hitems, he⟩ := expression_ok h
  obtain ⟨⟨hes, hd, -⟩, hne⟩ := commaSeparated_reads hn hs hitems
  -- the reader took the levels anew for each item, and a sequence takes them once, before the first
  have hdeep : Reads σ { s with depth := s.depth + nestedCost }
      (.parts (s.depth + nestedCost) (items.map (0, ·))) t :=
    (reads_parts_deeper hes).parts_before ⟨rfl, Nat.le_refl _, .refl⟩ (Nat.le_refl _)
  have hmax : s.depth + nestedCost ≤ maxDepth := by
    obtain ⟨first, others, rfl⟩ := List.exists_cons_of_ne_nil hne
    cases hes with
    | part _ hd hmax _ _ => exact Nat.le_trans hd hmax
  rcases he with rfl | ⟨rfl, -⟩
  · cases hdeep with
    | part hm hd' _ he hrest =>
        cases hrest with
        | noParts hm' => exact ⟨hmax, (he.after hm').before hm hd', hd⟩
  · exact ⟨hmax, .plain rfl hdeep, hd⟩

/-! ### Leaves -/

/-- A node without parts. -/
theorem reads_leaf {e : Expr} (hplain : e.isPlain = true) (hparts : e.chargedParts = [])
    (hm : Moves s t) : Reads σ s (.whole e) t := by
  refine .plain hplain ?_
  rw [hparts]
  exact .noParts hm

theorem leaf_reads {make : Nat → Expr} (hplain : ∀ n, (make n).isPlain = true)
    (hparts : ∀ n, (make n).chargedParts = []) : ReadsWhole σ (leaf σ make) := by
  intro s e t hs h
  obtain ⟨hu, rfl⟩ := leaf_ok h
  have hscan := scans_of_advance hu
  exact ⟨reads_leaf (hplain _) (hparts _) hscan.moves, hscan.depth⟩

theorem stringLiteral_reads : ReadsWhole σ (stringLiteral σ) := by
  intro s e t hs h
  unfold stringLiteral at h
  rw [value_bind] at h
  exact leaf_reads (fun _ => rfl) (fun _ => rfl) s e t hs h

theorem numericLiteral_reads : ReadsWhole σ (numericLiteral σ) := by
  intro s e t hs h
  obtain ⟨number, -, h⟩ := numericLiteral_ok h
  exact leaf_reads (fun _ => rfl) (fun _ => rfl) s e t hs h

theorem variableReference_reads : ReadsWhole σ (variableReference σ) := by
  intro s e t hs h
  obtain ⟨u, v, name, hu, -, hv, hname, href⟩ := variableReference_ok h
  have hscan : Scans s t := (scans_of_advance hu).trans
    ((scans_of_advance hv).trans (Scanning.expandName _ _ _ _ _ hname))
  rw [hscan.scope] at href
  rcases href with ⟨found, hfind, rfl⟩ | ⟨type, hfind, htype, rfl⟩
  · have hfound : found.name = name := by simpa using List.find?_some hfind
    exact ⟨.range hscan.moves (hfound ▸ hfind), hscan.depth⟩
  · exact ⟨.declared hscan.moves hfind htype, hscan.depth⟩

/-! ### Steps without predicates -/

theorem bareStep_reads (startsPattern : Bool) : ReadsWhole σ (bareStep σ startsPattern) := by
  intro s e t hs h
  obtain ⟨test, htest, rfl⟩ := bareStep_ok h
  have hscan := Scanning.nodeTest _ _ _ _ htest
  exact ⟨reads_leaf rfl rfl hscan.moves, hscan.depth⟩

theorem attributeStep_reads : ReadsWhole σ (attributeStep σ) := by
  intro s e t hs h
  obtain ⟨u, test, hu, htest, rfl⟩ := attributeStep_ok h
  have hscan := (scans_of_advance hu).trans (Scanning.nodeTest _ _ _ _ htest)
  exact ⟨reads_leaf rfl rfl hscan.moves, hscan.depth⟩

theorem axisStep_reads : ReadsWhole σ (axisStep σ) := by
  intro s e t hs h
  obtain ⟨axis, u, test, -, hu, htest, rfl⟩ := axisStep_ok h
  have hscan := (scans_of_advance hu).trans (Scanning.nodeTest _ _ _ _ htest)
  exact ⟨reads_leaf rfl rfl hscan.moves, hscan.depth⟩

/-! ### Calls -/

theorem arguments_reads {args : List Expr} (hn : ReadsNested σ nested) (hs : Ready s)
    (h : arguments σ nested s = .ok args t) :
    Reads σ s (.parts s.depth (args.map (nestedCost, ·))) t ∧ t.depth = s.depth := by
  rcases arguments_ok h with ⟨rfl, ht⟩ | ⟨u, hargs, ht⟩
  · have hscan := scans_of_advance ht
    exact ⟨.noParts hscan.moves, hscan.depth⟩
  · obtain ⟨⟨hes, hd, -⟩, -⟩ := commaSeparated_reads hn hs hargs
    have hscan : Scans u t := Scanning.skip _ _ _ _ ht
    exact ⟨hes.after hscan.moves, hscan.depth.trans hd⟩

theorem functionCall_reads (hn : ReadsNested σ nested) : ReadsWhole σ (functionCall σ nested) := by
  intro s e t hs h
  obtain ⟨u, args, hu, hargs, hcall⟩ := functionCall_ok h
  have hscan := scans_of_advance hu
  obtain ⟨hparts, hd⟩ := arguments_reads hn (hs.scans hscan) hargs
  have hparts' : Reads σ s (.parts s.depth (args.map (nestedCost, ·))) t :=
    hparts.parts_before hscan.moves (Nat.le_of_eq hscan.depth.symm)
  refine ⟨?_, hd.trans hscan.depth⟩
  -- what the call is turned into may leave its arguments out, with all that they bind
  have hdrop : Moves s t := hscan.moves.trans hparts.moves_of_parts
  rcases hcall with ⟨function, rfl⟩ | ⟨value, rfl⟩ | ⟨err, rfl⟩
  · exact .plain rfl hparts'
  · exact reads_leaf rfl rfl hdrop
  · exact reads_leaf rfl rfl hdrop

/-! ### Primary expressions -/

theorem parenthesized_reads (hn : ReadsNested σ nested) :
    ReadsWhole σ (parenthesized σ nested) := by
  intro s e t hs h
  obtain ⟨u, hu, ⟨ht, rfl⟩ | ⟨v, hv, ht⟩⟩ := parenthesized_ok h
  · have hscan := (scans_of_advance hu).trans (scans_of_advance ht)
    exact ⟨reads_leaf rfl rfl hscan.moves, hscan.depth⟩
  · have hscan := scans_of_advance hu
    obtain ⟨he, hd⟩ := (expression_reads hn).whole u e v (hs.scans hscan) hv
    have hskip : Scans v t := Scanning.skip _ _ _ _ ht
    exact ⟨(he.after hskip.moves).before hscan.moves (Nat.le_of_eq hscan.depth.symm),
      hskip.depth.trans (hd.trans hscan.depth)⟩

theorem primary_reads (hn : ReadsNested σ nested) (startsPattern : Bool) :
    ReadsWhole σ (primary σ nested startsPattern) := by
  intro s e t hs h
  unfold primary at h
  rw [token_bind] at h
  cases htoken : s.cursor.token <;> rw [htoken] at h
  case dollar => exact variableReference_reads s e t hs h
  case leftParen => exact parenthesized_reads hn s e t hs h
  case stringLiteral => exact stringLiteral_reads s e t hs h
  case number => exact numericLiteral_reads s e t hs h
  case function => exact functionCall_reads hn s e t hs h
  case dot => exact leaf_reads (fun _ => rfl) (fun _ => rfl) s e t hs h
  case dotDot => exact leaf_reads (fun _ => rfl) (fun _ => rfl) s e t hs h
  case nodeKind => exact bareStep_reads _ s e t hs h
  case name => exact bareStep_reads _ s e t hs h
  case namespaceWildcard => exact bareStep_reads _ s e t hs h
  case localWildcard => exact bareStep_reads _ s e t hs h
  case star => exact bareStep_reads _ s e t hs h
  case atSign => exact attributeStep_reads s e t hs h
  case axis => exact axisStep_reads s e t hs h
  all_goals
    obtain ⟨_, _, -, hfail⟩ := bind_ok.mp h
    exact absurd hfail reject_ne_ok

end XPath.Parse
