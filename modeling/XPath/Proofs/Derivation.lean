import XPath.Proofs.Progress
import XPath.Proofs.Scanning
import XPath.Proofs.Tree

/-!
# Derivations of expressions

`Reads σ s p t` says how a reader got a piece of an expression between two states: a whole
expression, the parts of one in their order, or the clauses of a binding. It has one rule for
references to each kind of variable, one for bindings and one for all other nodes, and keeps
only what the rules about scope, types and levels need. The state before a part has at least
the levels that are charged for the part (`chargedParts`); nothing is said of the levels after
it, since most parts give theirs back.
-/

namespace XPath

open Parse

/-! ### Charges -/

namespace Expr

/-- The expression is a further clause of the binding that starts here. -/
def continues (start : Nat) : Expr → Bool
  | binding n _ _ _ _ => n = start
  | _ => false

/-- The parts of an expression, each with the levels that are in use while it is read and were
not when the whole was started. A part that is read before the whole is known for what it is, as
the left operand of an operator, has none. -/
def chargedParts : Expr → List (Nat × Expr)
  | literal _ _ | varRef _ _ | contextItem _ | root _ | parent _ | axisStep _ _ _ | raise _ _ => []
  | filter _ base predicate => [(0, base), (1 + nestedCost, predicate)]
  | path _ a b | binary _ _ a b => [(0, a), (1, b)]
  | reverse _ a | typed _ _ a => [(0, a)]
  | unary _ _ a => [(1, a)]
  | conditional _ a b c => [(nestedCost, a), (nestedCost, b), (nestedCost, c)]
  | binding n _ _ domain action =>
    [(nestedCost, domain), (if action.continues n then 0 else nestedCost, action)]
  | call _ _ args => args.map (nestedCost, ·)
  | sequence _ items => items.map (0, ·)

/-- The node is neither a reference to a variable nor a binding. -/
def isPlain : Expr → Bool
  | varRef _ _ | binding _ _ _ _ _ => false
  | _ => true

theorem map_snd_chargedParts (e : Expr) : e.chargedParts.map Prod.snd = e.children := by
  cases e <;> simp [chargedParts, children, Function.comp_def]

/-- What occurs in a plain node is the node or occurs in one of its parts. -/
theorem occurs_of_isPlain {e sub : Expr} {bs : List Binder} (hplain : e.isPlain = true)
    (h : Occurs e bs sub) :
    (bs = [] ∧ sub = e) ∨ ∃ part ∈ e.chargedParts, Occurs part.2 bs sub := by
  cases h with
  | here _ => exact .inl ⟨rfl, rfl⟩
  | @inside _ c _ new bs hmem hocc =>
      have hnew : new = [] := by
        cases e with
        | binding n kind v domain action => cases hplain
        | _ =>
            obtain ⟨c', -, heq⟩ := List.mem_map.mp hmem
            cases heq
            rfl
      have hc := mem_children_of_scopedParts hmem
      rw [← map_snd_chargedParts] at hc
      obtain ⟨part, hpart, rfl⟩ := List.mem_map.mp hc
      rw [hnew, List.append_nil]
      exact .inr ⟨part, hpart, hocc⟩

end Expr

/-! ### Moves -/

/-- From one state to the other a reader has read on, and no variable has stayed in scope. -/
structure Moves (s t : ParseState) : Prop where
  scope : t.scope = s.scope
  nextId : s.nextId ≤ t.nextId
  cursor : s.cursor.Reaches t.cursor

theorem Moves.refl (s : ParseState) : Moves s s := ⟨rfl, Nat.le_refl _, .refl⟩

theorem Moves.trans {s t u : ParseState} (hst : Moves s t) (htu : Moves t u) : Moves s u :=
  ⟨htu.scope.trans hst.scope, Nat.le_trans hst.nextId htu.nextId, hst.cursor.trans htu.cursor⟩

/-- How many levels are in use makes no difference. -/
theorem Moves.withDepth {s t : ParseState} (h : Moves s t) (depth : Nat) :
    Moves s { t with depth } :=
  ⟨h.scope, h.nextId, h.cursor⟩

theorem Parse.Scans.moves {s t : ParseState} (h : Scans s t) : Moves s t :=
  ⟨h.scope, Nat.le_of_eq h.nextId.symm, h.cursor⟩

/-! ### Pieces and their derivations -/

/-- What a reader puts an expression together from. -/
inductive Piece
  | whole (e : Expr)
  /-- parts of an expression that was started with `base` levels in use -/
  | parts (base : Nat) (es : List (Nat × Expr))
  /-- clauses of a binding that starts at `start` -/
  | clauses (start base : Nat) (cs : List Clause)

/-- The variables that a piece leaves in scope, innermost first. -/
def Piece.declared : Piece → List RangeVariable
  | whole _ | parts _ _ => []
  | clauses _ _ cs => (cs.map Clause.bound).reverse

/-- The reader of `σ` gets a piece between two states. -/
inductive Reads (σ : Setting) : ParseState → Piece → ParseState → Prop
  | plain {s t : ParseState} {e : Expr} : e.isPlain = true →
      Reads σ s (.parts s.depth e.chargedParts) t → Reads σ s (.whole e) t
  | range {s t : ParseState} {n : Nat} {v : RangeVariable} : Moves s t →
      s.scope.find? (·.name = v.name) = some v → Reads σ s (.whole (.varRef n (.range v))) t
  | declared {s t : ParseState} {n : Nat} {name : ExpandedName} {type : SequenceType} :
      Moves s t → s.scope.find? (·.name = name) = none → σ.host.variableType name = .ok type →
      Reads σ s (.whole (.varRef n (.declared name type))) t
  | binding {s t u v : ParseState} {start : Nat} {kind : BindingKind} {cs : List Clause}
      {action : Expr} : s.cursor.horizon ≤ start → cs ≠ [] →
      Reads σ s (.clauses start s.depth cs) u →
      start < u.cursor.horizon → s.depth + nestedCost ≤ u.depth → u.depth ≤ maxDepth →
      Reads σ u (.whole action) v → Moves { v with scope := s.scope } t →
      Reads σ s (.whole (nestClauses start kind [] cs action)) t
  | noParts {s t : ParseState} {base : Nat} : Moves s t → Reads σ s (.parts base []) t
  | part {s t u v : ParseState} {base levels : Nat} {e : Expr} {es : List (Nat × Expr)} :
      Moves s u → base + levels ≤ u.depth → u.depth ≤ maxDepth → Reads σ u (.whole e) v →
      Reads σ v (.parts base es) t → Reads σ s (.parts base ((levels, e) :: es)) t
  | noClauses {s t : ParseState} {start base : Nat} : Moves s t →
      Reads σ s (.clauses start base []) t
  | clause {s t u v : ParseState} {start base : Nat} {name : ExpandedName} {domain : Expr}
      {cs : List Clause} : Moves s u → start < u.cursor.horizon →
      base + nestedCost ≤ u.depth → u.depth ≤ maxDepth → Reads σ u (.whole domain) v →
      Reads σ { v with scope := ⟨v.nextId, name, .singleItem⟩ :: v.scope, nextId := v.nextId + 1 }
        (.clauses start base cs) t →
      Reads σ s (.clauses start base (⟨⟨v.nextId, name, .singleItem⟩, domain⟩ :: cs)) t

namespace Reads

variable {σ : Setting} {s s' t t' : ParseState}

/-- After a piece only its own variables have come into scope, and the cursor has moved on. -/
theorem extends_scope {p : Piece} (h : Reads σ s p t) :
    t.scope = p.declared ++ s.scope ∧ s.nextId ≤ t.nextId ∧ s.cursor.Reaches t.cursor := by
  induction h with
  | plain _ _ ih => exact ih
  | range hm _ => exact ⟨hm.scope, hm.nextId, hm.cursor⟩
  | declared hm _ _ => exact ⟨hm.scope, hm.nextId, hm.cursor⟩
  | binding _ _ _ _ _ _ _ ht ihc iha =>
      exact ⟨ht.scope, Nat.le_trans ihc.2.1 (Nat.le_trans iha.2.1 ht.nextId),
        ihc.2.2.trans (iha.2.2.trans ht.cursor)⟩
  | noParts hm => exact ⟨hm.scope, hm.nextId, hm.cursor⟩
  | part hm _ _ _ _ ihe ihes =>
      refine ⟨?_, Nat.le_trans hm.nextId (Nat.le_trans ihe.2.1 ihes.2.1),
        hm.cursor.trans (ihe.2.2.trans ihes.2.2)⟩
      exact ihes.1.trans (ihe.1.trans hm.scope)
  | noClauses hm => exact ⟨hm.scope, hm.nextId, hm.cursor⟩
  | clause hm _ _ _ _ _ ihd ihcs =>
      obtain ⟨hscope, hid, hcursor⟩ := ihcs
      refine ⟨?_, ?_, hm.cursor.trans (ihd.2.2.trans hcursor)⟩
      · rw [hscope, ihd.1, hm.scope]
        simp [Piece.declared]
      · exact Nat.le_trans hm.nextId (Nat.le_trans ihd.2.1 (Nat.le_of_succ_le hid))

theorem moves {e : Expr} (h : Reads σ s (.whole e) t) : Moves s t :=
  ⟨h.extends_scope.1, h.extends_scope.2.1, h.extends_scope.2.2⟩

theorem moves_of_parts {base : Nat} {es : List (Nat × Expr)} (h : Reads σ s (.parts base es) t) :
    Moves s t :=
  ⟨h.extends_scope.1, h.extends_scope.2.1, h.extends_scope.2.2⟩

/-- Reading on after a piece belongs to it. -/
theorem after {p : Piece} (h : Reads σ s p t) (ht : Moves t t') : Reads σ s p t' := by
  induction h with
  | plain hp _ ih => exact .plain hp (ih ht)
  | range hm hf => exact .range (hm.trans ht) hf
  | declared hm hf htype => exact .declared (hm.trans ht) hf htype
  | binding hs hne hc hstart hd hb ha hm _ _ =>
      exact .binding hs hne hc hstart hd hb ha (hm.trans ht)
  | noParts hm => exact .noParts (hm.trans ht)
  | part hm hd hb he _ _ ihes => exact .part hm hd hb he (ihes ht)
  | noClauses hm => exact .noClauses (hm.trans ht)
  | clause hm hstart hd hb hdom _ _ ihcs => exact .clause hm hstart hd hb hdom (ihcs ht)

/-- Giving levels back after a piece belongs to it. -/
theorem withDepth {p : Piece} (h : Reads σ s p t) (depth : Nat) :
    Reads σ s p { t with depth } :=
  h.after ((Moves.refl t).withDepth depth)

/-- Parts may be counted from fewer levels. -/
theorem parts_before {base base' : Nat} {es : List (Nat × Expr)}
    (h : Reads σ s' (.parts base' es) t) (hs : Moves s s') (hb : base ≤ base') :
    Reads σ s (.parts base es) t := by
  induction es generalizing s s' with
  | nil =>
      cases h with
      | noParts hm => exact .noParts (hs.trans hm)
  | cons e es ih =>
      cases h with
      | part hm hd hmax he hes =>
          exact .part (hs.trans hm) (Nat.le_trans (Nat.add_le_add_right hb _) hd) hmax he
            (ih hes (.refl _))

theorem clauses_before {start base base' : Nat} {cs : List Clause}
    (h : Reads σ s' (.clauses start base' cs) t) (hs : Moves s s') (hb : base ≤ base') :
    Reads σ s (.clauses start base cs) t := by
  induction cs generalizing s s' with
  | nil =>
      cases h with
      | noClauses hm => exact .noClauses (hs.trans hm)
  | cons c cs ih =>
      cases h with
      | clause hm hstart hd hmax hdom hcs =>
          exact .clause (hs.trans hm) hstart (Nat.le_trans (Nat.add_le_add_right hb _) hd) hmax
            hdom (ih hcs (.refl _))

/-- Reading on before an expression belongs to it, and so does taking levels. -/
theorem before {e : Expr} (h : Reads σ s' (.whole e) t) (hs : Moves s s')
    (hd : s.depth ≤ s'.depth) : Reads σ s (.whole e) t := by
  generalize hp : Piece.whole e = p at h
  cases h with
  | plain hplain hes =>
      cases hp
      exact .plain hplain (hes.parts_before hs hd)
  | range hm hf =>
      cases hp
      exact .range (hs.trans hm) (hs.scope ▸ hf)
  | declared hm hf htype =>
      cases hp
      exact .declared (hs.trans hm) (hs.scope ▸ hf) htype
  | binding hstart hne hc hlt hdepth hmax ha hm =>
      cases hp
      refine .binding (Nat.le_trans hs.cursor.horizon_le hstart) hne (hc.clauses_before hs hd) hlt
        (Nat.le_trans (Nat.add_le_add_right hd _) hdepth) hmax ha ?_
      rw [← hs.scope]
      exact hm
  | noParts _ => cases hp
  | part _ _ _ _ _ => cases hp
  | noClauses _ => cases hp
  | clause _ _ _ _ _ _ => cases hp

end Reads

end XPath
