import XPath.Proofs.Compounds

/-!
# Scoping

In the tree that is read, every variable is bound once, and every reference means the innermost
binding of its name around it, with the type of that binding (`Parser.lexically_scoped`). While a
binding is read its variables stand in scope without a type; when it is complete they get
theirs, on the references as well as in the binding, so that the two agree at every moment
between.
-/

namespace XPath

open Parse

/-! ### Fresh ids -/

/-- The ids are distinct, and all were given out between two moments. -/
def FreshIds (low high : Nat) (ids : List Nat) : Prop :=
  ids.Nodup ∧ ∀ id ∈ ids, low ≤ id ∧ id < high

namespace FreshIds

variable {low mid high : Nat} {ids ids' : List Nat}

theorem nil : FreshIds low high [] :=
  ⟨List.nodup_nil, fun _ h => absurd h List.not_mem_nil⟩

theorem widen {low' high' : Nat} (h : FreshIds low high ids) (hlow : low' ≤ low)
    (hhigh : high ≤ high') : FreshIds low' high' ids := by
  refine ⟨h.1, fun id hid => ?_⟩
  have := h.2 id hid
  omega

theorem append (h : FreshIds low mid ids) (h' : FreshIds mid high ids') (hlow : low ≤ mid)
    (hhigh : mid ≤ high) : FreshIds low high (ids ++ ids') := by
  refine ⟨List.nodup_append.mpr ⟨h.1, h'.1, ?_⟩, ?_⟩
  · intro a ha b hb hab
    have := h.2 a ha
    have := h'.2 b hb
    omega
  · intro id hid
    rcases List.mem_append.mp hid with hid | hid
    · have := h.2 id hid
      omega
    · have := h'.2 id hid
      omega

/-- The next id after some. -/
theorem cons (h : FreshIds low mid ids) (hlow : low ≤ mid) :
    FreshIds low (mid + 1) (mid :: ids) := by
  refine ⟨List.nodup_cons.mpr ⟨fun hmem => ?_, h.1⟩, ?_⟩
  · exact absurd (h.2 mid hmem).2 (Nat.lt_irrefl mid)
  · intro id hid
    rcases List.mem_cons.mp hid with rfl | hid
    · omega
    · have := h.2 id hid
      omega

end FreshIds

/-! ### Bound ids -/

namespace Expr

theorem boundIds_withTypes (known : List RangeVariable) (e : Expr) :
    (withTypes known e).boundIds = e.boundIds := by
  rw [withTypes_eq_mapRange, boundIds_mapRange]

/-- The ids of the variables and within the domains of several clauses. -/
def clauseIds (cs : List Clause) : List Nat :=
  cs.flatMap fun c => c.bound.id :: c.domain.boundIds

theorem boundIds_nestClauses (start : Nat) (kind : BindingKind) (known : List RangeVariable)
    (cs : List Clause) (action : Expr) :
    (nestClauses start kind known cs action).boundIds = clauseIds cs ++ action.boundIds := by
  induction cs generalizing known with
  | nil => exact boundIds_withTypes known action
  | cons c cs ih =>
      simp only [nestClauses, boundIds, boundIds_withTypes, ih, clauseIds, List.flatMap_cons,
        List.cons_append, List.append_assoc]

/-- The bindings around a place are bindings of the expression. -/
theorem mem_boundIds_of_occurs {e sub : Expr} {bs : List Binder} (h : Occurs e bs sub) :
    ∀ b ∈ bs, b.bound.id ∈ e.boundIds := by
  induction h with
  | here _ => exact fun _ hb => absurd hb List.not_mem_nil
  | @inside e c sub new bs hmem _ ih =>
      intro b hb
      rw [boundIds_eq]
      -- a binding is one within the part, or the expression itself
      rcases List.mem_append.mp hb with hb | hb
      · refine List.mem_append_right _ (List.mem_flatMap.mpr ⟨c, ?_, ih b hb⟩)
        exact mem_children_of_scopedParts hmem
      · refine List.mem_append_left _ ?_
        cases e with
        | binding n kind v domain action =>
            simp only [scopedParts, List.mem_cons, Prod.mk.injEq, List.not_mem_nil,
              or_false] at hmem
            rcases hmem with ⟨rfl, -⟩ | ⟨rfl, -⟩
            · exact absurd hb List.not_mem_nil
            · rw [List.mem_singleton.mp hb]
              exact List.mem_cons_self
        | _ =>
            obtain ⟨c', -, heq⟩ := List.mem_map.mp hmem
            cases heq
            exact absurd hb List.not_mem_nil

end Expr

/-- The ids that are bound in a piece. -/
def Piece.boundIds : Piece → List Nat
  | whole e => e.boundIds
  | parts _ es => es.flatMap fun part => part.2.boundIds
  | clauses _ _ cs => Expr.clauseIds cs

theorem Expr.boundIds_of_isPlain {e : Expr} (h : e.isPlain = true) :
    e.boundIds = e.chargedParts.flatMap fun part => part.2.boundIds := by
  have hown : e.ownIds = [] := by cases e <;> first | rfl | cases h
  rw [boundIds_eq, hown, ← map_snd_chargedParts, List.flatMap_map, List.nil_append]

/-- The ids bound in a piece were given out while it was read. -/
theorem Reads.freshIds {σ : Setting} {s t : ParseState} {p : Piece} (h : Reads σ s p t) :
    FreshIds s.nextId t.nextId p.boundIds := by
  induction h with
  | plain hplain _ ih =>
      rw [Piece.boundIds, Expr.boundIds_of_isPlain hplain]
      exact ih
  | range _ _ => exact .nil
  | declared _ _ _ => exact .nil
  | binding _ _ hcs _ _ _ ha hm ihcs iha =>
      rw [Piece.boundIds, Expr.boundIds_nestClauses]
      exact (ihcs.append iha hcs.extends_scope.2.1 ha.extends_scope.2.1).widen (Nat.le_refl _)
        hm.nextId
  | noParts _ => exact .nil
  | part hm _ _ he hes ihe ihes =>
      exact (ihe.append ihes he.extends_scope.2.1 hes.extends_scope.2.1).widen hm.nextId
        (Nat.le_refl _)
  | noClauses _ => exact .nil
  | clause hm _ _ _ hdom hcs ihdom ihcs =>
      have hle := hdom.extends_scope.2.1
      exact ((ihdom.cons hle).append ihcs (Nat.le_succ_of_le hle) hcs.extends_scope.2.1).widen
        hm.nextId (Nat.le_refl _)

/-! ### References -/

/-- Where these variables are in scope, the reference means the innermost of its name, or a
variable that the host declares if there is none. -/
def VariableRef.Resolves (host : Resolver) (scope : List RangeVariable) : VariableRef → Prop
  | range v => scope.find? (·.name = v.name) = some v
  | declared name type => scope.find? (·.name = name) = none ∧ host.variableType name = .ok type

/-- All references in an expression resolve, where these variables are in scope around it. -/
def Expr.Scoped (host : Resolver) (scope : List RangeVariable) (e : Expr) : Prop :=
  ∀ bs n ref, Occurs e bs (.varRef n ref) → ref.Resolves host (bs.map Binder.bound ++ scope)

namespace Expr

variable {host : Resolver} {scope : List RangeVariable}

theorem scoped_varRef {n : Nat} {ref : VariableRef} (h : ref.Resolves host scope) :
    Scoped host scope (varRef n ref) := by
  intro bs m ref' hocc
  obtain ⟨rfl, heq⟩ := occurs_varRef hocc
  cases heq
  exact h

theorem scoped_of_isPlain {e : Expr} (hplain : e.isPlain = true)
    (h : ∀ part ∈ e.chargedParts, Scoped host scope part.2) : Scoped host scope e := by
  intro bs n ref hocc
  rcases occurs_of_isPlain hplain hocc with ⟨-, rfl⟩ | ⟨part, hpart, hocc⟩
  · cases hplain
  · exact h part hpart bs n ref hocc

theorem scoped_binding {n : Nat} {kind : BindingKind} {v : RangeVariable} {domain action : Expr}
    (hdomain : Scoped host scope domain) (haction : Scoped host (v :: scope) action) :
    Scoped host scope (binding n kind v domain action) := by
  intro bs m ref hocc
  rcases occurs_binding hocc with ⟨-, heq⟩ | hin | ⟨bs', rfl, hin⟩
  · cases heq
  · exact hdomain bs m ref hin
  · rw [List.map_append, List.append_assoc]
    exact haction bs' m ref hin

/-- The variables around an expression may be changed, on all references to them at once, as long
as they keep their names. -/
theorem scoped_mapRange {f : RangeVariable → RangeVariable} {e : Expr}
    (hname : ∀ v, (f v).name = v.name) (hbound : ∀ v, v.id ∈ e.boundIds → f v = v)
    (h : Scoped host scope e) : Scoped host (scope.map f) (e.mapRange f) := by
  intro bs n ref hocc
  obtain ⟨sub, hsub, heq⟩ := occurs_mapRange.mp hocc
  have hbs : bs.map Binder.bound = (bs.map Binder.bound).map f := by
    rw [List.map_map]
    exact List.map_congr_left fun b hb => (hbound _ (mem_boundIds_of_occurs hsub b hb)).symm
  rw [hbs, ← List.map_append]
  -- no name changes, so that the innermost variable of a name stays where it is
  have hfind : ∀ (name : ExpandedName) (l : List RangeVariable),
      (l.map f).find? (·.name = name) = (l.find? (·.name = name)).map f := by
    intro name l
    rw [List.find?_map]
    congr 2
    funext v
    simp [hname]
  rcases varRef_eq_mapRange heq with ⟨v, rfl, rfl⟩ | ⟨name, type, rfl, rfl⟩
  · have hv := h bs n _ hsub
    show List.find? _ _ = _
    rw [hname, hfind]
    exact congrArg _ hv
  · obtain ⟨hnone, htype⟩ := h bs n _ hsub
    refine ⟨?_, htype⟩
    rw [hfind]
    exact congrArg _ hnone

theorem scoped_withTypes {known : List RangeVariable} {e : Expr}
    (hknown : ∀ v ∈ known, v.id ∉ e.boundIds) (h : Scoped host scope e) :
    Scoped host (scope.map (RangeVariable.typedBy known)) (withTypes known e) := by
  rw [withTypes_eq_mapRange]
  refine scoped_mapRange (fun v => (RangeVariable.typedBy_same known v).2) (fun v hv => ?_) h
  exact RangeVariable.typedBy_of_notMem fun w hw heq => hknown w hw (heq ▸ hv)

/-! ### Clauses -/

/-- The domains of clauses resolve, each with the variables of the clauses before it in scope,
and what follows holds with all of them in scope. -/
def ClausesScoped (host : Resolver) (scope : List RangeVariable) : List Clause → Expr → Prop
  | [], action => Scoped host scope action
  | c :: cs, action =>
    Scoped host scope c.domain ∧ ClausesScoped host (c.bound :: scope) cs action

/-- Clauses get their types from the first to the last. At every one, the variables in scope
differ from those in the state of the reader only in the types that are known by then. -/
theorem scoped_nestClauses {start : Nat} {kind : BindingKind} {known : List RangeVariable}
    {cs : List Clause} {action : Expr} (h : ClausesScoped host scope cs action)
    (hids : (clauseIds cs ++ action.boundIds).Nodup)
    (hscope : ∀ v ∈ scope, v.id ∉ clauseIds cs ++ action.boundIds)
    (hknown : ∀ v ∈ known, v.id ∈ scope.map RangeVariable.id) :
    Scoped host (scope.map (RangeVariable.typedBy known))
      (nestClauses start kind known cs action) := by
  induction cs generalizing known scope with
  | nil =>
      refine scoped_withTypes (fun v hv hmem => ?_) h
      obtain ⟨w, hw, hid⟩ := List.mem_map.mp (hknown v hv)
      exact hscope w hw (by rw [hid]; exact hmem)
  | cons c cs ih =>
      obtain ⟨hdomain, hrest⟩ := h
      rw [clauseIds, List.flatMap_cons, List.cons_append, List.cons_append, ← clauseIds,
        List.append_assoc] at hids hscope
      have hoff : ∀ v ∈ known, v.id ∉ c.bound.id :: (c.domain.boundIds ++
          (clauseIds cs ++ action.boundIds)) := by
        intro v hv hmem
        obtain ⟨w, hw, hid⟩ := List.mem_map.mp (hknown v hv)
        exact hscope w hw (by rw [hid]; exact hmem)
      rw [nestClauses]
      refine scoped_binding ?_ ?_
      · refine scoped_withTypes (fun v hv hmem => hoff v hv ?_) hdomain
        exact List.mem_cons_of_mem _ (List.mem_append_left _ hmem)
      · -- the reader has the variable in scope without the type that the binding gives it
        generalize hbound : ({ c.bound with
          type := ⟨(withTypes known c.domain).itemType, .exactlyOne⟩ } : RangeVariable) = bound
        have hboundId : bound.id = c.bound.id := by rw [← hbound]
        have htyped : bound :: scope.map (RangeVariable.typedBy known) =
            (c.bound :: scope).map (RangeVariable.typedBy (known ++ [bound])) := by
          rw [List.map_cons]
          congr 1
          · rw [RangeVariable.typedBy_snoc, RangeVariable.typedBy_of_notMem]
            · rw [RangeVariable.retype, if_pos hboundId.symm, ← hbound]
            · exact fun w hw heq => hoff w hw (heq ▸ List.mem_cons_self)
          · refine List.map_congr_left fun v hv => ?_
            rw [RangeVariable.typedBy_snoc, RangeVariable.retype_of_ne]
            rw [(RangeVariable.typedBy_same known v).1, hboundId]
            exact fun heq => hscope v hv (heq ▸ List.mem_cons_self)
        rw [htyped]
        have hnodup := List.nodup_cons.mp hids
        refine ih hrest (List.nodup_append.mp hnodup.2).2.1 ?_ ?_
        · intro v hv hmem
          rcases List.mem_cons.mp hv with rfl | hv
          · exact hnodup.1 (List.mem_append_right _ hmem)
          · exact hscope v hv (List.mem_cons_of_mem _ (List.mem_append_right _ hmem))
        · intro v hv
          rcases List.mem_append.mp hv with hv | hv
          · exact List.mem_cons_of_mem _ (hknown v hv)
          · rw [List.mem_singleton.mp hv, hboundId]
            exact List.mem_cons_self

end Expr

/-! ### Derivations -/

/-- The references in a piece resolve, and so do those of an action after clauses. -/
def Piece.Scoped (host : Resolver) (scope : List RangeVariable) : Piece → Prop
  | whole e => e.Scoped host scope
  | parts _ es => ∀ part ∈ es, part.2.Scoped host scope
  | clauses _ _ cs => ∀ action, action.Scoped host ((cs.map Clause.bound).reverse ++ scope) →
      Expr.ClausesScoped host scope cs action

/-- The ids of all variables in scope have been given out. -/
def ScopeBelow (s : ParseState) : Prop :=
  ∀ v ∈ s.scope, v.id < s.nextId

theorem ScopeBelow.of_moves {s t : ParseState} (hs : ScopeBelow s) (h : Moves s t) :
    ScopeBelow t := by
  intro v hv
  rw [h.scope] at hv
  exact Nat.lt_of_lt_of_le (hs v hv) h.nextId

theorem ScopeBelow.declare {s : ParseState} (hs : ScopeBelow s) (name : ExpandedName) :
    ScopeBelow { s with scope := ⟨s.nextId, name, .singleItem⟩ :: s.scope
                        nextId := s.nextId + 1 } := by
  intro v hv
  rcases List.mem_cons.mp hv with rfl | hv
  · exact Nat.lt_succ_self _
  · exact Nat.lt_succ_of_lt (hs v hv)

theorem ScopeBelow.of_clauses {σ : Setting} {s t : ParseState} {start base : Nat}
    {cs : List Clause} (hs : ScopeBelow s) (h : Reads σ s (.clauses start base cs) t) :
    ScopeBelow t := by
  intro v hv
  rw [h.extends_scope.1] at hv
  rcases List.mem_append.mp hv with hv | hv
  · obtain ⟨c, hc, rfl⟩ := List.mem_map.mp (List.mem_reverse.mp hv)
    exact (h.freshIds.2 _ (List.mem_flatMap.mpr ⟨c, hc, List.mem_cons_self⟩)).2
  · exact Nat.lt_of_lt_of_le (hs v hv) h.extends_scope.2.1

/-- While an expression is read, its references resolve among the variables then in scope. -/
theorem Reads.scoped {σ : Setting} {s t : ParseState} {p : Piece} (h : Reads σ s p t)
    (hs : ScopeBelow s) : p.Scoped σ.host s.scope := by
  induction h with
  | plain hplain _ ih => exact Expr.scoped_of_isPlain hplain (ih hs)
  | range _ hfind => exact Expr.scoped_varRef hfind
  | declared _ hfind htype => exact Expr.scoped_varRef ⟨hfind, htype⟩
  | @binding s t u v start kind cs action _ _ hcs _ _ _ ha hm ihcs iha =>
      have haction := iha (hs.of_clauses hcs)
      rw [hcs.extends_scope.1] at haction
      have hfresh : FreshIds s.nextId v.nextId (Expr.clauseIds cs ++ action.boundIds) :=
        hcs.freshIds.append ha.freshIds hcs.extends_scope.2.1 ha.extends_scope.2.1
      -- of the variables around the binding none gets a type here
      have hnested : Expr.Scoped σ.host (s.scope.map (RangeVariable.typedBy []))
          (nestClauses start kind [] cs action) := by
        refine Expr.scoped_nestClauses (ihcs hs action haction) hfresh.1 ?_ ?_
        · intro w hw hmem
          exact absurd (hs w hw) (Nat.not_lt_of_le (hfresh.2 _ hmem).1)
        · exact fun w hw => absurd hw List.not_mem_nil
      have hid : RangeVariable.typedBy [] = id := rfl
      rw [hid, List.map_id] at hnested
      exact hnested
  | noParts _ => exact fun _ hpart => absurd hpart List.not_mem_nil
  | part hm _ _ he _ ihe ihes =>
      intro part hpart
      have hu := hs.of_moves hm
      rcases List.mem_cons.mp hpart with rfl | hpart
      · have := ihe hu
        rw [hm.scope] at this
        exact this
      · have := ihes (hu.of_moves he.moves)
        rw [he.moves.scope, hm.scope] at this
        exact this part hpart
  | noClauses _ => exact fun _ haction => haction
  | clause hm _ _ _ hdom _ ihdom ihcs =>
      intro action haction
      have hu := hs.of_moves hm
      have hv := hu.of_moves hdom.moves
      have hscope := hdom.moves.scope.trans hm.scope
      refine ⟨?_, ?_⟩
      · have := ihdom hu
        rw [hm.scope] at this
        exact this
      · have := ihcs (hv.declare _) action
        rw [hscope] at this
        refine this ?_
        rw [List.map_cons, List.reverse_cons, List.append_assoc] at haction
        exact haction

/-! ### Sources -/

/-- The scoping rules on a finished tree. -/
structure Expr.LexicallyScoped (host : Resolver) (e : Expr) : Prop where
  /-- no variable is bound twice -/
  nodup : e.boundIds.Nodup
  /-- a reference to a bound variable stands in the action of its binding, of all those around it
  the innermost for its name, and has the type of that binding -/
  range : ∀ bs n v, e.Occurs bs (.varRef n (.range v)) →
    (bs.map Binder.bound).find? (·.name = v.name) = some v
  /-- a reference to a declared variable stands in no action of a binding for its name, and has
  the type that the host declares -/
  declared : ∀ bs n name type, e.Occurs bs (.varRef n (.declared name type)) →
    (∀ b ∈ bs, b.bound.name ≠ name) ∧ host.variableType name = .ok type

/-- Every expression that is read from a source keeps the scoping rules. -/
theorem Parser.lexically_scoped {source : String} {start : Nat} {language : Language}
    {host : Resolver} {warnings : List String} {terminator : Token} {e : Expr}
    (h : ((Parser.ofSource source start language host warnings).expression terminator).1 = .ok e) :
    e.LexicallyScoped host := by
  obtain ⟨s, t, hscope, -, hreads⟩ := Parser.expression_reads h
  have hbelow : ScopeBelow s := fun v hv => absurd (hscope ▸ hv) List.not_mem_nil
  have hscoped : e.Scoped host s.scope := hreads.scoped hbelow
  rw [hscope] at hscoped
  constructor
  case nodup => exact hreads.freshIds.1
  case range =>
    intro bs n v hocc
    have := hscoped bs n _ hocc
    rw [List.append_nil] at this
    exact this
  case declared =>
    intro bs n name type hocc
    obtain ⟨hnone, htype⟩ := hscoped bs n _ hocc
    rw [List.append_nil] at hnone
    refine ⟨fun b hb hname => ?_, htype⟩
    have := List.find?_eq_none.mp hnone b.bound (List.mem_map_of_mem hb)
    exact this (by simpa using hname)

/-- Two clauses for one name, where the second domain refers to the first variable. -/
theorem Parser.lexically_scoped_of_two_clauses :
    ∃ e, ((Parser.ofSource "for $x in 1, $x in ($x, 2) return $x" 0 .expression
        ({} : StaticContext).resolver []).expression .eof).1 = .ok e ∧
      e.LexicallyScoped ({} : StaticContext).resolver := by
  obtain ⟨e, he⟩ := exists_of_isOk (r := ((Parser.ofSource "for $x in 1, $x in ($x, 2) return $x" 0
    .expression ({} : StaticContext).resolver []).expression .eof).1) (by decide +kernel)
  exact ⟨e, he, Parser.lexically_scoped he⟩

end XPath
