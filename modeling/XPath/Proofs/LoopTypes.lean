import XPath.Proofs.Scoping

/-!
# Types of bound variables

A bound variable has the type of the items of its domain, taken when its own construct is
complete and before the constructs around it are: at that moment the references to variables
of those have no type yet (`Parser.loop_type`). They get one later, but the type that has been
drawn from them stays, so that it is the one of the finished domain exactly if it does not
depend on them.
-/

namespace XPath

open Parse

/-! ### References without a type -/

/-- The variable as it was before it had a type, if its id is one of `ids`. -/
def RangeVariable.forget (ids : List Nat) (v : RangeVariable) : RangeVariable :=
  if v.id ∈ ids then { v with type := .singleItem } else v

theorem RangeVariable.forget_typedBy {ids : List Nat} {known : List RangeVariable}
    (h : ∀ w ∈ known, w.id ∈ ids) (v : RangeVariable) :
    (v.typedBy known).forget ids = v.forget ids := by
  obtain ⟨hid, hname⟩ := typedBy_same known v
  by_cases hv : v.id ∈ ids
  · rw [forget, forget, if_pos (hid ▸ hv), if_pos hv, hid, hname]
  · rw [typedBy_of_notMem fun w hw heq => hv (heq ▸ h w hw)]

theorem RangeVariable.forget_of_open {ids : List Nat} {v : RangeVariable}
    (h : v.id ∈ ids → v.type = .singleItem) : v.forget ids = v := by
  by_cases hv : v.id ∈ ids
  · rw [forget, if_pos hv, ← h hv]
  · exact if_neg hv

/-- The ids of the bindings around a place that belong to other constructs than the one that
starts at `start`. -/
def outerIds (start : Nat) (bs : List Binder) : List Nat :=
  (bs.filter (·.start ≠ start)).map (·.bound.id)

theorem outerIds_snoc (start : Nat) (bs : List Binder) (b : Binder) :
    outerIds start (bs ++ [b]) =
      outerIds start bs ++ if b.start = start then [] else [b.bound.id] := by
  unfold outerIds
  rw [List.filter_append, List.map_append]
  by_cases hb : b.start = start
  · simp [hb]
  · simp [hb]

namespace Expr

/-- The expression with the references to these variables as they were before they had a type. -/
def untype (ids : List Nat) (e : Expr) : Expr :=
  e.mapRange (RangeVariable.forget ids)

theorem untype_withTypes {ids : List Nat} {known : List RangeVariable}
    (h : ∀ w ∈ known, w.id ∈ ids) (e : Expr) : (withTypes known e).untype ids = e.untype ids := by
  rw [untype, withTypes_eq_mapRange, mapRange_mapRange]
  exact mapRange_congr fun _ _ v _ => RangeVariable.forget_typedBy h v

theorem untype_nil (e : Expr) : e.untype [] = e :=
  (mapRange_congr fun _ _ _ _ => if_neg List.not_mem_nil).trans (mapRange_id e)

/-- Only the set of ids matters to what is untyped. -/
theorem untype_congr {ids ids' : List Nat} (h : ∀ id, id ∈ ids ↔ id ∈ ids') (e : Expr) :
    e.untype ids = e.untype ids' := by
  refine mapRange_congr fun _ _ v _ => ?_
  simp only [RangeVariable.forget, h]

/-- The references to variables that the expression does not bind have no type yet. -/
def Open (e : Expr) : Prop :=
  ∀ bs n v, Occurs e bs (.varRef n (.range v)) → v.id ∉ e.boundIds → v.type = .singleItem

/-- Every bound variable has the type of its domain without the types of the variables of other
constructs around it, and of those in `ids`. -/
def LoopTypedUnder (ids : List Nat) (e : Expr) : Prop :=
  ∀ bs n kind v d a, Occurs e bs (.binding n kind v d a) →
    v.type = ⟨(d.untype (outerIds n bs ++ ids)).itemType, .exactlyOne⟩

/-- Nothing has to be forgotten of variables that have no type yet. -/
theorem loopTypedUnder_of_open {ids : List Nat} {e : Expr} (hopen : e.Open)
    (hids : ∀ id ∈ ids, id ∉ e.boundIds) (h : LoopTypedUnder [] e) : LoopTypedUnder ids e := by
  intro bs n kind v d a hocc
  rw [h bs n kind v d a hocc, List.append_nil]
  suffices d.untype (outerIds n bs) = d.untype (outerIds n bs ++ ids) by rw [this]
  refine mapRange_congr fun bs' m w hw => ?_
  -- a variable from around the expression has no type yet that could be forgotten
  by_cases houter : w.id ∈ outerIds n bs
  · rw [RangeVariable.forget, RangeVariable.forget, if_pos houter,
      if_pos (List.mem_append_left _ houter)]
  · rw [RangeVariable.forget, if_neg houter, RangeVariable.forget_of_open]
    intro hmem
    have hw' := hids w.id ((List.mem_append.mp hmem).resolve_left houter)
    have hdomain : Occurs (binding n kind v d a) [] d :=
      .inside List.mem_cons_self (.here d)
    exact hopen _ m w ((hocc.trans hdomain).trans hw) hw'

theorem loopTyped_of_isPlain {e : Expr} (hplain : e.isPlain = true)
    (h : ∀ part ∈ e.chargedParts, LoopTypedUnder [] part.2) : LoopTypedUnder [] e := by
  intro bs n kind v d a hocc
  rcases occurs_of_isPlain hplain hocc with ⟨-, rfl⟩ | ⟨part, hpart, hin⟩
  · cases hplain
  · exact h part hpart bs n kind v d a hin

/-- A reference to a variable around the expression resolves in a scope without types. -/
theorem open_of_scoped {host : Resolver} {scope : List RangeVariable} {e : Expr}
    (h : Scoped host scope e) (hscope : ∀ v ∈ scope, v.type = .singleItem) : e.Open := by
  intro bs n v hocc hv
  have hmem := List.mem_of_find?_eq_some (h bs n _ hocc)
  rcases List.mem_append.mp hmem with hmem | hmem
  · obtain ⟨b, hb, rfl⟩ := List.mem_map.mp hmem
    exact absurd (mem_boundIds_of_occurs hocc b hb) hv
  · exact hscope v hmem

/-! ### Where bindings start -/

/-- All bindings in the expression start at `start` or behind. -/
def StartsFrom (start : Nat) (e : Expr) : Prop :=
  ∀ bs n kind v d a, Occurs e bs (.binding n kind v d a) → start ≤ n

theorem StartsFrom.mono {k k' : Nat} {e : Expr} (h : e.StartsFrom k) (hk : k' ≤ k) :
    e.StartsFrom k' :=
  fun bs n kind v d a hocc => Nat.le_trans hk (h bs n kind v d a hocc)

theorem startsFrom_of_isPlain {k : Nat} {e : Expr} (hplain : e.isPlain = true)
    (h : ∀ part ∈ e.chargedParts, part.2.StartsFrom k) : e.StartsFrom k := by
  intro bs n kind v d a hocc
  rcases occurs_of_isPlain hplain hocc with ⟨-, rfl⟩ | ⟨part, hpart, hin⟩
  · cases hplain
  · exact h part hpart bs n kind v d a hin

theorem startsFrom_varRef (k n : Nat) (ref : VariableRef) : (varRef n ref).StartsFrom k := by
  intro bs m kind v d a hocc
  cases (occurs_varRef hocc).2

theorem startsFrom_withTypes {k : Nat} {e : Expr} (known : List RangeVariable)
    (h : e.StartsFrom k) : (withTypes known e).StartsFrom k := by
  rw [withTypes_eq_mapRange]
  intro bs n kind v d a hocc
  obtain ⟨sub, hsub, heq⟩ := occurs_mapRange.mp hocc
  obtain ⟨d', a', rfl, -⟩ := binding_eq_mapRange heq
  exact h bs n kind v d' a' hsub

theorem startsFrom_nestClauses {k start : Nat} {kind : BindingKind} {known : List RangeVariable}
    {cs : List Clause} {action : Expr} (hk : k ≤ start) (hcs : ∀ c ∈ cs, c.domain.StartsFrom k)
    (ha : action.StartsFrom k) : (nestClauses start kind known cs action).StartsFrom k := by
  induction cs generalizing known with
  | nil => exact startsFrom_withTypes known ha
  | cons c cs ih =>
      intro bs n kind' v d a hocc
      rcases occurs_binding hocc with ⟨-, heq⟩ | hin | ⟨bs', -, hin⟩
      · cases heq
        exact hk
      · exact startsFrom_withTypes known (hcs c List.mem_cons_self) _ _ _ _ _ _ hin
      · exact ih (fun c' hc' => hcs c' (List.mem_cons_of_mem _ hc')) _ _ _ _ _ _ hin

end Expr

/-- All bindings in a piece start behind what was read before it, and in the domains of clauses
behind the start of their own binding. -/
def Piece.StartsFrom (k : Nat) : Piece → Prop
  | whole e => e.StartsFrom k
  | parts _ es => ∀ part ∈ es, part.2.StartsFrom k
  | clauses start _ cs => ∀ c ∈ cs, c.domain.StartsFrom (start + 1)

/-- Whatever is read has its bindings start at the horizon or behind it. -/
theorem Reads.startsFrom {σ : Setting} {s t : ParseState} {p : Piece} (h : Reads σ s p t) :
    p.StartsFrom s.cursor.horizon := by
  induction h with
  | plain hplain _ ih => exact Expr.startsFrom_of_isPlain hplain ih
  | range _ _ => exact Expr.startsFrom_varRef _ _ _
  | declared _ _ _ => exact Expr.startsFrom_varRef _ _ _
  | binding hstart _ _ hlt _ _ _ _ ihcs iha =>
      refine Expr.startsFrom_nestClauses hstart (fun c hc => ?_) ?_
      · exact (ihcs c hc).mono (Nat.le_succ_of_le hstart)
      · exact iha.mono (Nat.le_of_lt (Nat.lt_of_le_of_lt hstart hlt))
  | noParts _ => exact fun _ hpart => absurd hpart List.not_mem_nil
  | part hm _ _ he _ ihe ihes =>
      intro part hpart
      rcases List.mem_cons.mp hpart with rfl | hpart
      · exact ihe.mono hm.cursor.horizon_le
      · exact (ihes part hpart).mono (hm.cursor.trans he.moves.cursor).horizon_le
  | noClauses _ => exact fun _ hc => absurd hc List.not_mem_nil
  | clause _ hlt _ _ _ _ ihdom ihcs =>
      intro c hc
      rcases List.mem_cons.mp hc with rfl | hc
      · exact ihdom.mono hlt
      · exact ihcs c hc

/-! ### Constructs -/

namespace Expr

/-- The expression is a domain or the action of a construct that starts at `start`, as it was
read. -/
structure Settled (start : Nat) (e : Expr) : Prop where
  loopTyped : LoopTypedUnder [] e
  isOpen : e.Open
  startsFrom : e.StartsFrom (start + 1)

/-- When the references to variables of the construct get their types, the bindings of others
within it keep theirs. -/
theorem Settled.withTypes {start n : Nat} {e d a : Expr} {known : List RangeVariable}
    {bs : List Binder} {kind : BindingKind} {v : RangeVariable} (h : Settled start e)
    (hknown : ∀ w ∈ known, w.id ∉ e.boundIds)
    (hocc : Occurs (Parse.withTypes known e) bs (.binding n kind v d a)) :
    n ≠ start ∧ v.type =
      ⟨(d.untype (outerIds n bs ++ known.map RangeVariable.id)).itemType, .exactlyOne⟩ := by
  rw [withTypes_eq_mapRange] at hocc
  obtain ⟨sub, hsub, heq⟩ := occurs_mapRange.mp hocc
  obtain ⟨d', a', rfl, rfl⟩ := binding_eq_mapRange heq
  have hids : ∀ id ∈ known.map RangeVariable.id, id ∉ e.boundIds := by
    intro id hid
    obtain ⟨w, hw, rfl⟩ := List.mem_map.mp hid
    exact hknown w hw
  refine ⟨Nat.ne_of_gt (h.startsFrom _ _ _ _ _ _ hsub), ?_⟩
  rw [loopTypedUnder_of_open h.isOpen hids h.loopTyped _ _ _ _ _ _ hsub, ← withTypes_eq_mapRange,
    untype_withTypes]
  exact fun w hw => List.mem_append_right _ (List.mem_map_of_mem hw)

/-- The variables of a construct get their types from the first to the last, each from a domain
in which those before it have theirs. -/
theorem loopTyped_nestClauses {start : Nat} {kind : BindingKind} {known : List RangeVariable}
    {cs : List Clause} {action : Expr} (hcs : ∀ c ∈ cs, Settled start c.domain)
    (ha : Settled start action) (hids : (clauseIds cs ++ action.boundIds).Nodup)
    (hknown : ∀ w ∈ known, w.id ∉ clauseIds cs ++ action.boundIds) :
    ∀ bs n kind' v d a,
      Occurs (nestClauses start kind known cs action) bs (.binding n kind' v d a) →
        v.type = ⟨(d.untype (outerIds n bs ++
          if n = start then [] else known.map RangeVariable.id)).itemType, .exactlyOne⟩ := by
  induction cs generalizing known with
  | nil =>
      intro bs n kind' v d a hocc
      obtain ⟨hn, htype⟩ := ha.withTypes hknown hocc
      rw [if_neg hn, htype]
  | cons c cs ih =>
      intro bs n kind' v d a hocc
      rw [clauseIds, List.flatMap_cons, ← clauseIds, List.append_assoc] at hids hknown
      obtain ⟨-, hrestIds, hdisjoint⟩ := List.nodup_append.mp hids
      rw [nestClauses] at hocc
      rcases occurs_binding hocc with ⟨rfl, heq⟩ | hin | ⟨bs', rfl, hin⟩
      · -- the binding of the first clause has the type of its domain as it stands here
        cases heq
        rw [if_pos rfl]
        show _ = (⟨(untype [] _).itemType, _⟩ : SequenceType)
        rw [untype_nil]
      · -- within the domain only the clauses before this one have types to forget
        have hdomain : ∀ w ∈ known, w.id ∉ c.domain.boundIds := fun w hw hmem =>
          hknown w hw (List.mem_append_left _ (List.mem_cons_of_mem _ hmem))
        obtain ⟨hn, htype⟩ := (hcs c List.mem_cons_self).withTypes hdomain hin
        rw [if_neg hn, htype]
      · -- behind it this clause is one more of them
        have hafter : ∀ w ∈ known ++ [{ c.bound with
            type := ⟨(Parse.withTypes known c.domain).itemType, .exactlyOne⟩ }],
            w.id ∉ clauseIds cs ++ action.boundIds := by
          intro w hw hmem
          rcases List.mem_append.mp hw with hw | hw
          · exact hknown w hw (List.mem_append_right _ hmem)
          · rw [List.mem_singleton.mp hw] at hmem
            exact hdisjoint c.bound.id List.mem_cons_self _ hmem rfl
        rw [ih (fun c' hc' => hcs c' (List.mem_cons_of_mem _ hc')) hrestIds hafter _ _ _ _ _ _ hin,
          outerIds_snoc]
        by_cases hn : n = start
        · rw [if_pos hn, if_pos hn, if_pos hn.symm, List.append_nil, List.append_nil]
        · rw [if_neg hn, if_neg hn, if_neg (Ne.symm hn), List.map_append]
          rw [untype_congr fun id => ?_]
          simp only [List.mem_append, List.map_cons, List.map_nil]
          rw [or_assoc]
          exact or_congr_right or_comm

end Expr

/-! ### Derivations -/

/-- No variable in scope has a type yet. -/
def ScopeUntyped (s : ParseState) : Prop :=
  ∀ v ∈ s.scope, v.type = .singleItem

theorem ScopeUntyped.of_moves {s t : ParseState} (hs : ScopeUntyped s) (h : Moves s t) :
    ScopeUntyped t := by
  intro v hv
  rw [h.scope] at hv
  exact hs v hv

theorem ScopeUntyped.declare {s : ParseState} (hs : ScopeUntyped s) (name : ExpandedName) :
    ScopeUntyped { s with scope := ⟨s.nextId, name, .singleItem⟩ :: s.scope
                          nextId := s.nextId + 1 } := by
  intro v hv
  rcases List.mem_cons.mp hv with rfl | hv
  · rfl
  · exact hs v hv

theorem ScopeUntyped.of_clauses {σ : Setting} {s t : ParseState} {start base : Nat}
    {cs : List Clause} (hs : ScopeUntyped s) (h : Reads σ s (.clauses start base cs) t) :
    ScopeUntyped t := by
  induction cs generalizing s with
  | nil =>
      cases h with
      | noClauses hm => exact hs.of_moves hm
  | cons c cs ih =>
      cases h with
      | clause hm _ _ _ hdom hcs =>
          exact ih (((hs.of_moves hm).of_moves hdom.moves).declare _) hcs

/-- The bindings in a piece have their types, and the domains of clauses leave open what is not
known yet. -/
def Piece.LoopTyped : Piece → Prop
  | whole e => e.LoopTypedUnder []
  | parts _ es => ∀ part ∈ es, part.2.LoopTypedUnder []
  | clauses start _ cs => ∀ c ∈ cs, c.domain.Settled start

/-- Every production types its loops as it is known of all of them, by induction on the derivation.
-/
theorem Reads.loopTyped {σ : Setting} {s t : ParseState} {p : Piece} (h : Reads σ s p t)
    (hs : ScopeBelow s) (hopen : ScopeUntyped s) : p.LoopTyped := by
  induction h with
  | plain hplain _ ih => exact Expr.loopTyped_of_isPlain hplain (ih hs hopen)
  | range _ _ =>
      intro bs n kind v d a hocc
      cases (Expr.occurs_varRef hocc).2
  | declared _ _ _ =>
      intro bs n kind v d a hocc
      cases (Expr.occurs_varRef hocc).2
  | @binding s t u v start kind cs action _ _ hcs hlt _ _ ha _ ihcs iha =>
      -- the action is read before any variable of the construct has its type
      have hbelow := hs.of_clauses hcs
      have huntyped := hopen.of_clauses hcs
      have haction : action.Settled start :=
        ⟨iha hbelow huntyped, Expr.open_of_scoped (ha.scoped hbelow) huntyped,
          ha.startsFrom.mono hlt⟩
      have hfresh : FreshIds s.nextId v.nextId (Expr.clauseIds cs ++ action.boundIds) :=
        hcs.freshIds.append ha.freshIds hcs.extends_scope.2.1 ha.extends_scope.2.1
      intro bs n kind' w d a hocc
      have htype := Expr.loopTyped_nestClauses (ihcs hs hopen) haction hfresh.1
        (fun w hw => absurd hw List.not_mem_nil) bs n kind' w d a hocc
      rw [htype]
      split <;> rfl
  | noParts _ => exact fun _ hpart => absurd hpart List.not_mem_nil
  | part hm _ _ he _ ihe ihes =>
      have hs' := hs.of_moves hm
      have hopen' := hopen.of_moves hm
      intro part hpart
      rcases List.mem_cons.mp hpart with rfl | hpart
      · exact ihe hs' hopen'
      · exact ihes (hs'.of_moves he.moves) (hopen'.of_moves he.moves) part hpart
  | noClauses _ => exact fun _ hc => absurd hc List.not_mem_nil
  | clause hm hlt _ _ hdom _ ihdom ihcs =>
      have hs' := hs.of_moves hm
      have hopen' := hopen.of_moves hm
      intro c hc
      rcases List.mem_cons.mp hc with rfl | hc
      · exact ⟨ihdom hs' hopen', Expr.open_of_scoped (hdom.scoped hs') hopen',
          hdom.startsFrom.mono hlt⟩
      · exact ihcs ((hs'.of_moves hdom.moves).declare _) ((hopen'.of_moves hdom.moves).declare _)
          c hc

/-! ### Sources -/

/-- In every expression that is read from a source, a bound variable has the type of its domain
without the types of variables of other constructs around the binding. So its type is that of
the domain itself exactly if it does not depend on these. -/
theorem Parser.loop_type {source : String} {start : Nat} {language : Language}
    {host : Resolver} {warnings : List String} {terminator : Token} {e : Expr}
    (h : ((Parser.ofSource source start language host warnings).expression terminator).1 = .ok e)
    {bs : List Binder} {n : Nat} {kind : BindingKind} {v : RangeVariable} {domain action : Expr}
    (hocc : e.Occurs bs (.binding n kind v domain action)) :
    v.type = ⟨(domain.untype (outerIds n bs)).itemType, .exactlyOne⟩ ∧
      (v.type = ⟨domain.itemType, .exactlyOne⟩ ↔
        (domain.untype (outerIds n bs)).itemType = domain.itemType) := by
  obtain ⟨s, t, hscope, -, hreads⟩ := Parser.expression_reads h
  have hbelow : ScopeBelow s := fun v hv => absurd (hscope ▸ hv) List.not_mem_nil
  have huntyped : ScopeUntyped s := fun v hv => absurd (hscope ▸ hv) List.not_mem_nil
  have htype := hreads.loopTyped hbelow huntyped bs n kind v domain action hocc
  rw [List.append_nil] at htype
  refine ⟨htype, ?_⟩
  rw [htype]
  simp

/-- The variable and the domain of a loop that is the action of another. -/
def innerLoop? : Except Error Expr → Option (RangeVariable × Expr)
  | .ok (.binding _ _ _ _ (.binding _ _ v domain _)) => some (v, domain)
  | _ => none

theorem exists_of_innerLoop? {r : Except Error Expr} {v : RangeVariable} {domain : Expr}
    (h : innerLoop? r = some (v, domain)) :
    ∃ e bs n kind action, r = .ok e ∧ e.Occurs bs (.binding n kind v domain action) := by
  unfold innerLoop? at h
  split at h
  · cases h
    exact ⟨_, _, _, _, _, rfl, .inside (List.mem_cons_of_mem _ List.mem_cons_self) (.here _)⟩
  · cases h

/-- The type of a variable that goes through another one stays open, although the other becomes
an integer and so does the domain. -/
theorem nested_loop_reading :
    ∃ e bs n kind v domain action,
      ((Parser.ofSource "for $x in 1 return for $y in $x return $y" 0 .expression
        ({} : StaticContext).resolver []).expression .eof).1 = .ok e ∧
      e.Occurs bs (.binding n kind v domain action) ∧
      v.type = .singleItem ∧ domain.itemType = .atomic .integer := by
  have hrun : (innerLoop? ((Parser.ofSource "for $x in 1 return for $y in $x return $y" 0
      .expression ({} : StaticContext).resolver []).expression .eof).1).any (fun loop =>
        decide (loop.1.type = .singleItem ∧ loop.2.itemType = .atomic .integer)) = true := by
    decide +kernel
  obtain ⟨⟨v, domain⟩, hloop, htypes⟩ := (Option.any_eq_true _ _).mp hrun
  obtain ⟨e, bs, n, kind, action, he, hocc⟩ := exists_of_innerLoop? hloop
  obtain ⟨hopen, hinteger⟩ := of_decide_eq_true htypes
  exact ⟨e, bs, n, kind, v, domain, action, he, hocc, hopen, hinteger⟩

theorem Parser.loop_type_of_nested_loop :
    ∃ e bs n kind v domain action,
      ((Parser.ofSource "for $x in 1 return for $y in $x return $y" 0 .expression
        ({} : StaticContext).resolver []).expression .eof).1 = .ok e ∧
      e.Occurs bs (.binding n kind v domain action) ∧
      v.type = .singleItem ∧ domain.itemType = .atomic .integer ∧
      v.type = ⟨(domain.untype (outerIds n bs)).itemType, .exactlyOne⟩ ∧
      (v.type = ⟨domain.itemType, .exactlyOne⟩ ↔
        (domain.untype (outerIds n bs)).itemType = domain.itemType) := by
  obtain ⟨e, bs, n, kind, v, domain, action, he, hocc, hopen, hinteger⟩ := nested_loop_reading
  exact ⟨e, bs, n, kind, v, domain, action, he, hocc, hopen, hinteger, Parser.loop_type he hocc⟩

/-- Not every bound variable has the type of its domain. -/
theorem Parser.loop_type_ne_of_nested_loop :
    ∃ e bs n kind v domain action,
      ((Parser.ofSource "for $x in 1 return for $y in $x return $y" 0 .expression
        ({} : StaticContext).resolver []).expression .eof).1 = .ok e ∧
      e.Occurs bs (.binding n kind v domain action) ∧
      v.type ≠ ⟨domain.itemType, .exactlyOne⟩ := by
  obtain ⟨e, bs, n, kind, v, domain, action, he, hocc, hopen, hinteger⟩ := nested_loop_reading
  refine ⟨e, bs, n, kind, v, domain, action, he, hocc, ?_⟩
  rw [hopen, hinteger]
  decide

end XPath
