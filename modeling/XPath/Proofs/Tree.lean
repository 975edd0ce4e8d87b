import XPath.Parse.Binding

/-!
# Parts of expressions

An expression occurs in another under the bindings whose actions it lies in: `Occurs` collects
them on the way down, innermost first, and a binding does not count in its own domain. The
height counts nodes from the root to the deepest leaf. `mapRange` changes references and neither
the shape of an expression nor the variables it binds (`occurs_mapRange`); giving a variable
its type with `retype` is a case of it.
-/

namespace XPath

/-- A binding around a place in an expression: where it starts and what it binds. -/
structure Binder where
  start : Nat
  bound : RangeVariable
deriving DecidableEq, Repr

namespace Expr

/-! ### Induction over parts -/

theorem sizeOf_lt_of_mem_children {c e : Expr} (h : c ∈ e.children) : sizeOf c < sizeOf e := by
  cases e with
  | call n f args =>
      have := List.sizeOf_lt_of_mem (show c ∈ args from h)
      simp only [call.sizeOf_spec]
      omega
  | sequence n items =>
      have := List.sizeOf_lt_of_mem (show c ∈ items from h)
      simp only [sequence.sizeOf_spec]
      omega
  | _ =>
      simp only [children, List.mem_cons, List.not_mem_nil, or_false] at h
      all_goals rcases h with rfl | rfl | rfl <;> simp <;> omega

/-- What holds of an expression when it holds of its parts holds of every expression. -/
theorem parts_induction {P : Expr → Prop} (step : ∀ e, (∀ c ∈ e.children, P c) → P e)
    (e : Expr) : P e := by
  induction h : sizeOf e using Nat.strongRecOn generalizing e with
  | ind n ih =>
      refine step e fun c hc => ih (sizeOf c) ?_ c rfl
      rw [← h]
      exact sizeOf_lt_of_mem_children hc

/-! ### Height -/

mutual

/-- The number of nodes on the longest way from the root to a leaf. -/
def height : Expr → Nat
  | literal _ _ | varRef _ _ | contextItem _ | root _ | parent _ | axisStep _ _ _ | raise _ _ => 1
  | filter _ a b | path _ a b | binary _ _ a b | binding _ _ _ a b =>
    1 + max (height a) (height b)
  | reverse _ a | unary _ _ a | typed _ _ a => 1 + height a
  | conditional _ a b c => 1 + max (height a) (max (height b) (height c))
  | call _ _ es | sequence _ es => 1 + greatestHeight es

/-- The height of the highest of several expressions. -/
def greatestHeight : List Expr → Nat
  | [] => 0
  | e :: es => max (height e) (greatestHeight es)

end

/-! ### Bound variables -/

mutual

/-- The ids of all variables that an expression binds, in the order of their bindings. -/
def boundIds : Expr → List Nat
  | literal _ _ | varRef _ _ | contextItem _ | root _ | parent _ | axisStep _ _ _ | raise _ _ => []
  | filter _ a b | path _ a b | binary _ _ a b => boundIds a ++ boundIds b
  | binding _ _ v domain action => v.id :: (boundIds domain ++ boundIds action)
  | reverse _ a | unary _ _ a | typed _ _ a => boundIds a
  | conditional _ a b c => boundIds a ++ (boundIds b ++ boundIds c)
  | call _ _ es | sequence _ es => boundIdsOf es

/-- The ids that several expressions bind. -/
def boundIdsOf : List Expr → List Nat
  | [] => []
  | e :: es => boundIds e ++ boundIdsOf es

end

theorem boundIdsOf_eq_flatMap (es : List Expr) : boundIdsOf es = es.flatMap boundIds := by
  induction es with
  | nil => rfl
  | cons e es ih => rw [boundIdsOf, ih, List.flatMap_cons]

/-- The id of the variable that the root of an expression binds, if it is a binding. -/
def ownIds : Expr → List Nat
  | binding _ _ v _ _ => [v.id]
  | _ => []

theorem boundIds_eq (e : Expr) : e.boundIds = e.ownIds ++ e.children.flatMap boundIds := by
  cases e <;> simp [boundIds, ownIds, children, boundIdsOf_eq_flatMap]

/-! ### Occurrences -/

/-- The parts of an expression, each with the binding that scopes over it and not over the
whole. -/
def scopedParts : Expr → List (List Binder × Expr)
  | binding n _ v domain action => [([], domain), ([⟨n, v⟩], action)]
  | e => e.children.map ([], ·)

/-- `Occurs e bs sub`: the expression `sub` occurs in `e`, inside the actions of the bindings
`bs` of `e`, the innermost first. -/
inductive Occurs : Expr → List Binder → Expr → Prop
  | here (e : Expr) : Occurs e [] e
  | inside {e c sub : Expr} {new bs : List Binder} :
      (new, c) ∈ e.scopedParts → Occurs c bs sub → Occurs e (bs ++ new) sub

theorem mem_children_of_scopedParts {e c : Expr} {new : List Binder}
    (h : (new, c) ∈ e.scopedParts) : c ∈ e.children := by
  cases e with
  | binding n kind v domain action =>
      simp only [scopedParts, List.mem_cons, Prod.mk.injEq, List.not_mem_nil, or_false] at h
      rcases h with ⟨-, rfl⟩ | ⟨-, rfl⟩
      · exact List.mem_cons_self
      · exact List.mem_cons_of_mem _ List.mem_cons_self
  | _ =>
      obtain ⟨c', hc, heq⟩ := List.mem_map.mp h
      cases heq
      exact hc

theorem exists_mem_scopedParts {e c : Expr} (h : c ∈ e.children) :
    ∃ new, (new, c) ∈ e.scopedParts := by
  cases e with
  | binding n kind v domain action =>
      rcases List.mem_cons.mp h with rfl | h
      · exact ⟨[], List.mem_cons_self⟩
      · rw [List.mem_singleton.mp h]
        exact ⟨[⟨n, v⟩], List.mem_cons_of_mem _ List.mem_cons_self⟩
  | _ => exact ⟨[], List.mem_map.mpr ⟨c, h, rfl⟩⟩

theorem Occurs.trans {e c sub : Expr} {bs bs' : List Binder} (h : Occurs e bs c)
    (h' : Occurs c bs' sub) : Occurs e (bs' ++ bs) sub := by
  induction h with
  | here _ =>
      rw [List.append_nil]
      exact h'
  | inside hmem _ ih =>
      rw [← List.append_assoc]
      exact .inside hmem (ih h')

/-- In a reference nothing else occurs. -/
theorem occurs_varRef {n : Nat} {ref : VariableRef} {sub : Expr} {bs : List Binder}
    (h : Occurs (varRef n ref) bs sub) : bs = [] ∧ sub = varRef n ref := by
  cases h with
  | here _ => exact ⟨rfl, rfl⟩
  | inside hmem _ => exact absurd hmem List.not_mem_nil

/-- What occurs in a binding is the binding, or occurs in its domain without it or in its action
with it. -/
theorem occurs_binding {n : Nat} {kind : BindingKind} {v : RangeVariable} {d a sub : Expr}
    {bs : List Binder} (h : Occurs (binding n kind v d a) bs sub) :
    (bs = [] ∧ sub = binding n kind v d a) ∨ Occurs d bs sub ∨
      ∃ bs', bs = bs' ++ [⟨n, v⟩] ∧ Occurs a bs' sub := by
  cases h with
  | here _ => exact .inl ⟨rfl, rfl⟩
  | @inside _ _ _ _ bs' hmem hocc =>
      -- the new binding comes last, since it is the outermost of those around `sub`
      simp only [scopedParts, List.mem_cons, Prod.mk.injEq, List.not_mem_nil, or_false] at hmem
      rcases hmem with ⟨rfl, rfl⟩ | ⟨rfl, rfl⟩
      · rw [List.append_nil]
        exact .inr (.inl hocc)
      · exact .inr (.inr ⟨bs', rfl, hocc⟩)

/-! ### Nodes -/

mutual

/-- All nodes of an expression, each before its parts. -/
def nodes : Expr → List Expr
  | e@(literal _ _) | e@(varRef _ _) | e@(contextItem _) | e@(root _) | e@(parent _)
  | e@(axisStep _ _ _) | e@(raise _ _) => [e]
  | e@(filter _ a b) | e@(path _ a b) | e@(binary _ _ a b) | e@(binding _ _ _ a b) =>
    e :: (nodes a ++ nodes b)
  | e@(reverse _ a) | e@(unary _ _ a) | e@(typed _ _ a) => e :: nodes a
  | e@(conditional _ a b c) => e :: (nodes a ++ (nodes b ++ nodes c))
  | e@(call _ _ es) | e@(sequence _ es) => e :: nodesOf es

/-- The nodes of several expressions. -/
def nodesOf : List Expr → List Expr
  | [] => []
  | e :: es => nodes e ++ nodesOf es

end

theorem nodesOf_eq_flatMap (es : List Expr) : nodesOf es = es.flatMap nodes := by
  induction es with
  | nil => rfl
  | cons e es ih => rw [nodesOf, ih, List.flatMap_cons]

theorem nodes_eq (e : Expr) : e.nodes = e :: e.children.flatMap nodes := by
  cases e <;> simp [nodes, children, nodesOf_eq_flatMap]

/-- The nodes are what occurs, wherever it does. -/
theorem mem_nodes {e sub : Expr} : sub ∈ e.nodes ↔ ∃ bs, Occurs e bs sub := by
  induction e using parts_induction with
  | step e ih =>
      rw [nodes_eq, List.mem_cons, List.mem_flatMap]
      constructor
      · rintro (rfl | ⟨c, hc, hsub⟩)
        · exact ⟨[], .here _⟩
        · obtain ⟨bs, hocc⟩ := (ih c hc).mp hsub
          obtain ⟨new, hnew⟩ := exists_mem_scopedParts hc
          exact ⟨bs ++ new, .inside hnew hocc⟩
      · rintro ⟨bs, hocc⟩
        cases hocc with
        | here => exact .inl rfl
        | inside hmem hocc =>
            have hc := mem_children_of_scopedParts hmem
            exact .inr ⟨_, hc, (ih _ hc).mpr ⟨_, hocc⟩⟩

end Expr

/-! ### Changing references -/

/-- The variable, with the type `type` if it is the one with this id. -/
def RangeVariable.retype (id : Nat) (type : SequenceType) (v : RangeVariable) : RangeVariable :=
  if v.id = id then { v with type } else v

theorem RangeVariable.retype_of_ne {id : Nat} {type : SequenceType} {v : RangeVariable}
    (h : v.id ≠ id) : v.retype id type = v :=
  if_neg h

namespace Expr

mutual

/-- The expression with all references to range variables changed. -/
def mapRange (f : RangeVariable → RangeVariable) : Expr → Expr
  | varRef n (.range v) => varRef n (.range (f v))
  | filter n base predicate => filter n (mapRange f base) (mapRange f predicate)
  | path n start step => path n (mapRange f start) (mapRange f step)
  | reverse n inner => reverse n (mapRange f inner)
  | binary n op left right => binary n op (mapRange f left) (mapRange f right)
  | unary n sign operand => unary n sign (mapRange f operand)
  | conditional n condition yes no =>
    conditional n (mapRange f condition) (mapRange f yes) (mapRange f no)
  | binding n kind v domain action => binding n kind v (mapRange f domain) (mapRange f action)
  | typed n op operand => typed n op (mapRange f operand)
  | call n function arguments => call n function (mapRangeAll f arguments)
  | sequence n items => sequence n (mapRangeAll f items)
  | e@(literal _ _) | e@(varRef _ (.declared _ _)) | e@(contextItem _) | e@(root _)
  | e@(parent _) | e@(axisStep _ _ _) | e@(raise _ _) => e

/-- The same for each of several expressions. -/
def mapRangeAll (f : RangeVariable → RangeVariable) : List Expr → List Expr
  | [] => []
  | e :: es => mapRange f e :: mapRangeAll f es

end

attribute [local simp] mapRange mapRangeAll

theorem mapRangeAll_eq_map (f : RangeVariable → RangeVariable) (es : List Expr) :
    mapRangeAll f es = es.map (mapRange f) := by
  induction es with
  | nil => rfl
  | cons e es ih => rw [mapRangeAll, ih, List.map_cons]

theorem retypeAll_eq_map (id : Nat) (type : SequenceType) (es : List Expr) :
    retypeAll id type es = es.map (retype id type) := by
  induction es with
  | nil => rfl
  | cons e es ih => rw [retypeAll, ih, List.map_cons]

theorem retype_eq_mapRange (id : Nat) (type : SequenceType) (e : Expr) :
    e.retype id type = e.mapRange (RangeVariable.retype id type) := by
  induction e using parts_induction with
  | step e ih =>
      cases e with
      | varRef n ref => cases ref <;> simp [retype, mapRange, RangeVariable.retype]
      | call _ _ args =>
          simp only [retype, mapRange, retypeAll_eq_map, mapRangeAll_eq_map]
          exact congrArg _ (List.map_congr_left ih)
      | sequence _ items =>
          simp only [retype, mapRange, retypeAll_eq_map, mapRangeAll_eq_map]
          exact congrArg _ (List.map_congr_left ih)
      | _ => simp_all [retype, mapRange, children]

theorem mapRange_mapRange (f g : RangeVariable → RangeVariable) (e : Expr) :
    (e.mapRange f).mapRange g = e.mapRange (g ∘ f) := by
  induction e using parts_induction with
  | step e ih =>
      cases e with
      | varRef n ref => cases ref <;> simp [mapRange]
      | call _ _ args =>
          simp only [mapRange, mapRangeAll_eq_map, List.map_map]
          exact congrArg _ (List.map_congr_left ih)
      | sequence _ items =>
          simp only [mapRange, mapRangeAll_eq_map, List.map_map]
          exact congrArg _ (List.map_congr_left ih)
      | _ => simp_all [mapRange, children]

theorem mapRange_id (e : Expr) : e.mapRange id = e := by
  induction e using parts_induction with
  | step e ih =>
      cases e with
      | varRef n ref => cases ref <;> simp [mapRange]
      | call _ _ args =>
          simp only [mapRange, mapRangeAll_eq_map]
          exact congrArg _ ((List.map_congr_left ih).trans (List.map_id args))
      | sequence _ items =>
          simp only [mapRange, mapRangeAll_eq_map]
          exact congrArg _ ((List.map_congr_left ih).trans (List.map_id items))
      | _ => simp_all [mapRange, children]

/-- Changing references leaves the bindings and the order of the parts alone. -/
theorem scopedParts_mapRange (f : RangeVariable → RangeVariable) (e : Expr) :
    (e.mapRange f).scopedParts = e.scopedParts.map fun (new, c) => (new, c.mapRange f) := by
  cases e with
  | varRef n ref => cases ref <;> simp [mapRange, scopedParts, children]
  | _ => simp [mapRange, scopedParts, children, mapRangeAll_eq_map]

theorem children_mapRange (f : RangeVariable → RangeVariable) (e : Expr) :
    (e.mapRange f).children = e.children.map (mapRange f) := by
  cases e with
  | varRef n ref => cases ref <;> simp [mapRange, children]
  | _ => simp [mapRange, children, mapRangeAll_eq_map]

theorem ownIds_mapRange (f : RangeVariable → RangeVariable) (e : Expr) :
    (e.mapRange f).ownIds = e.ownIds := by
  cases e with
  | varRef n ref => cases ref <;> simp [mapRange, ownIds]
  | _ => simp [mapRange, ownIds]

theorem boundIds_mapRange (f : RangeVariable → RangeVariable) (e : Expr) :
    (e.mapRange f).boundIds = e.boundIds := by
  induction e using parts_induction with
  | step e ih =>
      rw [boundIds_eq, boundIds_eq e, ownIds_mapRange, children_mapRange, List.flatMap_map]
      have hparts : e.children.flatMap (fun c => (c.mapRange f).boundIds) =
          e.children.flatMap boundIds := by
        rw [List.flatMap_def, List.flatMap_def, List.map_congr_left ih]
      rw [hparts]

/-- What occurs in an expression with changed references occurs in the expression itself, with
its own references not changed yet. -/
theorem occurs_mapRange {f : RangeVariable → RangeVariable} {e sub : Expr} {bs : List Binder} :
    Occurs (e.mapRange f) bs sub ↔ ∃ sub', Occurs e bs sub' ∧ sub = sub'.mapRange f := by
  constructor
  · intro h
    -- the induction is on the occurrence in the changed expression, so that must be a variable
    generalize he : e.mapRange f = whole at h
    induction h generalizing e with
    | here _ => exact ⟨e, .here e, he.symm⟩
    | inside hmem _ ih =>
        subst he
        rw [scopedParts_mapRange] at hmem
        obtain ⟨⟨new, c⟩, hc, heq⟩ := List.mem_map.mp hmem
        cases heq
        obtain ⟨sub', hsub, rfl⟩ := ih rfl
        exact ⟨sub', .inside hc hsub, rfl⟩
  · rintro ⟨sub', h, rfl⟩
    induction h with
    | here e => exact .here _
    | inside hmem _ ih =>
        refine .inside ?_ ih
        rw [scopedParts_mapRange]
        exact List.mem_map.mpr ⟨_, hmem, rfl⟩

/-- A binding in an expression with changed references is one of the expression itself. -/
theorem binding_eq_mapRange {f : RangeVariable → RangeVariable} {e d a : Expr} {n : Nat}
    {kind : BindingKind} {v : RangeVariable} (h : binding n kind v d a = e.mapRange f) :
    ∃ d' a', e = binding n kind v d' a' ∧ d = d'.mapRange f := by
  cases e with
  | varRef m ref => cases ref <;> simp [mapRange] at h
  | binding m kind' w d' a' =>
      rw [mapRange] at h
      cases h
      exact ⟨d', a', rfl, rfl⟩
  | _ => simp [mapRange] at h

/-- A reference in an expression with changed references was one before the change. -/
theorem varRef_eq_mapRange {f : RangeVariable → RangeVariable} {e : Expr} {n : Nat}
    {ref : VariableRef} (h : varRef n ref = e.mapRange f) :
    (∃ v, e = varRef n (.range v) ∧ ref = .range (f v)) ∨
      ∃ name type, e = varRef n (.declared name type) ∧ ref = .declared name type := by
  cases e with
  | varRef m ref' =>
      cases ref' with
      | range v =>
          rw [mapRange] at h
          cases h
          exact .inl ⟨v, rfl, rfl⟩
      | declared name type =>
          rw [mapRange] at h
          cases h
          exact .inr ⟨name, type, rfl, rfl⟩
  | _ => simp [mapRange] at h

/-- Only the references that occur matter. -/
theorem mapRange_congr {f g : RangeVariable → RangeVariable} {e : Expr}
    (h : ∀ bs n v, Occurs e bs (varRef n (.range v)) → f v = g v) :
    e.mapRange f = e.mapRange g := by
  induction e using parts_induction with
  | step e ih =>
      have hparts : ∀ c ∈ e.children, c.mapRange f = c.mapRange g := by
        intro c hc
        -- an occurrence in a part is one in the whole, under some more bindings
        obtain ⟨new, hnew⟩ := exists_mem_scopedParts hc
        exact ih c hc fun bs n v hocc => h (bs ++ new) n v (.inside hnew hocc)
      cases e with
      | varRef n ref =>
          cases ref with
          | range v => rw [mapRange, mapRange, h [] n v (.here _)]
          | declared name type => rfl
      | call _ _ args =>
          simp only [mapRange, mapRangeAll_eq_map]
          exact congrArg _ (List.map_congr_left hparts)
      | sequence _ items =>
          simp only [mapRange, mapRangeAll_eq_map]
          exact congrArg _ (List.map_congr_left hparts)
      | _ => simp_all [mapRange, children]

end Expr

/-! ### Types on several variables -/

/-- The variable with the type of the one of `known` that has its id. -/
def RangeVariable.typedBy (known : List RangeVariable) (v : RangeVariable) : RangeVariable :=
  known.foldl (fun v w => v.retype w.id w.type) v

theorem RangeVariable.retype_same (id : Nat) (type : SequenceType) (v : RangeVariable) :
    (v.retype id type).id = v.id ∧ (v.retype id type).name = v.name := by
  unfold RangeVariable.retype
  split <;> exact ⟨rfl, rfl⟩

/-- Typing changes types only. -/
theorem RangeVariable.typedBy_same (known : List RangeVariable) (v : RangeVariable) :
    (v.typedBy known).id = v.id ∧ (v.typedBy known).name = v.name := by
  induction known generalizing v with
  | nil => exact ⟨rfl, rfl⟩
  | cons w known ih =>
      rw [typedBy, List.foldl_cons, ← typedBy, (ih _).1, (ih _).2]
      exact retype_same w.id w.type v

theorem RangeVariable.typedBy_snoc (known : List RangeVariable) (w v : RangeVariable) :
    v.typedBy (known ++ [w]) = (v.typedBy known).retype w.id w.type := by
  simp [typedBy]

theorem RangeVariable.typedBy_of_notMem {known : List RangeVariable} {v : RangeVariable}
    (h : ∀ w ∈ known, w.id ≠ v.id) : v.typedBy known = v := by
  induction known with
  | nil => rfl
  | cons w known ih =>
      rw [typedBy, List.foldl_cons, retype_of_ne (h w List.mem_cons_self).symm, ← typedBy]
      exact ih fun w hw => h w (List.mem_cons_of_mem _ hw)

namespace Expr

open Parse

theorem withTypes_eq_mapRange (known : List RangeVariable) (e : Expr) :
    withTypes known e = e.mapRange (RangeVariable.typedBy known) := by
  induction known generalizing e with
  | nil => exact (mapRange_id e).symm
  | cons v known ih =>
      -- a pass over the tree for each variable does what one pass does that types each reference
      rw [withTypes, List.foldl_cons, ← withTypes, ih, retype_eq_mapRange, mapRange_mapRange]
      rfl

end Expr

end XPath
