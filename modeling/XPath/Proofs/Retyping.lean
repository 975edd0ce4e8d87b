import XPath.Expr.Render
import XPath.Proofs.Directions

/-!
# The type of one variable

When the type of a variable becomes known, it is put on the references to the variable.
`Expr.Retyped` says of two expressions that they are the same at all positions, but for that type:
each node with its offset, its names and the types it stores, and all references to other variables.
That leaves one expression only, and it is the one that `Expr.retype` gives
(`Expr.retype_exactly`). Types can so be put on several variables in any order.
-/

namespace XPath

/-! ### Variables -/

namespace RangeVariable

theorem retype_retype (id : Nat) (type other : SequenceType) (v : RangeVariable) :
    (v.retype id type).retype id other = v.retype id other := by
  unfold retype
  by_cases h : v.id = id
  · simp [h]
  · simp [h]

theorem retype_comm {i j : Nat} (h : i ≠ j) (type other : SequenceType) (v : RangeVariable) :
    (v.retype i type).retype j other = (v.retype j other).retype i type := by
  by_cases hi : v.id = i
  · have hj : v.id ≠ j := hi ▸ h
    rw [retype_of_ne (v := v) hj]
    refine retype_of_ne ?_
    rw [(retype_same i type v).1]
    exact hj
  · rw [retype_of_ne (v := v) hi]
    refine (retype_of_ne ?_).symm
    rw [(retype_same j other v).1]
    exact hi

end RangeVariable

namespace Expr

/-! ### Nodes and their parts -/

/-- The node at the root of an expression, without its parts. -/
def hollow : Expr → Expr
  | filter n _ _ => filter n default default
  | path n _ _ => path n default default
  | reverse n _ => reverse n default
  | binary n op _ _ => binary n op default default
  | unary n sign _ => unary n sign default
  | conditional n _ _ _ => conditional n default default default
  | binding n kind v _ _ => binding n kind v default default
  | typed n op _ => typed n op default
  | call n function _ => call n function []
  | sequence n _ => sequence n []
  | e@(literal _ _) | e@(varRef _ _) | e@(contextItem _) | e@(root _) | e@(parent _)
  | e@(axisStep _ _ _) | e@(raise _ _) => e

/-- An expression is its node and its parts. -/
theorem ext_hollow {e e' : Expr} (hnode : e.hollow = e'.hollow)
    (hparts : e.children = e'.children) : e = e' := by
  cases e <;> cases e' <;> simp_all [hollow, children]

theorem at?_part (e : Expr) (i : Nat) : e.at? [i] = e.children[i]? := by
  rw [at?]
  cases e.children[i]? <;> rfl

/-- The expression is a reference to the range variable with this id. -/
def RefersTo (id : Nat) (e : Expr) : Prop :=
  ∃ n v, e = varRef n (.range v) ∧ v.id = id

theorem hollow_mapRange {f : RangeVariable → RangeVariable} {e : Expr}
    (h : ∀ n v, e = varRef n (.range v) → f v = v) : (e.mapRange f).hollow = e.hollow := by
  cases e with
  | varRef n ref =>
      cases ref with
      | range v => rw [mapRange, h n v rfl]
      | declared name type => rfl
  | _ => simp [mapRange, hollow]

/-! ### Expressions that differ in one type -/

/-- The second expression is the first one, but for the type of the references to a range
variable. -/
structure Retyped (id : Nat) (type : SequenceType) (e e' : Expr) : Prop where
  typed : ∀ position n v, e'.at? position = some (varRef n (.range v)) → v.id = id →
    v.type = type
  /-- The references are where they were, by the same name. -/
  reference : ∀ position n v, e.at? position = some (varRef n (.range v)) → v.id = id →
    ∃ v', e'.at? position = some (varRef n (.range v')) ∧ v'.id = v.id ∧ v'.name = v.name
  /-- Every other node is what it was. -/
  node : ∀ position sub, e.at? position = some sub → ¬sub.RefersTo id →
    ∃ sub', e'.at? position = some sub' ∧ sub'.hollow = sub.hollow
  /-- There are no further nodes. -/
  positions : ∀ position, e.at? position = none → e'.at? position = none

namespace Retyped

variable {id : Nat} {type : SequenceType} {e e' : Expr}

/-- The parts at one position differ in the same way. -/
theorem part {i : Nat} {c c' : Expr} (h : e.Retyped id type e') (hc : e.children[i]? = some c)
    (hc' : e'.children[i]? = some c') : c.Retyped id type c' := by
  have hat : ∀ position, c.at? position = e.at? (i :: position) := by
    intro position
    rw [at?, hc]
    rfl
  have hat' : ∀ position, c'.at? position = e'.at? (i :: position) := by
    intro position
    rw [at?, hc']
    rfl
  constructor
  · intro position n v hv
    rw [hat'] at hv
    exact h.typed _ n v hv
  · intro position n v hv
    rw [hat] at hv
    rw [hat']
    exact h.reference _ n v hv
  · intro position sub hsub
    rw [hat] at hsub
    rw [hat']
    exact h.node _ sub hsub
  · intro position hnone
    rw [hat] at hnone
    rw [hat']
    exact h.positions _ hnone

/-- A reference to the variable differs in its type alone. -/
theorem reference_eq (h : e.Retyped id type e') {position : List Nat} {n : Nat}
    {v : RangeVariable} (hv : e.at? position = some (varRef n (.range v))) (hid : v.id = id) :
    e'.at? position = some (varRef n (.range { v with type })) := by
  obtain ⟨⟨id', name', type'⟩, hv', rfl, rfl⟩ := h.reference position n v hv hid
  obtain rfl := h.typed position n _ hv' hid
  exact hv'

/-- Where there is a part of the one, there is a part of the other. -/
theorem isSome_at? (h : e.Retyped id type e') (position : List Nat) :
    (e'.at? position).isSome = (e.at? position).isSome := by
  cases hsub : e.at? position with
  | none => rw [h.positions position hsub]
  | some sub =>
      by_cases href : sub.RefersTo id
      · obtain ⟨n, v, rfl, hid⟩ := href
        rw [h.reference_eq hsub hid]
        rfl
      · obtain ⟨sub', hsub', -⟩ := h.node position sub hsub href
        rw [hsub']
        rfl

/-- No other expression differs in this way. -/
theorem unique {e'' : Expr} (h : e.Retyped id type e') (h' : e.Retyped id type e'') :
    e' = e'' := by
  induction e using parts_induction generalizing e' e'' with
  | step e ih =>
      have hroot : e.at? [] = some e := rfl
      by_cases href : e.RefersTo id
      · obtain ⟨n, v, rfl, hid⟩ := href
        have heq : some e' = some e'' :=
          (h.reference_eq hroot hid).trans (h'.reference_eq hroot hid).symm
        exact Option.some.inj heq
      · obtain ⟨_, ⟨⟩, hnode⟩ := h.node [] e hroot href
        obtain ⟨_, ⟨⟩, hnode'⟩ := h'.node [] e hroot href
        refine ext_hollow (hnode.trans hnode'.symm) (List.ext_getElem? fun i => ?_)
        have hsome := h.isSome_at? [i]
        have hsome' := h'.isSome_at? [i]
        simp only [at?_part] at hsome hsome'
        cases hc : e.children[i]? with
        | none =>
            rw [hc] at hsome hsome'
            rw [Option.isNone_iff_eq_none.mp (Option.isSome_eq_false_iff.mp hsome),
              Option.isNone_iff_eq_none.mp (Option.isSome_eq_false_iff.mp hsome')]
        | some c =>
            rw [hc] at hsome hsome'
            obtain ⟨c', hc'⟩ := Option.isSome_iff_exists.mp hsome
            obtain ⟨c'', hc''⟩ := Option.isSome_iff_exists.mp hsome'
            rw [hc', hc'', ih c (List.mem_of_getElem? hc) (h.part hc hc') (h'.part hc hc'')]

end Retyped

/-- The type of a variable is put on the references to it, and on nothing else. -/
theorem retyped_retype (id : Nat) (type : SequenceType) (e : Expr) :
    e.Retyped id type (e.retype id type) := by
  have hat : ∀ position, (e.retype id type).at? position =
      (e.at? position).map (mapRange (RangeVariable.retype id type)) := by
    intro position
    rw [retype_eq_mapRange]
    exact at?_map (children_mapRange _) e position
  constructor
  · intro position n v hv hid
    rw [hat, Option.map_eq_some_iff] at hv
    obtain ⟨sub, -, hsub⟩ := hv
    obtain ⟨v', rfl, hv'⟩ | ⟨name, t, -, hv'⟩ := varRef_eq_mapRange hsub.symm
    · cases hv'
      rw [(RangeVariable.retype_same id type v').1] at hid
      rw [RangeVariable.retype, if_pos hid]
    · cases hv'
  · intro position n v hv hid
    refine ⟨v.retype id type, ?_, RangeVariable.retype_same id type v⟩
    rw [hat, hv]
    rfl
  · intro position sub hsub href
    refine ⟨sub.mapRange (RangeVariable.retype id type), ?_, hollow_mapRange fun n v heq => ?_⟩
    · rw [hat, hsub]
      rfl
    · exact RangeVariable.retype_of_ne fun hid => href ⟨n, v, heq, hid⟩
  · intro position hnone
    rw [hat, hnone]
    rfl

/-! ### Texts -/

theorem renderTail_map {g : Expr → Expr} {es : List Expr}
    (h : ∀ e ∈ es, (g e).render = e.render) : renderTail (es.map g) = renderTail es := by
  induction es with
  | nil => rfl
  | cons e es ih =>
      rw [List.map_cons, renderTail, renderTail, h e List.mem_cons_self,
        ih fun e' he' => h e' (List.mem_cons_of_mem _ he')]

theorem renderList_map {g : Expr → Expr} {es : List Expr}
    (h : ∀ e ∈ es, (g e).render = e.render) : renderList (es.map g) = renderList es := by
  cases es with
  | nil => rfl
  | cons e es =>
      rw [List.map_cons, renderList, renderList, h e List.mem_cons_self,
        renderTail_map fun e' he' => h e' (List.mem_cons_of_mem _ he')]

/-- The types of variables are not written. -/
theorem render_mapRange {f : RangeVariable → RangeVariable} (h : ∀ v, (f v).name = v.name)
    (e : Expr) : (e.mapRange f).render = e.render := by
  induction e using parts_induction with
  | step e ih =>
      cases e with
      | varRef n ref =>
          cases ref with
          | range v => simp [mapRange, render, VariableRef.name, h]
          | declared name type => rfl
      | path n start step =>
          -- a path from the root is written without its start
          cases start with
          | varRef m ref => cases ref <;> simp_all [mapRange, render, children]
          | _ => simp_all [mapRange, render, children]
      | call n function args =>
          have hlist : renderList (args.map (mapRange f)) = renderList args := renderList_map ih
          rw [mapRange, render, render, mapRangeAll_eq_map, hlist]
      | sequence n items =>
          have hlist : renderList (items.map (mapRange f)) = renderList items := renderList_map ih
          rw [mapRange, render, render, mapRangeAll_eq_map, hlist]
      | _ => simp_all [mapRange, render, children]

/-! ### Types on one variable after another -/

/-- Putting a type on a variable changes the type of all references to it, wherever they stand, and
nothing else; the text stays the same. The last type that is put on a variable counts, and types
are put on different variables in any order. -/
theorem retype_exactly (e : Expr) (i j : Nat) (type other : SequenceType) :
    (∀ e', e.Retyped i type e' ↔ e' = e.retype i type) ∧
      (e.retype i type).render = e.render ∧
      (e.retype i type).retype i other = e.retype i other ∧
      (i ≠ j → (e.retype i type).retype j other = (e.retype j other).retype i type) := by
  refine ⟨fun e' => ⟨fun h => h.unique (retyped_retype i type e), ?_⟩, ?_, ?_, fun hij => ?_⟩
  · rintro rfl
    exact retyped_retype i type e
  · rw [retype_eq_mapRange]
    exact render_mapRange (fun v => (RangeVariable.retype_same i type v).2) e
  · rw [retype_eq_mapRange, retype_eq_mapRange, retype_eq_mapRange, mapRange_mapRange]
    exact congrArg (mapRange · e) (funext (RangeVariable.retype_retype i type other))
  · simp only [retype_eq_mapRange, mapRange_mapRange]
    exact congrArg (mapRange · e) (funext (RangeVariable.retype_comm hij type other))

/-- The expression `for $x in $y return ($x, $y[$x])`, with types on the references. -/
def crossReferences (x y : SequenceType) : Expr :=
  let xRef n := varRef n (.range ⟨0, .unqualified "x", x⟩)
  let yRef n := varRef n (.range ⟨1, .unqualified "y", y⟩)
  binding 0 .forEach ⟨0, .unqualified "x", .singleItem⟩ (yRef 10)
    (sequence 20 [xRef 21, filter 27 (yRef 25) (xRef 28)])

theorem retype_exactly_of_crossReferences :
    let before := crossReferences .singleItem .singleItem
    let integer : SequenceType := ⟨.atomic .integer, .exactlyOne⟩
    let node : SequenceType := ⟨.node .anyNode, .exactlyOne⟩
    before.Retyped 0 integer (crossReferences integer .singleItem) ∧
      (before.retype 0 integer).render = before.render ∧
      (before.retype 0 integer).retype 0 node = crossReferences node .singleItem ∧
      0 ≠ 1 ∧
      (before.retype 0 integer).retype 1 node = (before.retype 1 node).retype 0 integer := by
  intro before integer node
  obtain ⟨hunique, htext, hlast, horder⟩ := retype_exactly before 0 1 integer node
  exact ⟨(hunique _).mpr rfl, htext, hlast, by decide, horder (by decide)⟩

end Expr

end XPath
