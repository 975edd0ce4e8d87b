import XPath.Proofs.Scoping

/-!
# Expressions without their places

Two expressions that are written differently have different offsets, and range variables with
other ids and perhaps other types, while all else agrees. `Expr.outline` leaves out the offsets
and the types of range variables, and numbers these variables anew. A reader numbers them in the
order of `readIds`, in which a variable comes after its domain.
-/

namespace XPath

/-- The variable under another id, before anything is known of its type. -/
def RangeVariable.outline (ids : Nat → Nat) (v : RangeVariable) : RangeVariable :=
  ⟨ids v.id, v.name, .singleItem⟩

/-- The reference without the type of a range variable. -/
def VariableRef.outline (ids : Nat → Nat) : VariableRef → VariableRef
  | range v => range (v.outline ids)
  | declared name type => declared name type

namespace Expr

mutual

/-- The expression without offsets and without the types of the range variables, which have the
ids that are given for their own. -/
def outline (ids : Nat → Nat) : Expr → Expr
  | literal _ value => literal 0 value
  | varRef _ ref => varRef 0 (ref.outline ids)
  | contextItem _ => contextItem 0
  | root _ => root 0
  | parent _ => parent 0
  | axisStep _ axis test => axisStep 0 axis test
  | filter _ base predicate => filter 0 (outline ids base) (outline ids predicate)
  | path _ start step => path 0 (outline ids start) (outline ids step)
  | reverse _ inner => reverse 0 (outline ids inner)
  | binary _ op left right => binary 0 op (outline ids left) (outline ids right)
  | unary _ sign operand => unary 0 sign (outline ids operand)
  | conditional _ condition yes no =>
    conditional 0 (outline ids condition) (outline ids yes) (outline ids no)
  | binding _ kind v domain action =>
    binding 0 kind (v.outline ids) (outline ids domain) (outline ids action)
  | typed _ op operand => typed 0 op (outline ids operand)
  | call _ function arguments => call 0 function (outlineAll ids arguments)
  | sequence _ items => sequence 0 (outlineAll ids items)
  | raise _ error => raise 0 error

/-- The same for each of several expressions. -/
def outlineAll (ids : Nat → Nat) : List Expr → List Expr
  | [] => []
  | e :: es => outline ids e :: outlineAll ids es

end

attribute [local simp] outline outlineAll mapRange mapRangeAll

variable {ids ids' : Nat → Nat}

theorem outlineAll_eq_map (ids : Nat → Nat) (es : List Expr) :
    outlineAll ids es = es.map (outline ids) := by
  induction es with
  | nil => rfl
  | cons e es ih => rw [outlineAll, ih, List.map_cons]

theorem isReverseStep_outline (e : Expr) :
    Parse.isReverseStep (e.outline ids) = Parse.isReverseStep e := by
  cases e <;> simp [Parse.isReverseStep]

theorem stringLiteral?_outline (e : Expr) :
    (e.outline ids).stringLiteral? = e.stringLiteral? := by
  cases e with
  | literal n value => cases value <;> rfl
  | _ => simp [stringLiteral?]

/-- Changing the types of references makes no difference. -/
theorem outline_mapRange {f : RangeVariable → RangeVariable}
    (h : ∀ v, (f v).id = v.id ∧ (f v).name = v.name) (e : Expr) :
    (e.mapRange f).outline ids = e.outline ids := by
  induction e using parts_induction with
  | step e ih =>
      cases e with
      | varRef n ref =>
          cases ref with
          | range v => simp [VariableRef.outline, RangeVariable.outline, h v]
          | declared name type => rfl
      | call n function args =>
          simp only [mapRange, outline, outlineAll_eq_map, mapRangeAll_eq_map, List.map_map]
          exact congrArg _ (List.map_congr_left ih)
      | sequence n items =>
          simp only [mapRange, outline, outlineAll_eq_map, mapRangeAll_eq_map, List.map_map]
          exact congrArg _ (List.map_congr_left ih)
      | _ => simp_all [children]

/-- The outline does not depend on the types of variables. -/
theorem outline_withTypes (known : List RangeVariable) (e : Expr) :
    (Parse.withTypes known e).outline ids = e.outline ids := by
  rw [withTypes_eq_mapRange]
  exact outline_mapRange (RangeVariable.typedBy_same known) e

/-! ### The order of ids -/

mutual

/-- The ids of all variables that an expression binds, in the order in which they are given
out. -/
def readIds : Expr → List Nat
  | literal _ _ | varRef _ _ | contextItem _ | root _ | parent _ | axisStep _ _ _ | raise _ _ => []
  | filter _ a b | path _ a b | binary _ _ a b => readIds a ++ readIds b
  | binding _ _ v domain action => readIds domain ++ v.id :: readIds action
  | reverse _ a | unary _ _ a | typed _ _ a => readIds a
  | conditional _ a b c => readIds a ++ (readIds b ++ readIds c)
  | call _ _ es | sequence _ es => readIdsOf es

/-- The ids that several expressions bind. -/
def readIdsOf : List Expr → List Nat
  | [] => []
  | e :: es => readIds e ++ readIdsOf es

end

theorem readIdsOf_eq_flatMap (es : List Expr) : readIdsOf es = es.flatMap readIds := by
  induction es with
  | nil => rfl
  | cons e es ih => rw [readIdsOf, ih, List.flatMap_cons]

theorem readIds_of_isPlain {e : Expr} (h : e.isPlain = true) :
    e.readIds = e.children.flatMap readIds := by
  cases e with
  | varRef n ref => cases h
  | binding n kind v domain action => cases h
  | _ => simp [readIds, children, readIdsOf_eq_flatMap]

/-- Both orders have the same ids. -/
theorem readIds_perm (e : Expr) : e.readIds.Perm e.boundIds := by
  induction e using parts_induction with
  | step e ih =>
      by_cases hplain : e.isPlain = true
      · have hown : e.ownIds = [] := by cases e <;> first | rfl | cases hplain
        rw [readIds_of_isPlain hplain, boundIds_eq, hown, List.nil_append]
        generalize e.children = cs at ih
        induction cs with
        | nil => exact .refl _
        | cons c cs ihs =>
            rw [List.flatMap_cons, List.flatMap_cons]
            exact (ih c List.mem_cons_self).append
              (ihs fun d hd => ih d (List.mem_cons_of_mem _ hd))
      · cases e with
        | varRef n ref => exact .refl _
        | binding n kind v domain action =>
            have hdomain := ih domain (by simp [children])
            have haction := ih action (by simp [children])
            rw [readIds, boundIds]
            exact List.perm_middle.trans ((hdomain.append haction).cons _)
        | _ => exact absurd rfl hplain

/-- The position of an id among distinct ones numbers them from zero on. -/
theorem map_idxOf_eq_range' {l : List Nat} (h : l.Nodup) :
    l.map l.idxOf = List.range' 0 l.length := by
  refine List.ext_getElem (by simp) fun i hi _ => ?_
  have hi' : i < l.length := by simpa using hi
  rw [List.getElem_map, h.idxOf_getElem i hi', List.getElem_range']
  omega

/-! ### References to variables in scope -/

section Scope

variable {host : Resolver} {scope : List RangeVariable}

theorem Scoped.resolves {n : Nat} {ref : VariableRef} (h : Scoped host scope (varRef n ref)) :
    ref.Resolves host scope :=
  h [] n ref (.here _)

/-- What is scoped stays so in the parts of a node that binds nothing. -/
theorem Scoped.child {e c : Expr} (h : Scoped host scope e) (hplain : e.isPlain = true)
    (hc : c ∈ e.children) : Scoped host scope c := by
  intro bs n ref hocc
  have hmem : ([], c) ∈ e.scopedParts := by
    cases e with
    | binding n kind v domain action => cases hplain
    | _ => exact List.mem_map.mpr ⟨c, hc, rfl⟩
  have := h (bs ++ []) n ref (.inside hmem hocc)
  rw [List.append_nil] at this
  exact this

theorem Scoped.domain {n : Nat} {kind : BindingKind} {v : RangeVariable} {domain action : Expr}
    (h : Scoped host scope (binding n kind v domain action)) : Scoped host scope domain := by
  intro bs m ref hocc
  have hmem : ([], domain) ∈ (binding n kind v domain action).scopedParts := by
    simp [scopedParts]
  have := h (bs ++ []) m ref (.inside hmem hocc)
  rw [List.append_nil] at this
  exact this

/-- The action of a binding is in the scope of its variable as well. -/
theorem Scoped.action {n : Nat} {kind : BindingKind} {v : RangeVariable} {domain action : Expr}
    (h : Scoped host scope (binding n kind v domain action)) :
    Scoped host (v :: scope) action := by
  intro bs m ref hocc
  have hmem : ([⟨n, v⟩], action) ∈ (binding n kind v domain action).scopedParts := by
    simp [scopedParts]
  have := h (bs ++ [⟨n, v⟩]) m ref (.inside hmem hocc)
  rw [List.map_append, List.append_assoc] at this
  exact this

end Scope

end Expr

end XPath
