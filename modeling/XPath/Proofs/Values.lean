import XPath.Parse.Expression
import XPath.Proofs.Relocation

/-!
# Expressions with other values

`Expr.mapLiterals` changes the values that an expression spells out and nothing else. When the
change keeps their types and the strings among them, nothing that a reader asks of an expression
is different, and what it makes of one is changed along. Two expressions are alike up to such a
change when it makes them equal.
-/

namespace XPath

/-- A change of values that keeps their types, and all strings. -/
structure Literal.IsFaithful (g : Literal → Literal) : Prop where
  itemType : ∀ v, (g v).itemType = v.itemType
  string : ∀ n v, (Expr.literal n (g v)).stringLiteral? = (Expr.literal n v).stringLiteral?

theorem Literal.isFaithful_id : IsFaithful id :=
  ⟨fun _ => rfl, fun _ _ => rfl⟩

namespace Expr

mutual

/-- The expression with all values changed. -/
def mapLiterals (g : Literal → Literal) : Expr → Expr
  | literal n value => literal n (g value)
  | filter n base predicate => filter n (mapLiterals g base) (mapLiterals g predicate)
  | path n start step => path n (mapLiterals g start) (mapLiterals g step)
  | reverse n inner => reverse n (mapLiterals g inner)
  | binary n op left right => binary n op (mapLiterals g left) (mapLiterals g right)
  | unary n sign operand => unary n sign (mapLiterals g operand)
  | conditional n condition yes no =>
    conditional n (mapLiterals g condition) (mapLiterals g yes) (mapLiterals g no)
  | binding n kind v domain action =>
    binding n kind v (mapLiterals g domain) (mapLiterals g action)
  | typed n op operand => typed n op (mapLiterals g operand)
  | call n function arguments => call n function (mapLiteralsAll g arguments)
  | sequence n items => sequence n (mapLiteralsAll g items)
  | e@(varRef _ _) | e@(contextItem _) | e@(root _) | e@(parent _) | e@(axisStep _ _ _)
  | e@(raise _ _) => e

/-- The same for each of several expressions. -/
def mapLiteralsAll (g : Literal → Literal) : List Expr → List Expr
  | [] => []
  | e :: es => mapLiterals g e :: mapLiteralsAll g es

end

attribute [local simp] mapLiterals mapLiteralsAll mapRange mapRangeAll

variable {g : Literal → Literal}

theorem mapLiteralsAll_eq_map (g : Literal → Literal) (es : List Expr) :
    mapLiteralsAll g es = es.map (mapLiterals g) := by
  induction es with
  | nil => rfl
  | cons e es ih => rw [mapLiteralsAll, ih, List.map_cons]

/-- Only the values that occur matter. -/
theorem mapLiterals_eq_self {e : Expr}
    (h : ∀ bs n v, Occurs e bs (literal n v) → g v = v) : e.mapLiterals g = e := by
  induction e using parts_induction with
  | step e ih =>
      have hparts : ∀ c ∈ e.children, c.mapLiterals g = c := by
        intro c hc
        obtain ⟨new, hnew⟩ := exists_mem_scopedParts hc
        exact ih c hc fun bs n v hocc => h (bs ++ new) n v (.inside hnew hocc)
      have hall : ∀ es : List Expr, (∀ e ∈ es, e.mapLiterals g = e) → es.map (mapLiterals g) = es :=
        fun es hes => (List.map_congr_left hes).trans (List.map_id es)
      cases e with
      | literal n v => rw [mapLiterals, h [] n v (.here _)]
      | call n function args => simp [mapLiteralsAll_eq_map, hall args hparts]
      | sequence n items => simp [mapLiteralsAll_eq_map, hall items hparts]
      | _ => simp_all [children]

/-- Values that are left alone leave the expression as it is. -/
theorem mapLiterals_id (e : Expr) : e.mapLiterals id = e :=
  mapLiterals_eq_self fun _ _ _ _ => rfl

theorem scopedParts_mapLiterals (g : Literal → Literal) (e : Expr) :
    (e.mapLiterals g).scopedParts = e.scopedParts.map fun (new, c) => (new, c.mapLiterals g) := by
  cases e <;> simp [scopedParts, children, mapLiteralsAll_eq_map]

/-- What occurs in an expression occurs in the changed one, changed likewise. -/
theorem occurs_mapLiterals {e sub : Expr} {bs : List Binder} (h : Occurs e bs sub) :
    Occurs (e.mapLiterals g) bs (sub.mapLiterals g) := by
  induction h with
  | here e => exact .here _
  | inside hmem _ ih =>
      refine .inside ?_ ih
      rw [scopedParts_mapLiterals]
      exact List.mem_map.mpr ⟨_, hmem, rfl⟩

/-! ### What stays the same -/

theorem offset_mapLiterals (e : Expr) : (e.mapLiterals g).offset = e.offset := by
  cases e <;> simp [offset]

theorem isReverseStep_mapLiterals (e : Expr) :
    Parse.isReverseStep (e.mapLiterals g) = Parse.isReverseStep e := by
  cases e <;> simp [Parse.isReverseStep]

theorem stringLiteral?_mapLiterals (hg : Literal.IsFaithful g) (e : Expr) :
    (e.mapLiterals g).stringLiteral? = e.stringLiteral? := by
  cases e with
  | literal n v => exact hg.string n v
  | _ => simp [stringLiteral?]

/-- Types are not changed along with values. -/
theorem itemType_mapLiterals (hg : Literal.IsFaithful g) (e : Expr) :
    (e.mapLiterals g).itemType = e.itemType := by
  induction e using parts_induction with
  | step e ih =>
      cases e with
      | literal n v => exact hg.itemType v
      | binding n kind v domain action =>
          have haction := ih action (by simp [children])
          cases kind <;> simp [itemType, haction]
      | sequence n items =>
          cases items with
          | nil => simp [itemType]
          | cons e es =>
              simp only [mapLiterals, mapLiteralsAll, itemType, mapLiteralsAll_eq_map]
              rw [ih e List.mem_cons_self,
                joinedType_map fun e' he' => ih e' (List.mem_cons_of_mem _ he')]
      | _ => simp_all [itemType, children]

/-! ### What is changed along -/

theorem mapLiterals_mapRange (f : RangeVariable → RangeVariable) (e : Expr) :
    (e.mapRange f).mapLiterals g = (e.mapLiterals g).mapRange f := by
  induction e using parts_induction with
  | step e ih =>
      cases e with
      | varRef n ref => cases ref <;> simp
      | call n function args =>
          simp only [mapRange, mapLiterals, mapLiteralsAll_eq_map, mapRangeAll_eq_map,
            List.map_map]
          exact congrArg _ (List.map_congr_left ih)
      | sequence n items =>
          simp only [mapRange, mapLiterals, mapLiteralsAll_eq_map, mapRangeAll_eq_map,
            List.map_map]
          exact congrArg _ (List.map_congr_left ih)
      | _ => simp_all [children]

theorem mapLiterals_withTypes (known : List RangeVariable) (e : Expr) :
    (Parse.withTypes known e).mapLiterals g = Parse.withTypes known (e.mapLiterals g) := by
  rw [withTypes_eq_mapRange, withTypes_eq_mapRange]
  exact mapLiterals_mapRange _ e

/-- The clause with other values in its domain. -/
def clauseLiterals (g : Literal → Literal) (c : Parse.Clause) : Parse.Clause :=
  ⟨c.bound, c.domain.mapLiterals g⟩

/-- Values are changed in bindings by changing them in the clauses and in the action. -/
theorem mapLiterals_nestClauses (hg : Literal.IsFaithful g) (n : Nat) (kind : BindingKind)
    (known : List RangeVariable) (cs : List Parse.Clause) (action : Expr) :
    (Parse.nestClauses n kind known cs action).mapLiterals g =
      Parse.nestClauses n kind known (cs.map (clauseLiterals g)) (action.mapLiterals g) := by
  induction cs generalizing known with
  | nil => exact mapLiterals_withTypes known action
  | cons c cs ih =>
      have htype : (Parse.withTypes known (c.domain.mapLiterals g)).itemType =
          (Parse.withTypes known c.domain).itemType := by
        rw [← mapLiterals_withTypes, itemType_mapLiterals hg]
      simp only [Parse.nestClauses, mapLiterals, List.map_cons, ih, mapLiterals_withTypes,
        clauseLiterals, htype]

theorem mapLiterals_applySigns (operand : Expr) (signs : List (Sign × Nat)) :
    (Parse.applySigns operand signs).mapLiterals g =
      Parse.applySigns (operand.mapLiterals g) signs := by
  induction signs generalizing operand with
  | nil => rfl
  | cons sign signs ih =>
      rw [Parse.applySigns, List.foldl_cons, ← Parse.applySigns, ih, mapLiterals]
      rfl

/-- Values are changed in a path by changing them in its steps. -/
theorem mapLiterals_joinStep (n : Nat) (separator : Token) (before next : Expr) :
    (Parse.joinStep n separator before next).mapLiterals g =
      Parse.joinStep n separator (before.mapLiterals g) (next.mapLiterals g) := by
  unfold Parse.joinStep
  split
  · simp [Parse.anyDescendant]
  · simp

end Expr

end XPath
