import XPath.Proofs.Assembling
import XPath.Proofs.Following

/-!
# Expressions that are followed

One lemma for each production says that the second reader gives what the first one gives, up to
the change of values, unless something is lost in it. Both readers are in one state all the time,
so that loops take as many rounds for both. For each part that is kept in a larger one it has to be
seen that the larger one is lost when the part is.
-/

namespace XPath.Parse

variable {α β γ δ : Type} {σ σ' : Setting} {g : Literal → Literal} {lost : Expr → Prop}

/-- What the first part gives, the second one gives as well, up to the view `m`, if it is not
lost. -/
def FollowedBy (L : α → Prop) (m : α → β) (p q : Parse α) : Prop :=
  ∀ s a t, p s = .ok a t → L a ∨ ∃ b, q s = .ok b t ∧ m b = m a

namespace FollowedBy

variable {L : α → Prop} {m : α → β} {L' : γ → Prop} {m' : γ → δ}

/-! ### Parts of parts -/

theorem of_repeats {p q : Parse α} (h : Repeats p q) : FollowedBy L m p q :=
  fun s a t ha => .inr ⟨a, h s a t ha, rfl⟩

theorem pure {a b : α} (h : m b = m a) : FollowedBy L m (pure a) (pure b) := by
  intro s a' t ha
  obtain ⟨rfl, rfl⟩ := pure_ok.mp ha
  exact .inr ⟨b, rfl, h⟩

theorem reject {f : Fault} {q : Parse α} : FollowedBy L m (reject σ f) q :=
  fun _ _ _ h => absurd h reject_ne_ok

/-- What is lost in the first part is lost in the whole. -/
theorem bind {p q : Parse α} {f f' : α → Parse γ} (hp : FollowedBy L m p q)
    (hlost : ∀ a, L a → Gives L' (f a)) (hf : ∀ a b, m b = m a → FollowedBy L' m' (f a) (f' b)) :
    FollowedBy L' m' (p >>= f) (q >>= f') := by
  intro s c t h
  obtain ⟨a, u, hu, h⟩ := bind_ok.mp h
  rcases hp s a u hu with ha | ⟨b, hb, hm⟩
  · exact .inl (hlost a ha u c t h)
  · rw [bind_run hb]
    exact hf a b hm u c t h

/-- Nothing can be lost in the first part. -/
theorem next {p q : Parse α} {f f' : α → Parse γ} (hp : Repeats p q)
    (hf : ∀ a, FollowedBy L' m' (f a) (f' a)) : FollowedBy L' m' (p >>= f) (q >>= f') := by
  intro s c t h
  obtain ⟨a, u, hu, h⟩ := bind_ok.mp h
  rw [bind_run (hp s a u hu)]
  exact hf a u c t h

theorem same {p : Parse α} {f f' : α → Parse γ} (hf : ∀ a, FollowedBy L' m' (f a) (f' a)) :
    FollowedBy L' m' (p >>= f) (p >>= f') :=
  .next (.refl p) hf

theorem nesting {p q : Parse α} (h : FollowedBy L m p q) :
    FollowedBy L m (nesting p) (nesting q) := by
  intro s a t ha
  obtain ⟨u, hu, rfl⟩ := nesting_ok ha
  refine (h s a u hu).imp_right ?_
  rintro ⟨b, hb, hm⟩
  exact ⟨b, nesting_run hb, hm⟩

theorem binding {p q : Parse α} (h : FollowedBy L m p q) :
    FollowedBy L m (binding p) (binding q) := by
  intro s a t ha
  obtain ⟨u, hu, rfl⟩ := binding_ok ha
  refine (h s a u hu).imp_right ?_
  rintro ⟨b, hb, hm⟩
  exact ⟨b, binding_run hb, hm⟩

theorem repeatAtMost {go : Token → Bool} {part part' : α → Parse α}
    (hpart : ∀ a b, m b = m a → FollowedBy L m (part a) (part' b))
    (hlost : ∀ a, L a → Gives L (part a)) (n : Nat) {a b : α} (h : m b = m a) :
    FollowedBy L m (repeatAtMost go part n a) (repeatAtMost go part' n b) := by
  have hkept : ∀ n a, L a → Gives L (Parse.repeatAtMost go part n a) := by
    intro n a ha s c t hc
    exact repeatAtMost_ok (I := fun a _ => L a) (fun a s c t ha _ hc => hlost a ha s c t hc)
      n a s c t ha hc
  induction n generalizing a b with
  | zero => exact .pure h
  | succ n ih =>
      refine .same fun token => ?_
      split
      · exact .bind (hpart a b h) (hkept n) fun a' b' h' => ih h'
      · exact .pure h

/-- A repetition is followed when its rounds are, and what is lost before a round stays so. -/
theorem repeatWhile {go : Token → Bool} {part part' : α → Parse α}
    (hpart : ∀ a b, m b = m a → FollowedBy L m (part a) (part' b))
    (hlost : ∀ a, L a → Gives L (part a)) {a b : α} (h : m b = m a) :
    FollowedBy L m (repeatWhile go part a) (repeatWhile go part' b) :=
  .same fun _ => repeatAtMost hpart hlost _ h

/-- A row is lost with one of its members. -/
theorem commaSeparated (hlanguage : σ'.language = σ.language) {part part' : Parse α}
    (hpart : FollowedBy L m part part') :
    FollowedBy (fun as => ∃ a ∈ as, L a) (List.map m) (commaSeparated σ part)
      (commaSeparated σ' part') := by
  unfold Parse.commaSeparated
  rw [advance_congr hlanguage]
  have hothers : FollowedBy (fun as => ∃ a ∈ as, L a) (List.map m)
      (Parse.repeatWhile (· = .comma) (fun others => do
        Parse.advance σ
        return (← part) :: others) [])
      (Parse.repeatWhile (· = .comma) (fun others => do
        Parse.advance σ
        return (← part') :: others) []) := by
    refine .repeatWhile (fun others others' heq => ?_) ?_ rfl
    · refine .same fun _ => ?_
      refine .bind hpart (fun a ha => .pure ⟨a, List.mem_cons_self, ha⟩) fun a a' ha => ?_
      exact .pure (by simp [ha, heq])
    · -- a member that is lost stays in the row
      rintro others ⟨a, hmem, ha⟩
      refine .after fun _ => ?_
      refine .after fun next => ?_
      exact .pure ⟨a, List.mem_cons_of_mem _ hmem, ha⟩
  refine .bind hpart (fun first hfirst => ?_) fun first first' hfirst => ?_
  · exact .after fun others => .pure ⟨first, List.mem_cons_self, hfirst⟩
  · refine .bind hothers ?_ fun others others' heq => .pure (by simp [hfirst, heq])
    rintro others ⟨a, hmem, ha⟩
    exact .pure ⟨a, List.mem_cons_of_mem _ (List.mem_reverse.mpr hmem), ha⟩

section Nested

variable {nested nested' : Parse Expr} (hw : σ.Widens σ' g lost)
  (hn : FollowedBy lost (Expr.mapLiterals g) nested nested')
include hw

include hn in
/-- A row is followed member by member, and lost with any of them. -/
theorem expression :
    FollowedBy lost (Expr.mapLiterals g) (expression σ nested) (expression σ' nested') := by
  have hrow : ∀ {n : Nat} {items : List Expr}, (∃ e ∈ items, lost e) → lost (.sequence n items) :=
    fun ⟨e, hmem, he⟩ => hw.part hmem he
  refine .same fun start => ?_
  refine .bind (commaSeparated hw.language hn) ?_ ?_
  · rintro items hitems
    rcases items with _ | ⟨e, _ | ⟨e', es⟩⟩
    · exact .pure (hrow hitems)
    · obtain ⟨e', hmem, he'⟩ := hitems
      rw [List.mem_singleton.mp hmem] at he'
      exact .pure he'
    · exact .pure (hrow hitems)
  · intro items items' heq
    rcases items with _ | ⟨e, _ | ⟨e', es⟩⟩
    · rw [List.map_eq_nil_iff.mp heq]
      exact .pure rfl
    · obtain ⟨d, rfl, hd⟩ := List.map_eq_singleton_iff.mp heq
      exact .pure hd
    · obtain ⟨d, ds, rfl, hd, hds⟩ := List.map_eq_cons_iff.mp heq
      obtain ⟨d', ds', rfl, hd', hds'⟩ := List.map_eq_cons_iff.mp hds
      refine .pure ?_
      simp only [Expr.mapLiterals, Expr.mapLiteralsAll_eq_map, List.map_cons, hd, hd', hds']

/-! ### Calls -/

include hn in
theorem arguments : FollowedBy (fun args => ∃ e ∈ args, lost e) (List.map (Expr.mapLiterals g))
    (arguments σ nested) (arguments σ' nested') := by
  unfold Parse.arguments
  rw [advance_congr hw.language, skip_congr hw.language]
  refine .same fun token => ?_
  split
  · exact .same fun _ => .pure rfl
  · refine .bind (commaSeparated hw.language hn) (fun args hargs => ?_) fun args args' heq => ?_
    · exact .after fun _ => .pure hargs
    · exact .same fun _ => .pure heq

theorem callIn {start : Nat} {f : FunctionBinding} {args args' : List Expr}
    (heq : args'.map (Expr.mapLiterals g) = args.map (Expr.mapLiterals g)) :
    FollowedBy lost (Expr.mapLiterals g) (callIn σ start f args) (callIn σ' start f args') := by
  unfold Parse.callIn
  rw [hw.language]
  split
  · exact .pure rfl
  · exact .reject
  · exact .reject
  · refine .pure ?_
    simp only [Expr.mapLiterals, Expr.mapLiteralsAll_eq_map, heq]

/-- A call of a known function is followed, and makes the same name of the same string. -/
theorem knownCall {start : Nat} {f : FunctionBinding} {args args' : List Expr}
    (heq : args'.map (Expr.mapLiterals g) = args.map (Expr.mapLiterals g)) :
    FollowedBy lost (Expr.mapLiterals g) (knownCall σ start f args)
      (knownCall σ' start f args') := by
  -- a faithful change keeps strings, so that both readers apply the constructor or none does
  have hliteral : args'.head?.bind Expr.stringLiteral? = args.head?.bind Expr.stringLiteral? := by
    have hcomp : Expr.stringLiteral? ∘ Expr.mapLiterals g = Expr.stringLiteral? :=
      funext (Expr.stringLiteral?_mapLiterals hw.faithful)
    have hhead := congrArg (fun es => es.head?.bind Expr.stringLiteral?) heq
    simp only [List.head?_map, Option.bind_map, hcomp] at hhead
    exact hhead
  unfold Parse.knownCall
  rw [hliteral]
  split
  · next text _ _ =>
      cases hqname : qnameLiteral σ.host text with
      | ok value =>
          rw [qnameLiteral_of_extendedBy hw.host hqname]
          exact .pure rfl
      | error f => exact .reject
  · exact callIn hw heq

/-- The arguments of a call are kept, or nothing that matters is in them. -/
theorem knownCall_lost {start : Nat} {name : ExpandedName} {f : FunctionBinding}
    {args : List Expr} (hbind : σ.host.bind? name args.length = .ok (some f))
    (hargs : ∃ e ∈ args, lost e) : Gives lost (Parse.knownCall σ start f args) := by
  obtain ⟨e, hmem, he⟩ := hargs
  obtain hnone | ⟨hlanguage, hqname⟩ := hw.dropped
  · exact absurd he (hnone e)
  · unfold Parse.knownCall
    split
    · next text hkind htext =>
        -- the only argument is a string then
        have hlength := hqname name args.length f hbind hkind
        rcases args with _ | ⟨first, _ | ⟨second, others⟩⟩
        · cases hmem
        · rw [List.mem_singleton.mp hmem] at he
          have hstring : first.stringLiteral? = some text := htext
          cases first with
          | literal n value => exact absurd he hw.literal
          | _ => cases hstring
        · simp at hlength
    · unfold Parse.callIn
      split
      · contradiction
      · exact .reject
      · exact .reject
      · exact .pure (hw.part hmem he)

/-- A call is lost with one of its arguments. -/
theorem boundCall_lost {start : Nat} {name : ExpandedName} {args : List Expr}
    (hargs : ∃ e ∈ args, lost e) : Gives lost (Parse.boundCall σ start name args) := by
  intro s e t h
  obtain ⟨function?, hbind, h⟩ := exists_of_boundCall_ok h
  cases function? with
  | some f =>
      rw [Option.elim_some] at h
      exact knownCall_lost hw hbind hargs s e t h
  | none =>
      rcases hw.unknown (unknownCall_compatible h) with hraise | ⟨hnone, -⟩
      · obtain ⟨⟨error, rfl⟩, -⟩ := unknownCall_ok h
        exact hraise _ _
      · obtain ⟨e, -, he⟩ := hargs
        exact absurd he (hnone e)

/-- A call that the first host knows is known to the second one, and one that is left to fail is
lost, or left to fail by both. -/
theorem boundCall {start : Nat} {name : ExpandedName} {args args' : List Expr}
    (heq : args'.map (Expr.mapLiterals g) = args.map (Expr.mapLiterals g)) :
    FollowedBy lost (Expr.mapLiterals g) (Parse.boundCall σ start name args)
      (Parse.boundCall σ' start name args') := by
  have hlength : args'.length = args.length := by
    have := congrArg List.length heq
    simpa using this
  intro s e t h
  obtain ⟨function?, hbind, h⟩ := exists_of_boundCall_ok h
  rw [← hlength] at hbind
  cases function? with
  | some f =>
      rw [Option.elim_some] at h
      rw [boundCall_of_bind σ' start (hw.host.bind? name _ f hbind), Option.elim_some]
      exact knownCall hw heq s e t h
  | none =>
      rcases hw.unknown (unknownCall_compatible h) with hraise | ⟨-, hboth⟩
      · obtain ⟨⟨error, rfl⟩, -⟩ := unknownCall_ok h
        exact .inl (hraise _ _)
      · obtain ⟨hbind', hcall⟩ := hboth name args'.length hbind
        rw [boundCall_of_bind σ' start hbind', Option.elim_none, hcall, hlength]
        exact .inr ⟨e, h, rfl⟩

include hn in
/-- A call is followed from its name on, by way of its arguments. -/
theorem functionCall : FollowedBy lost (Expr.mapLiterals g) (functionCall σ nested)
    (functionCall σ' nested') := by
  unfold Parse.functionCall
  rw [advance_congr hw.language]
  refine .same fun start => ?_
  refine .same fun lexical => ?_
  refine .next (.functionName hw.host lexical) fun name => ?_
  refine .same fun _ => ?_
  refine .bind (arguments hw hn) (fun args hargs => ?_) fun args args' heq => ?_
  · exact boundCall_lost hw hargs
  · exact boundCall hw heq

include hn in
theorem parenthesized : FollowedBy lost (Expr.mapLiterals g) (parenthesized σ nested)
    (parenthesized σ' nested') := by
  unfold Parse.parenthesized
  rw [advance_congr hw.language, skip_congr hw.language]
  refine .same fun start => ?_
  refine .same fun _ => ?_
  refine .same fun token => ?_
  split
  · exact .same fun _ => .pure rfl
  · refine .bind (expression hw hn) (fun inner hinner => ?_) fun inner inner' heq => ?_
    · exact .after fun _ => .pure hinner
    · exact .same fun _ => .pure heq

include hn in
/-- What a path starts with is followed, case by case on the current token. -/
theorem primary (startsPattern : Bool) : FollowedBy lost (Expr.mapLiterals g)
    (primary σ nested startsPattern) (primary σ' nested' startsPattern) := by
  refine .same fun token => ?_
  split
  · exact .of_repeats (.variableReference hw.language hw.host)
  · exact parenthesized hw hn
  · exact .same fun text => .of_repeats (.of_eq (leaf_congr hw.language _))
  · exact .of_repeats (.of_eq (numericLiteral_congr hw.language))
  · exact functionCall hw hn
  · exact .of_repeats (.of_eq (leaf_congr hw.language _))
  · exact .of_repeats (.of_eq (leaf_congr hw.language _))
  · exact .of_repeats (.bareStep hw.language hw.host _)
  · exact .of_repeats (.bareStep hw.language hw.host _)
  · exact .of_repeats (.bareStep hw.language hw.host _)
  · exact .of_repeats (.bareStep hw.language hw.host _)
  · exact .of_repeats (.bareStep hw.language hw.host _)
  · exact .of_repeats (.attributeStep hw.language hw.host)
  · exact .of_repeats (.axisStep hw.language hw.host)
  · exact .same fun _ => .reject

/-! ### Paths -/

/-- A predicate on a base that is lost is lost. -/
theorem predicate_lost {base : Expr} (h : lost base) :
    Gives lost (Parse.predicate σ nested base) := by
  have hfilter : ∀ start condition, lost (.filter start base condition) :=
    fun start condition => hw.part (by simp [Expr.children]) h
  refine .after fun start => ?_
  refine .after fun _ => ?_
  refine .after fun _ => ?_
  refine .after fun condition => ?_
  refine .after fun _ => ?_
  exact .pure (hfilter start condition)

include hn in
theorem predicate {base base' : Expr} (h : base'.mapLiterals g = base.mapLiterals g) :
    FollowedBy lost (Expr.mapLiterals g) (Parse.predicate σ nested base)
      (Parse.predicate σ' nested' base') := by
  have hfilter : ∀ start condition, lost condition → lost (.filter start base condition) :=
    fun start condition hcondition => hw.part (by simp [Expr.children]) hcondition
  unfold Parse.predicate
  rw [descend_congr hw.language, advance_congr hw.language, skip_congr hw.language]
  refine .same fun start => ?_
  refine .same fun _ => ?_
  refine .same fun _ => ?_
  refine .bind (expression hw hn) (fun condition h => ?_) fun condition condition' heq => ?_
  · exact .after fun _ => .pure (hfilter start condition h)
  · refine .same fun _ => .pure ?_
    simp only [Expr.mapLiterals, h, heq]

include hn in
/-- A step is followed with its predicates, and put back into order by both readers. -/
theorem step (startsPattern : Bool) : FollowedBy lost (Expr.mapLiterals g)
    (step σ nested startsPattern) (step σ' nested' startsPattern) := by
  -- the step may be put back into the order of the document last
  have hdone : ∀ (base filtered : Expr), lost filtered →
      lost (if isReverseStep base then .reverse filtered.offset filtered else filtered) := by
    intro base filtered h
    split
    · exact hw.part (by simp [Expr.children]) h
    · exact h
  have hkept : ∀ base, lost base →
      Gives lost (Parse.repeatWhile (· = .leftBracket) (Parse.predicate σ nested) base) :=
    fun base hbase => .repeatWhile (fun e he => predicate_lost hw he) hbase
  have hfiltered : ∀ base base', base'.mapLiterals g = base.mapLiterals g →
      FollowedBy lost (Expr.mapLiterals g)
        (Parse.repeatWhile (· = .leftBracket) (Parse.predicate σ nested) base)
        (Parse.repeatWhile (· = .leftBracket) (Parse.predicate σ' nested') base') :=
    fun base base' hbase => .repeatWhile (fun e e' he => predicate hw hn he)
      (fun e he => predicate_lost hw he) hbase
  refine .nesting ?_
  refine .bind (primary hw hn _) (fun base hbase => ?_) fun base base' hbase => ?_
  · exact .bind (hkept base hbase) fun filtered h => .pure (hdone base filtered h)
  · refine .bind (hfiltered base base' hbase) (fun filtered h => .pure (hdone base filtered h))
      fun filtered filtered' heq => ?_
    have hreverse : isReverseStep base' = isReverseStep base := by
      rw [← Expr.isReverseStep_mapLiterals (g := g), hbase, Expr.isReverseStep_mapLiterals]
    have hoffset : filtered'.offset = filtered.offset := by
      rw [← Expr.offset_mapLiterals (g := g), heq, Expr.offset_mapLiterals]
    rw [hreverse, hoffset]
    refine .pure ?_
    split
    · simp only [Expr.mapLiterals, heq]
    · exact heq

/-- A path is lost with either of its parts. -/
theorem joinStep_lost {start : Nat} {separator : Token} {before next : Expr}
    (h : lost before ∨ lost next) : lost (joinStep start separator before next) := by
  have hpath : ∀ {a b : Expr}, lost a ∨ lost b → lost (.path start a b) := by
    rintro a b (h | h)
    · exact hw.part (by simp [Expr.children]) h
    · exact hw.part (by simp [Expr.children]) h
  unfold joinStep
  split
  · exact hpath (h.imp_right fun h => hpath (.inr h))
  · exact hpath h

theorem furtherStep_lost {before : Expr} (h : lost before) :
    Gives lost (Parse.furtherStep σ nested before) := by
  refine .after fun separator => ?_
  refine .after fun start => ?_
  refine .after fun _ => ?_
  refine .after fun _ => ?_
  refine .after fun next => ?_
  exact .pure (joinStep_lost hw (.inl h))

include hn in
theorem furtherStep {before before' : Expr} (h : before'.mapLiterals g = before.mapLiterals g) :
    FollowedBy lost (Expr.mapLiterals g) (Parse.furtherStep σ nested before)
      (Parse.furtherStep σ' nested' before') := by
  unfold Parse.furtherStep
  rw [advance_congr hw.language]
  refine .same fun separator => ?_
  refine .same fun start => ?_
  rw [descend_congr hw.language]
  refine .same fun _ => ?_
  refine .same fun _ => ?_
  refine .bind (step hw hn _) (fun next hnext => ?_) fun next next' heq => ?_
  · exact .pure (joinStep_lost hw (.inr hnext))
  · refine .pure ?_
    rw [Expr.mapLiterals_joinStep, Expr.mapLiterals_joinStep, h, heq]

theorem furtherStepFromRoot_lost {before : Expr} (h : lost before) :
    Gives lost (Parse.furtherStepFromRoot σ nested before) := by
  refine .after fun separator => ?_
  refine .after fun start => ?_
  refine .after fun _ => ?_
  refine .after fun _ => ?_
  refine .after fun next => ?_
  exact .pure (joinStep_lost hw (.inl h))

include hn in
theorem furtherStepFromRoot {before before' : Expr}
    (h : before'.mapLiterals g = before.mapLiterals g) :
    FollowedBy lost (Expr.mapLiterals g) (Parse.furtherStepFromRoot σ nested before)
      (Parse.furtherStepFromRoot σ' nested' before') := by
  unfold Parse.furtherStepFromRoot
  rw [advance_congr hw.language]
  refine .same fun separator => ?_
  refine .same fun start => ?_
  refine .same fun _ => ?_
  rw [descend_congr hw.language]
  refine .same fun _ => ?_
  refine .bind (step hw hn _) (fun next hnext => ?_) fun next next' heq => ?_
  · exact .pure (joinStep_lost hw (.inr hnext))
  · refine .pure ?_
    rw [Expr.mapLiterals_joinStep, Expr.mapLiterals_joinStep, h, heq]

include hn in
theorem relativePath :
    FollowedBy lost (Expr.mapLiterals g) (relativePath σ nested) (relativePath σ' nested') := by
  unfold Parse.relativePath
  rw [hw.language]
  refine .nesting ?_
  refine .bind (step hw hn _) (fun first hfirst => ?_) fun first first' heq => ?_
  · exact .repeatWhile (fun e he => furtherStep_lost hw he) hfirst
  · exact .repeatWhile (fun e e' he => furtherStep hw hn he)
      (fun e he => furtherStep_lost hw he) heq

include hn in
/-- The origin of a path is the same for both, and nothing is lost in it. -/
theorem pathFrom (start : Nat) (origin : Expr) : FollowedBy lost (Expr.mapLiterals g)
    (pathFrom σ nested start origin) (pathFrom σ' nested' start origin) := by
  have hpath : ∀ first, lost first → lost (.path start origin first) :=
    fun first hfirst => hw.part (by simp [Expr.children]) hfirst
  unfold Parse.pathFrom
  rw [descend_congr hw.language]
  refine .nesting ?_
  refine .same fun _ => ?_
  refine .bind (step hw hn _) (fun first hfirst => ?_) fun first first' heq => ?_
  · exact .repeatWhile (fun e he => furtherStepFromRoot_lost hw he) (hpath first hfirst)
  · refine .repeatWhile (fun e e' he => furtherStepFromRoot hw hn he)
      (fun e he => furtherStepFromRoot_lost hw he) ?_
    simp only [Expr.mapLiterals, heq]

include hn in
/-- A path is followed from the root or from a step on. -/
theorem pathExpression : FollowedBy lost (Expr.mapLiterals g) (pathExpression σ nested)
    (pathExpression σ' nested') := by
  unfold Parse.pathExpression rootedPath descendantPath
  rw [advance_congr hw.language]
  refine .same fun token => ?_
  split
  · refine .same fun start => ?_
    refine .same fun _ => ?_
    refine .same fun token => ?_
    split
    · exact .reject
    · split
      · exact pathFrom hw hn _ _
      · exact .pure rfl
  · refine .same fun start => ?_
    exact .same fun _ => pathFrom hw hn _ _
  · exact relativePath hw hn

/-! ### Operations -/

theorem applySigns_lost {operand : Expr} (h : lost operand) (signs : List (Sign × Nat)) :
    lost (applySigns operand signs) := by
  induction signs generalizing operand with
  | nil => exact h
  | cons sign signs ih =>
      rw [applySigns, List.foldl_cons, ← applySigns]
      exact ih (hw.part (by simp [Expr.children]) h)

include hn in
theorem signedPath : FollowedBy lost (Expr.mapLiterals g) (signedPath σ nested)
    (signedPath σ' nested') := by
  have hsigns : sign σ' = sign σ := funext (sign_congr hw.language)
  unfold Parse.signedPath
  rw [hsigns]
  refine .nesting ?_
  refine .same fun signs => ?_
  refine .bind (pathExpression hw hn) (fun operand h => ?_) fun operand operand' heq => ?_
  · exact .pure (applySigns_lost hw h signs)
  · refine .pure ?_
    rw [Expr.mapLiterals_applySigns, Expr.mapLiterals_applySigns, heq]

theorem cast_lost {start : Nat} {castable : Bool} {operand : Expr} {type : SingleType}
    (h : lost operand) : Gives lost (Parse.cast σ start castable operand type) := by
  unfold Parse.cast
  split
  · next text _ htext =>
      -- nothing is lost in a string
      cases operand with
      | literal n value => exact absurd h hw.literal
      | _ => cases htext
  · exact .pure (hw.part (by simp [Expr.children]) h)

/-- A cast of a string may be decided otherwise by the second host, which is a change of values. -/
theorem cast {start : Nat} {castable : Bool} {operand operand' : Expr} {type : SingleType}
    (h : operand'.mapLiterals g = operand.mapLiterals g) : FollowedBy lost (Expr.mapLiterals g)
      (Parse.cast σ start castable operand type)
      (Parse.cast σ' start castable operand' type) := by
  have hliteral : operand'.stringLiteral? = operand.stringLiteral? := by
    rw [← Expr.stringLiteral?_mapLiterals hw.faithful, h,
      Expr.stringLiteral?_mapLiterals hw.faithful]
  unfold Parse.cast
  rw [hliteral]
  split
  · next text _ _ =>
      cases castable with
      | true =>
          refine .pure ?_
          simp only [Expr.mapLiterals, hw.castable]
      | false =>
          cases hqname : qnameLiteral σ.host text with
          | ok value =>
              rw [qnameLiteral_of_extendedBy hw.host hqname]
              exact .pure rfl
          | error f => exact .reject
  · refine .pure ?_
    simp only [Expr.mapLiterals, h]

theorem typeOperation_lost {op : TypeOperator} {start : Nat} {operand : Expr}
    (h : lost operand) : Gives lost (Parse.typeOperation σ op start operand) := by
  have htyped : ∀ op, lost (.typed start op operand) :=
    fun op => hw.part (by simp [Expr.children]) h
  refine .after fun _ => ?_
  cases op with
  | instanceOf => exact .after fun type => .pure (htyped (.instanceOf type))
  | treatAs => exact .after fun type => .pure (htyped (.treatAs type .XPDY0050))
  | castableAs | castAs => exact .after fun type => cast_lost hw h

theorem typeOperation {op : TypeOperator} {start : Nat} {operand operand' : Expr}
    (h : operand'.mapLiterals g = operand.mapLiterals g) : FollowedBy lost (Expr.mapLiterals g)
      (Parse.typeOperation σ op start operand) (Parse.typeOperation σ' op start operand') := by
  have htyped : ∀ op, (Expr.typed start op operand').mapLiterals g =
      (Expr.typed start op operand).mapLiterals g := fun op => by
    simp only [Expr.mapLiterals, h]
  unfold Parse.typeOperation
  rw [advance_congr hw.language]
  refine .same fun _ => ?_
  cases op with
  | instanceOf =>
      exact .next (.sequenceType hw.language hw.host) fun type => .pure (htyped _)
  | treatAs =>
      exact .next (.sequenceType hw.language hw.host) fun type => .pure (htyped _)
  | castableAs | castAs =>
      exact .next (.singleType hw.language hw.host) fun type => cast hw h

theorem operation_lost {tighter : Nat → Expr → Parse Expr} {left : Expr} (h : lost left) :
    Gives lost (Parse.operation σ nested tighter left) := by
  have hbinary : ∀ start op right, lost (.binary start op left right) :=
    fun start op right => hw.part (by simp [Expr.children]) h
  refine .after fun start => ?_
  refine .after fun token => ?_
  split
  · next op =>
      refine .after fun _ => ?_
      refine .after fun _ => ?_
      refine .after fun operand => ?_
      refine .after fun right => ?_
      exact .pure (hbinary start op right)
  · refine .after fun _ => ?_
    refine .bind (typeOperation_lost hw h) fun typed htyped => ?_
    exact .after fun _ => .pure htyped
  · exact .pure h

theorem operations_lost {tiers least : Nat} {left : Expr} (h : lost left) :
    Gives lost (Parse.operations σ nested tiers least left) := by
  cases tiers with
  | zero => exact .pure h
  | succ tiers =>
      exact .nesting (.repeatWhile (fun e he => operation_lost hw he) h)

omit hw in
/-- What is lost in a right operand stays so through the tighter operators behind it. -/
theorem rightOperand_lost {tighter : Nat → Expr → Parse Expr} {least : Nat} {operand : Expr}
    (hlost : ∀ least e, lost e → Gives lost (tighter least e)) (h : lost operand) :
    Gives lost (Parse.rightOperand tighter least operand) := by
  refine .repeatWhile (fun right hright => ?_) h
  refine .after fun token => ?_
  cases token.precedence? with
  | some least => exact hlost least right hright
  | none => exact .pure hright

omit hw in
theorem rightOperand {tighter tighter' : Nat → Expr → Parse Expr} {least : Nat}
    (htighter : ∀ least e e', e'.mapLiterals g = e.mapLiterals g →
      FollowedBy lost (Expr.mapLiterals g) (tighter least e) (tighter' least e'))
    (hlost : ∀ least e, lost e → Gives lost (tighter least e))
    {operand operand' : Expr} (h : operand'.mapLiterals g = operand.mapLiterals g) :
    FollowedBy lost (Expr.mapLiterals g) (Parse.rightOperand tighter least operand)
      (Parse.rightOperand tighter' least operand') := by
  refine .repeatWhile (fun right right' hright => ?_) (fun right hright => ?_) h
  · refine .same fun token => ?_
    cases token.precedence? with
    | some least => exact htighter least right right' hright
    | none => exact .pure hright
  · refine .after fun token => ?_
    cases token.precedence? with
    | some least => exact hlost least right hright
    | none => exact .pure hright

include hn in
/-- One operator is followed with its right operand, and lost with either side. -/
theorem operation {tighter tighter' : Nat → Expr → Parse Expr}
    (htighter : ∀ least e e', e'.mapLiterals g = e.mapLiterals g →
      FollowedBy lost (Expr.mapLiterals g) (tighter least e) (tighter' least e'))
    (hlost : ∀ least e, lost e → Gives lost (tighter least e))
    {left left' : Expr} (h : left'.mapLiterals g = left.mapLiterals g) :
    FollowedBy lost (Expr.mapLiterals g) (Parse.operation σ nested tighter left)
      (Parse.operation σ' nested' tighter' left') := by
  have htyped : ∀ op start, FollowedBy lost (Expr.mapLiterals g)
      (do
        let typed ← Parse.typeOperation σ op start left
        Parse.endTypeOperation σ op.precedence
        return typed)
      (do
        let typed ← Parse.typeOperation σ' op start left'
        Parse.endTypeOperation σ' op.precedence
        return typed) := by
    intro op start
    rw [endTypeOperation_congr hw.language]
    refine .bind (typeOperation hw h) ?_ ?_
    · exact fun typed htyped => .after fun _ => .pure htyped
    · exact fun typed typed' heq => .same fun _ => .pure heq
  unfold Parse.operation
  rw [advance_congr hw.language, descend_congr hw.language]
  refine .same fun start => ?_
  refine .same fun token => ?_
  split
  · next op =>
      have hbinary : ∀ right, lost right → lost (.binary start op left right) :=
        fun right hright => hw.part (by simp [Expr.children]) hright
      refine .same fun _ => ?_
      refine .same fun _ => ?_
      refine .bind (signedPath hw hn) (fun operand hoperand => ?_) fun operand operand' heq => ?_
      · -- what is lost in the first operand stays so through all tighter operators behind it
        refine .bind (rightOperand_lost hlost hoperand) fun right hright => ?_
        exact .pure (hbinary right hright)
      · refine .bind (rightOperand htighter hlost heq) (fun right hright => ?_)
          fun right right' heq' => ?_
        · exact .pure (hbinary right hright)
        · refine .pure ?_
          simp only [Expr.mapLiterals, h, heq']
  · exact .same fun _ => htyped _ _
  · exact .pure h

include hn in
/-- Operators are followed with their operands, by induction on the tiers. -/
theorem operations (tiers : Nat) {least : Nat} {left left' : Expr}
    (h : left'.mapLiterals g = left.mapLiterals g) :
    FollowedBy lost (Expr.mapLiterals g) (Parse.operations σ nested tiers least left)
      (Parse.operations σ' nested' tiers least left') := by
  induction tiers generalizing least left left' with
  | zero => exact .pure h
  | succ tiers ih =>
      rw [Parse.operations, Parse.operations]
      refine .nesting (.repeatWhile (fun e e' he => operation hw hn ?_ ?_ he)
        (fun e he => operation_lost hw he) h)
      · exact fun least e e' h => ih h
      · exact fun least e h => operations_lost hw h

/-! ### Bindings and conditionals -/

include hn in
theorem clause : FollowedBy (fun c => lost c.domain) (Expr.clauseLiterals g) (clause σ nested)
    (clause σ' nested') := by
  unfold Parse.clause
  rw [skip_congr hw.language, expect_congr hw.language, advance_congr hw.language,
    skip_congr hw.language]
  refine .same fun _ => ?_
  refine .same fun _ => ?_
  refine .same fun lexical => ?_
  refine .next (.expandName hw.host lexical false) fun name => ?_
  refine .same fun _ => ?_
  refine .same fun _ => ?_
  refine .bind hn (fun domain hdomain => ?_) fun domain domain' heq => ?_
  · exact .after fun v => .pure hdomain
  · refine .same fun v => .pure ?_
    simp only [Expr.clauseLiterals, heq]

/-- Nested bindings are lost with any of the domains and with the action. -/
theorem nestClauses_lost {start : Nat} {kind : BindingKind} {known : List RangeVariable}
    {cs : List Clause} {action : Expr} (h : (∃ c ∈ cs, lost c.domain) ∨ lost action) :
    lost (nestClauses start kind known cs action) := by
  have htyped : ∀ (known : List RangeVariable) {e : Expr}, lost e → lost (withTypes known e) := by
    intro known e he
    rw [Expr.withTypes_eq_mapRange]
    exact hw.mapRange he
  induction cs generalizing known with
  | nil =>
      rcases h with ⟨c, hmem, -⟩ | h
      · cases hmem
      · exact htyped known h
  | cons c cs ih =>
      rw [nestClauses]
      -- it is in the domain of this clause, in that of a later one, or in the action
      rcases h with ⟨c', hmem, hc⟩ | h
      · rcases List.mem_cons.mp hmem with rfl | hmem
        · exact hw.part List.mem_cons_self (htyped known hc)
        · exact hw.part (List.mem_cons_of_mem _ List.mem_cons_self) (ih (.inl ⟨c', hmem, hc⟩))
      · exact hw.part (List.mem_cons_of_mem _ List.mem_cons_self) (ih (.inr h))

include hn in
theorem bindingExpression (kind : BindingKind) : FollowedBy lost (Expr.mapLiterals g)
    (bindingExpression σ nested kind) (bindingExpression σ' nested' kind) := by
  unfold Parse.bindingExpression
  rw [advance_congr hw.language, skip_congr hw.language]
  -- the clauses and the action are read together, and either may have what is lost
  have hparts : FollowedBy
      (fun parts : List Clause × Expr => (∃ c ∈ parts.1, lost c.domain) ∨ lost parts.2)
      (fun parts => (parts.1.map (Expr.clauseLiterals g), parts.2.mapLiterals g))
      (Parse.binding do
        Parse.advance σ
        let clauses ← Parse.commaSeparated σ (Parse.clause σ nested)
        Parse.skip σ (actionToken kind)
        return (clauses, ← nested))
      (Parse.binding do
        Parse.advance σ
        let clauses ← Parse.commaSeparated σ' (Parse.clause σ' nested')
        Parse.skip σ (actionToken kind)
        return (clauses, ← nested')) := by
    refine .binding ?_
    refine .same fun _ => ?_
    refine .bind (commaSeparated hw.language (clause hw hn)) (fun cs hcs => ?_) fun cs cs' hcs => ?_
    · refine .after fun _ => ?_
      exact .after fun action => .pure (.inl hcs)
    · refine .same fun _ => ?_
      refine .bind hn (fun action haction => ?_) fun action action' haction => ?_
      · exact .pure (.inr haction)
      · exact .pure (Prod.ext hcs haction)
  refine .same fun start => ?_
  refine .bind hparts (fun parts hlost => ?_) fun parts parts' heq => ?_
  · exact .pure (nestClauses_lost hw hlost)
  · obtain ⟨hcs, haction⟩ := Prod.ext_iff.mp heq
    dsimp only at hcs haction
    refine .pure ?_
    rw [Expr.mapLiterals_nestClauses hw.faithful, Expr.mapLiterals_nestClauses hw.faithful, hcs,
      haction]

include hn in
/-- A conditional is followed part by part, and lost with any of its parts. -/
theorem conditional : FollowedBy lost (Expr.mapLiterals g) (conditional σ nested)
    (conditional σ' nested') := by
  have hlost : ∀ {start : Nat} {condition yes no : Expr}, lost condition ∨ lost yes ∨ lost no →
      lost (.conditional start condition yes no) := by
    rintro start condition yes no (h | h | h)
    · exact hw.part (by simp [Expr.children]) h
    · exact hw.part (by simp [Expr.children]) h
    · exact hw.part (by simp [Expr.children]) h
  unfold Parse.conditional
  simp only [advance_congr hw.language, skip_congr hw.language]
  refine .same fun start => ?_
  refine .same fun _ => ?_
  refine .bind (expression hw hn) (fun condition h => ?_) fun condition condition' hcondition => ?_
  · refine .after fun _ => ?_
    refine .after fun _ => ?_
    refine .after fun yes => ?_
    refine .after fun _ => ?_
    exact .after fun no => .pure (hlost (.inl h))
  refine .same fun _ => ?_
  refine .same fun _ => ?_
  refine .bind hn (fun yes h => ?_) fun yes yes' hyes => ?_
  · refine .after fun _ => ?_
    exact .after fun no => .pure (hlost (.inr (.inl h)))
  refine .same fun _ => ?_
  refine .bind hn (fun no h => .pure (hlost (.inr (.inr h)))) fun no no' hno => ?_
  refine .pure ?_
  simp only [Expr.mapLiterals, hcondition, hyes, hno]

/-! ### All expressions -/

include hn in
/-- A single expression is followed when the expressions within it are. -/
theorem singleWith : FollowedBy lost (Expr.mapLiterals g) (singleWith σ nested)
    (singleWith σ' nested') := by
  unfold Parse.singleWith
  rw [descend_congr hw.language]
  refine .nesting ?_
  refine .same fun _ => ?_
  refine .same fun token => ?_
  split
  · exact bindingExpression hw hn _
  · exact bindingExpression hw hn _
  · exact bindingExpression hw hn _
  · exact conditional hw hn
  · refine .bind (signedPath hw hn) (fun operand h => ?_) fun operand operand' heq => ?_
    · exact operations_lost hw h
    · exact operations hw hn _ heq

end Nested

/-- A single expression is followed at every level, by induction on the levels. -/
theorem singleWithin (hw : σ.Widens σ' g lost) (n : Nat) :
    FollowedBy lost (Expr.mapLiterals g) (singleWithin σ n) (singleWithin σ' n) := by
  induction n with
  | zero => exact .reject
  | succ n ih => exact singleWith hw ih

end FollowedBy

/-- A reader that can follow another one reads what that reads, up to the change of values, unless
something is lost. -/
theorem complete_followedBy (hw : σ.Widens σ' g lost) (terminator : Token) :
    FollowedBy lost (Expr.mapLiterals g) (complete σ terminator) (complete σ' terminator) := by
  -- nothing is made of the expression any more
  have hend : ∀ (e : Expr) (t : Token), lost e → Gives lost (do
      if t = terminator then return e
      else if t = .eof ∧ terminator = .rightBrace then reject σ .unclosedTemplate
      else reject σ (.beyondExpression (← found))) := by
    intro e t he
    split
    · exact .pure he
    · split
      · exact .reject
      · exact .after fun _ => .reject
  unfold complete
  rw [advance_congr hw.language]
  refine .same fun _ => ?_
  refine .bind (.expression hw (.singleWithin hw _)) (fun e he => ?_) fun e e' heq => ?_
  · exact .after fun token => hend e token he
  refine .same fun token => ?_
  split
  · exact .pure heq
  · split
    · exact .reject
    · exact .same fun _ => .reject

end XPath.Parse
