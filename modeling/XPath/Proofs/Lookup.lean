import XPath.Proofs.Languages

/-!
# Looking up functions

A library answers two questions from what has been registered: which function a call refers to,
and which numbers of arguments are listed under a name. The first goes through the signatures in
order, the second puts all their numbers together in ascending order. The answers agree: what is
listed can be called, and what can be called is listed, but for the numbers above the least that a
signature without an upper end accepts. So the message about a call of an unknown function does
not offer the number of arguments of that call.
-/

namespace XPath

/-! ### Signatures -/

namespace Signature

theorem accepts_iff {s : Signature} {n : Nat} :
    s.accepts n = true ↔ s.least ≤ n ∧ ∀ most, s.most = some most → n ≤ most := by
  unfold accepts
  cases s.most <;> simp

theorem mem_arities_iff {s : Signature} {n : Nat} :
    n ∈ s.arities ↔ s.accepts n = true ∧ (s.most = none → n = s.least) := by
  rw [accepts_iff]
  unfold arities
  cases s.most with
  | none =>
      simp only [List.mem_singleton]
      constructor
      · rintro rfl
        simp
      · intro h
        exact h.2 trivial
  | some most =>
      simp only [List.mem_range'_1, Option.some.injEq]
      constructor
      · intro h
        refine ⟨⟨h.1, ?_⟩, by simp⟩
        rintro _ rfl
        omega
      · intro h
        have hmost := h.1.2 most rfl
        omega

end Signature

namespace FunctionLibrary

/-! ### Ascending lists -/

theorem mem_insertArity {k n : Nat} {ms : List Nat} :
    k ∈ insertArity n ms ↔ k = n ∨ k ∈ ms := by
  induction ms with
  | nil => simp [insertArity]
  | cons m ms ih =>
      unfold insertArity
      split
      · simp
      · split
        · next heq => simp [heq]
        · simp only [List.mem_cons, ih]
          exact or_left_comm

theorem pairwise_insertArity {n : Nat} {ms : List Nat} (h : ms.Pairwise (· < ·)) :
    (insertArity n ms).Pairwise (· < ·) := by
  induction ms with
  | nil => simp [insertArity]
  | cons m ms ih =>
      obtain ⟨hm, hms⟩ := List.pairwise_cons.mp h
      unfold insertArity
      split
      · next hlt =>
          refine List.pairwise_cons.mpr ⟨?_, h⟩
          intro k hk
          rcases List.mem_cons.mp hk with rfl | hk
          · exact hlt
          · exact Nat.lt_trans hlt (hm k hk)
      · split
        · exact h
        · -- the number belongs somewhere behind the first one
          refine List.pairwise_cons.mpr ⟨?_, ih hms⟩
          intro k hk
          rcases mem_insertArity.mp hk with rfl | hk
          · omega
          · exact hm k hk

theorem mem_foldr_insertArity {k : Nat} {ns : List Nat} :
    k ∈ ns.foldr insertArity [] ↔ k ∈ ns := by
  induction ns with
  | nil => simp
  | cons n ns ih => simp [mem_insertArity, ih]

theorem pairwise_foldr_insertArity (ns : List Nat) :
    (ns.foldr insertArity []).Pairwise (· < ·) := by
  induction ns with
  | nil => simp
  | cons n ns ih => exact pairwise_insertArity ih

/-! ### Two answers from one registration -/

variable (l : FunctionLibrary) {name : ExpandedName}

/-- The numbers of arguments are listed in ascending order, each once. -/
theorem pairwise_arities (name : ExpandedName) : (l.arities name).Pairwise (· < ·) := by
  unfold arities
  split
  · simp
  · exact pairwise_foldr_insertArity _

theorem mem_arities_iff (h : l.constructorTarget? name = none) {n : Nat} :
    n ∈ l.arities name ↔ ∃ s ∈ l.signatures name, n ∈ s.arities := by
  unfold arities
  rw [h]
  simp only [mem_foldr_insertArity, List.mem_flatMap]

theorem bind?_of_target {t : AtomicType} (h : l.constructorTarget? name = some t) (n : Nat) :
    l.bind? name n =
      if n = 1 then some ⟨name, 1, .constructor t, ⟨.atomic t, .zeroOrOne⟩⟩ else none := by
  unfold bind?
  rw [h]
  by_cases hn : n = 1 <;> simp [hn]

theorem isSome_bind?_iff (h : l.constructorTarget? name = none) {n : Nat} :
    (l.bind? name n).isSome = true ↔ ∃ s ∈ l.signatures name, s.accepts n = true := by
  unfold bind?
  rw [h]
  simp

/-- The first of the signatures of a name that pass a test, among all that are registered. -/
theorem find?_signatures {p : Signature → Bool} {s : Signature} :
    (l.signatures name).find? p = some s ↔ ∃ before after,
      l.entries = before ++ (name, s) :: after ∧ (∀ r, (name, r) ∈ before → p r = false) ∧
        p s = true := by
  unfold signatures
  rw [List.find?_filterMap, Option.bind_eq_some_iff]
  constructor
  · intro h
    obtain ⟨⟨n, r⟩, hfind, hname⟩ := h
    obtain ⟨hr, before, after, hentries, hbefore⟩ := List.find?_eq_some_iff_append.mp hfind
    by_cases hn : n = name
    · simp only [hn, if_true, Option.some.injEq, Option.any_some] at hname hr
      subst hn hname
      refine ⟨before, after, hentries, ?_, hr⟩
      intro q hq
      simpa using hbefore _ hq
    · simp [hn] at hname
  · intro h
    obtain ⟨before, after, hentries, hbefore, hs⟩ := h
    refine ⟨(name, s), ?_, by simp⟩
    apply List.find?_eq_some_iff_append.mpr
    refine ⟨by simpa using hs, before, after, hentries, ?_⟩
    rintro ⟨n, r⟩ hr
    by_cases hn : n = name
    · subst hn
      simpa using hbefore r hr
    · simp [hn]

/-- A call refers to the signature that was registered first among those of its name that accept
it. -/
theorem bind?_eq_some_iff (h : l.constructorTarget? name = none) {n : Nat} {f : FunctionBinding} :
    l.bind? name n = some f ↔ ∃ before s after, l.entries = before ++ (name, s) :: after ∧
      (∀ r, (name, r) ∈ before → r.accepts n = false) ∧ s.accepts n = true ∧
        f = ⟨name, n, s.kind, s.result⟩ := by
  unfold bind?
  rw [h]
  simp only [Option.map_eq_some_iff, find?_signatures]
  constructor
  · intro hbind
    obtain ⟨s, ⟨before, after, hentries, hbefore, hs⟩, hf⟩ := hbind
    exact ⟨before, s, after, hentries, hbefore, hs, hf.symm⟩
  · intro hbind
    obtain ⟨before, s, after, hentries, hbefore, hs, hf⟩ := hbind
    exact ⟨s, ⟨before, after, hentries, hbefore, hs⟩, hf.symm⟩

/-- What is listed can be called. -/
theorem isSome_bind?_of_mem_arities {n : Nat} (h : n ∈ l.arities name) :
    (l.bind? name n).isSome = true := by
  cases htarget : l.constructorTarget? name with
  | some t =>
      have hone : n = 1 := by simpa [arities, htarget] using h
      rw [l.bind?_of_target htarget, if_pos hone]
      rfl
  | none =>
      obtain ⟨s, hs, hn⟩ := (l.mem_arities_iff htarget).mp h
      exact (l.isSome_bind?_iff htarget).mpr ⟨s, hs, (Signature.mem_arities_iff.mp hn).1⟩

/-- What can be called is listed, but for what a signature without an upper end accepts above its
least number. -/
theorem mem_arities_of_isSome_bind? {n : Nat} (h : (l.bind? name n).isSome = true) :
    n ∈ l.arities name ∨ l.constructorTarget? name = none ∧
      ∃ s ∈ l.signatures name, s.most = none ∧ s.least ≤ n := by
  cases htarget : l.constructorTarget? name with
  | some t =>
      left
      by_cases hn : n = 1
      · simp [arities, htarget, hn]
      · simp [l.bind?_of_target htarget, hn] at h
  | none =>
      obtain ⟨s, hs, haccepts⟩ := (l.isSome_bind?_iff htarget).mp h
      by_cases hn : n ∈ s.arities
      · left
        exact (l.mem_arities_iff htarget).mpr ⟨s, hs, hn⟩
      · right
        -- with an upper end every number that the signature accepts is one of its own
        have hopen : s.most = none := by
          cases hmost : s.most with
          | none => rfl
          | some most =>
              exact absurd (Signature.mem_arities_iff.mpr ⟨haccepts, by simp [hmost]⟩) hn
        exact ⟨rfl, s, hs, hopen, (Signature.accepts_iff.mp haccepts).1⟩

end FunctionLibrary

/-! ### Unknown functions -/

theorem Fault.isAnswer_of_isPlain {host : Resolver} {f : Fault} (h : f.isPlain = true) :
    f.IsAnswer host := by
  cases f with
  | noFunction name arity known => cases h
  | _ => trivial

/-- Only an unknown function is reported with the code for it. -/
theorem Fault.eq_noFunction {f : Fault} {language : Language}
    (h : (f.ownCode?.getD language.defaultCode).name = ErrorCode.XPST0017.name) :
    ∃ name arity known, f = .noFunction name arity known := by
  have hcode := ErrorCode.name_injective h
  cases f with
  | noFunction name arity known => exact ⟨name, arity, known, rfl⟩
  | _ => cases language <;> cases hcode

/-- What is not read up to its end has met a fault, and if that names an unknown function, the
declarations have none for the call. -/
theorem Parse.isAnswer_of_complete {language : Language} {context : StaticContext}
    {terminator : Token} {s t : ParseState} {e : Error}
    (h : complete ⟨language, context.resolver⟩ terminator s = .error e t) :
    ∃ f : Fault, f.IsAnswer context.resolver ∧
      e = report ⟨language, context.resolver⟩ t.cursor f :=
  fault_of_allowed (fun _ f => f.IsAnswer context.resolver)
    (fun _ _ => Fault.isAnswer_of_isPlain) (fun _ _ hf => hf.isAnswer)
    (fun _ _ => ⟨trivial, trivial⟩) (fun _ _ _ => trivial) h

/-- The error says that a function is unknown, and lists numbers of arguments that are not the one
of the call. -/
def FunctionLibrary.Misses (l : FunctionLibrary) (e : Error) : Prop :=
  ∃ name arity, l.bind? name arity = none ∧ arity ∉ l.arities name ∧
    e.message = (Fault.noFunction name arity (l.arities name)).message

theorem Parse.misses_of_complete {language : Language} {context : StaticContext}
    {terminator : Token} {s t : ParseState} {e : Error}
    (h : complete ⟨language, context.resolver⟩ terminator s = .error e t)
    (hcode : e.code = ErrorCode.XPST0017.name) : context.functions.Misses e := by
  obtain ⟨f, hf, rfl⟩ := isAnswer_of_complete h
  obtain ⟨name, arity, known, rfl⟩ := Fault.eq_noFunction hcode
  obtain ⟨hbind, rfl⟩ := hf
  have hnone : context.functions.bind? name arity = none := Except.ok.inj hbind
  refine ⟨name, arity, hnone, ?_, rfl⟩
  intro hmem
  have hsome := context.functions.isSome_bind?_of_mem_arities hmem
  rw [hnone] at hsome
  cases hsome

/-- The two answers of a library agree, whatever has been registered and in whatever order: a
library is the list of what has been registered. So no call of an unknown function is answered
with the number of its own arguments. -/
theorem FunctionLibrary.lookup_agrees (l : FunctionLibrary) :
    (∀ name, (l.arities name).Pairwise (· < ·) ∧
      (∀ n ∈ l.arities name, (l.bind? name n).isSome = true) ∧
      (∀ n, (l.bind? name n).isSome = true → n ∈ l.arities name ∨
        l.constructorTarget? name = none ∧
          ∃ s ∈ l.signatures name, s.most = none ∧ s.least ≤ n) ∧
      (∀ t, l.constructorTarget? name = some t → ∀ n, l.bind? name n =
        if n = 1 then some ⟨name, 1, .constructor t, ⟨.atomic t, .zeroOrOne⟩⟩ else none) ∧
      (l.constructorTarget? name = none → ∀ n f, l.bind? name n = some f ↔
        ∃ before s after, l.entries = before ++ (name, s) :: after ∧
          (∀ r, (name, r) ∈ before → r.accepts n = false) ∧ s.accepts n = true ∧
            f = ⟨name, n, s.kind, s.result⟩)) ∧
    ∀ (context : StaticContext) (source : String) (warnings : List String) (e : Error),
      context.functions = l → e.code = ErrorCode.XPST0017.name →
        (∀ start terminator, (readExpressionAt source start terminator context.resolver
          warnings).outcome = .error e → l.Misses e) ∧
        ((readPattern source context.resolver warnings).outcome = .error e → l.Misses e) ∧
        (readSequenceType source context.resolver warnings).outcome ≠ .error e := by
  constructor
  · intro name
    exact ⟨l.pairwise_arities name, fun n => l.isSome_bind?_of_mem_arities,
      fun n => l.mem_arities_of_isSome_bind?, fun t => l.bind?_of_target,
      fun h n f => l.bind?_eq_some_iff h⟩
  · intro context source warnings e hl hcode
    subst hl
    refine ⟨?_, ?_, ?_⟩
    · intro start terminator h
      exact Parse.misses_of_complete (Parser.run_error (Prod.ext h rfl)).1 hcode
    · intro h
      exact Parse.misses_of_complete (Parser.run_error (Prod.ext h rfl)).1 hcode
    · intro h
      obtain ⟨f, hf, rfl⟩ := fault_of_completeType (Parser.run_error (Prod.ext h rfl)).1
      obtain ⟨name, arity, known, rfl⟩ := Fault.eq_noFunction hcode
      rcases hf with hplain | ⟨message, heq⟩
      · cases hplain
      · cases heq

/-- A library with two signatures of one name, both of which accept two arguments. -/
def FunctionLibrary.overlapping : FunctionLibrary :=
  (({} : FunctionLibrary).register ⟨Namespace.functions, "f"⟩
    ⟨1, some 2, .extended, .anySequence⟩).register ⟨Namespace.functions, "f"⟩
      ⟨2, none, .extended, .singleItem⟩

/-- Two arguments are listed and accepted, and a call without arguments is answered with one and
two. -/
theorem FunctionLibrary.lookup_agrees_of_overlapping :
    2 ∈ overlapping.arities ⟨Namespace.functions, "f"⟩ ∧
      (overlapping.bind? ⟨Namespace.functions, "f"⟩ 2).isSome = true ∧
      ∃ e, (readExpressionAt "f()" 0 .eof (StaticContext.resolver { functions := overlapping })
        []).outcome = .error e ∧ e.code = ErrorCode.XPST0017.name ∧ overlapping.Misses e := by
  have hlisted : 2 ∈ overlapping.arities ⟨Namespace.functions, "f"⟩ := by decide
  obtain ⟨hlookup, hmisses⟩ := lookup_agrees overlapping
  refine ⟨hlisted, (hlookup ⟨Namespace.functions, "f"⟩).2.1 2 hlisted, ?_⟩
  obtain ⟨e, he, code, hmem, hcode⟩ : ∃ e, (readExpressionAt "f()" 0 .eof
      (StaticContext.resolver { functions := overlapping }) []).outcome = .error e ∧
        e.HasCode [.XPST0017] := exists_error (by decide +kernel)
  obtain rfl := List.mem_singleton.mp hmem
  exact ⟨e, he, hcode, (hmisses { functions := overlapping } "f()" [] e rfl hcode).1 0 .eof he⟩

end XPath
