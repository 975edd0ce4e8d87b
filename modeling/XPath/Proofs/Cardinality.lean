import XPath.Proofs.Assembling
import XPath.Proofs.Balance
import XPath.Proofs.LoopTypes

/-!
# Empty types

The type of the empty sequence has an item type and an occurrence of its own, and a type that is
written down has both or neither (`Parse.sequenceType_isPaired`). A bound variable stands for
exactly one item, whatever the type of its domain is, so that its type is paired in that way
unless its domain is known to be empty. That is the only exception in the trees that are read
(`Parser.types_paired_iff`).
-/

namespace XPath

open Parse

/-! ### Pairs -/

/-- There are no items exactly if no item has the type. -/
def SequenceType.IsPaired (type : SequenceType) : Prop :=
  type.occurrence = .empty ↔ type.item = .empty

instance (type : SequenceType) : Decidable type.IsPaired :=
  inferInstanceAs (Decidable (_ ↔ _))

/-- A pair without items is the type of the empty sequence. -/
theorem SequenceType.IsPaired.eq_empty_iff {type : SequenceType} (h : type.IsPaired) :
    type = .empty ↔ type.item = .empty := by
  constructor
  · rintro rfl
    rfl
  · intro hitem
    have hoccurrence := h.mpr hitem
    cases type
    cases hitem
    cases hoccurrence
    rfl

/-- Of the types of exactly one item all are paired but one. -/
theorem SequenceType.isPaired_exactlyOne (item : ItemType) :
    (⟨item, .exactlyOne⟩ : SequenceType).IsPaired ↔ item ≠ .empty := by
  constructor
  · intro h hitem
    cases h.mpr hitem
  · intro h
    exact ⟨by rintro ⟨⟩, fun hitem => absurd hitem h⟩

namespace Parse

variable {σ : Setting} {s t : ParseState} {type : SequenceType}

theorem ne_empty_of_occurrenceMark? {token : Token} {occurrence : Occurrence}
    (h : occurrenceMark? token = some occurrence) : occurrence ≠ .empty := by
  rintro rfl
  unfold occurrenceMark? at h
  split at h <;> cases h

theorem sequenceType_isPaired (h : sequenceType σ s = .ok type t) : type.IsPaired := by
  unfold sequenceType at h
  obtain ⟨item, u, -, h⟩ := bind_ok.mp h
  split at h
  · obtain ⟨rfl, -⟩ := pure_ok.mp h
    exact ⟨fun _ => rfl, fun _ => rfl⟩
  · next hitem =>
      rw [token_bind] at h
      cases hmark : occurrenceMark? u.cursor.token with
      | none =>
          rw [hmark] at h
          obtain ⟨rfl, -⟩ := pure_ok.mp h
          exact (SequenceType.isPaired_exactlyOne item).mpr hitem
      | some occurrence =>
          rw [hmark] at h
          obtain ⟨_, _, -, h⟩ := bind_ok.mp h
          obtain ⟨rfl, -⟩ := pure_ok.mp h
          exact ⟨fun hnone => absurd hnone (ne_empty_of_occurrenceMark? hmark),
            fun hnone => absurd hnone hitem⟩

theorem completeType_isPaired (h : completeType σ s = .ok type t) : type.IsPaired := by
  obtain ⟨_, _, -, h⟩ := bind_ok.mp h
  obtain ⟨type', u, htype, h⟩ := bind_ok.mp h
  rw [token_bind] at h
  split at h
  · obtain ⟨rfl, -⟩ := pure_ok.mp h
    exact sequenceType_isPaired htype
  · obtain ⟨_, _, -, h⟩ := bind_ok.mp h
    exact absurd h reject_ne_ok

end Parse

/-! ### Types in a tree -/

/-- The sequence type that is written behind an operator. -/
def TypeOperation.written : TypeOperation → Option SequenceType
  | instanceOf type | treatAs type _ => some type
  | castAs _ | castableAs _ => none

namespace Expr

/-- The sequence type that a reader has made for a node: one that is written in it, or the type of
the variable that it binds or refers to. -/
def builtType? : Expr → Option SequenceType
  | typed _ op _ => op.written
  | binding _ _ v _ _ | varRef _ (.range v) => some v.type
  | _ => none

/-- Every binding around a place in an expression is a part of it. -/
theorem exists_binding_of_occurs {e sub : Expr} {bs : List Binder} (h : Occurs e bs sub) :
    ∀ b ∈ bs, ∃ bs' kind domain action,
      Occurs e bs' (.binding b.start kind b.bound domain action) := by
  induction h with
  | here _ => exact fun _ hb => absurd hb List.not_mem_nil
  | @inside e c sub new bs hmem _ ih =>
      intro b hb
      rcases List.mem_append.mp hb with hb | hb
      · obtain ⟨bs', kind, domain, action, hocc⟩ := ih b hb
        exact ⟨_, kind, domain, action, .inside hmem hocc⟩
      · -- a new binding is the expression itself
        cases e with
        | binding n kind v domain action =>
            simp only [scopedParts, List.mem_cons, Prod.mk.injEq, List.not_mem_nil,
              or_false] at hmem
            rcases hmem with ⟨rfl, -⟩ | ⟨rfl, -⟩
            · exact absurd hb List.not_mem_nil
            · rw [List.mem_singleton.mp hb]
              exact ⟨[], kind, domain, action, .here _⟩
        | _ =>
            obtain ⟨c', -, heq⟩ := List.mem_map.mp hmem
            cases heq
            exact absurd hb List.not_mem_nil

/-- No domain in the expression is known to be empty when its variable gets its type. -/
def NoEmptyDomain (e : Expr) : Prop :=
  ∀ bs n kind v domain action, Occurs e bs (.binding n kind v domain action) →
    (domain.untype (outerIds n bs)).itemType ≠ .empty

/-- What is known of the sequence types that a reader has made. -/
structure HasPairedTypes (e : Expr) : Prop where
  written : ∀ bs n op operand, Occurs e bs (.typed n op operand) →
    ∀ type ∈ op.written, type.IsPaired
  /-- a variable stands for one item, of the type of its domain -/
  bound : ∀ bs n kind v domain action, Occurs e bs (.binding n kind v domain action) →
    v.type.occurrence = .exactlyOne ∧
      (v.type.IsPaired ↔ (domain.untype (outerIds n bs)).itemType ≠ .empty)
  /-- what is referred to is bound somewhere, with the same type -/
  referred : ∀ bs n v, Occurs e bs (.varRef n (.range v)) →
    ∃ bs' m kind domain action, Occurs e bs' (.binding m kind v domain action)

/-- All types are paired exactly if no domain is known to be empty. -/
theorem HasPairedTypes.isPaired_iff {e : Expr} (h : e.HasPairedTypes) :
    (∀ sub ∈ e.nodes, ∀ type ∈ sub.builtType?, type.IsPaired) ↔ e.NoEmptyDomain := by
  constructor
  · intro hall bs n kind v domain action hocc
    exact (h.bound _ _ _ _ _ _ hocc).2.mp (hall _ (mem_nodes.mpr ⟨bs, hocc⟩) v.type rfl)
  · intro hdomains sub hsub type htype
    have hbound : ∀ bs n kind v domain action,
        Occurs e bs (.binding n kind v domain action) → v.type.IsPaired :=
      fun bs n kind v domain action hocc =>
        (h.bound _ _ _ _ _ _ hocc).2.mpr (hdomains _ _ _ _ _ _ hocc)
    obtain ⟨bs, hocc⟩ := mem_nodes.mp hsub
    cases sub with
    | typed n op operand => exact h.written _ _ _ _ hocc type htype
    | binding n kind v domain action =>
        cases htype
        exact hbound _ _ _ _ _ _ hocc
    | varRef n ref =>
        cases ref with
        | range v =>
            cases htype
            obtain ⟨bs', m, kind, domain, action, hbinding⟩ := h.referred _ _ _ hocc
            exact hbound _ _ _ _ _ _ hbinding
        | declared name type => cases htype
    | _ => cases htype

end Expr

/-- What is read where no variable is in scope. -/
theorem Parse.complete_hasPairedTypes {σ : Setting} {s t : ParseState} {terminator : Token}
    {e : Expr} (hscope : s.scope = []) (hdepth : s.depth = 0)
    (h : complete σ terminator s = .ok e t) : e.HasPairedTypes := by
  obtain ⟨-, hreads⟩ := complete_reads (hdepth ▸ Nat.zero_le _) h
  have hbelow : ScopeBelow { s with depth := s.depth + nestedCost } :=
    fun v hv => absurd (hscope ▸ hv) List.not_mem_nil
  have huntyped : ScopeUntyped { s with depth := s.depth + nestedCost } :=
    fun v hv => absurd (hscope ▸ hv) List.not_mem_nil
  constructor
  case written =>
    intro bs n op operand hocc type htype
    have hread := ((complete_assembled h).assembled bs _ hocc).1
    cases op with
    | instanceOf written =>
        cases htype
        obtain ⟨_, _, -, hgave⟩ := hread
        exact sequenceType_isPaired hgave
    | treatAs written code =>
        cases htype
        obtain ⟨⟨_, _, -, hgave⟩, -⟩ := hread
        exact sequenceType_isPaired hgave
    | castAs target => cases htype
    | castableAs target => cases htype
  case bound =>
    intro bs n kind v domain action hocc
    have htype := hreads.loopTyped hbelow huntyped bs n kind v domain action hocc
    rw [List.append_nil] at htype
    rw [htype]
    exact ⟨rfl, SequenceType.isPaired_exactlyOne _⟩
  case referred =>
    intro bs n v hocc
    have hscoped : e.Scoped σ.host s.scope := hreads.scoped hbelow
    have hmem := List.mem_of_find?_eq_some (hscoped bs n _ hocc)
    rw [hscope, List.append_nil] at hmem
    obtain ⟨b, hb, rfl⟩ := List.mem_map.mp hmem
    obtain ⟨bs', kind, domain, action, hbinding⟩ := Expr.exists_binding_of_occurs hocc b hb
    exact ⟨bs', b.start, kind, domain, action, hbinding⟩

/-! ### Sources -/

namespace Parser

theorem run_ok {α : Type} {p : Parser} {action : Setting → Parse α} {a : α}
    (h : (p.run action).1 = .ok a) : ∃ t, action p.setting p.state = .ok a t := by
  unfold run at h
  cases hr : action p.setting p.state with
  | ok b t =>
      rw [hr] at h
      cases h
      exact ⟨t, rfl⟩
  | error e t =>
      rw [hr] at h
      cases h

/-- Whatever a reader has been asked for before, a sequence type that it reads is paired, and so are
those that are written in an expression. A variable stands for exactly one item, and all types
in an expression are paired exactly if no variable has a domain that is known to be empty. -/
theorem types_paired_iff (source : String) (start : Nat) (language : Language) (host : Resolver)
    (warnings : List String) (cs : List Call) :
    let p := (ofSource source start language host warnings).calls cs
    (∀ type, p.sequenceType.1 = .ok type → type.IsPaired) ∧
      ∀ terminator e, (p.expression terminator).1 = .ok e → e.HasPairedTypes ∧
        ((∀ sub ∈ e.nodes, ∀ type ∈ sub.builtType?, type.IsPaired) ↔ e.NoEmptyDomain) := by
  intro p
  have heven := even_calls (ofSource source start language host warnings) cs
  refine ⟨fun type h => ?_, fun terminator e h => ?_⟩
  · obtain ⟨t, hrun⟩ := run_ok h
    exact completeType_isPaired hrun
  · obtain ⟨t, hrun⟩ := expression_ok h
    have hpaired : e.HasPairedTypes :=
      complete_hasPairedTypes heven.balanced.scope heven.depth hrun
    exact ⟨hpaired, hpaired.isPaired_iff⟩

/-- A type that is read behind an expression, in which a variable stands for integers. -/
theorem types_paired_iff_of_integers :
    let fresh := ofSource "for $x in (1, 2) return $x instance of empty-sequence() \x7d item()*" 0
      .expression (StaticContext.resolver {}) []
    (∃ e, (fresh.expression .rightBrace).1 = .ok e ∧ e.HasPairedTypes ∧
        ((∀ sub ∈ e.nodes, ∀ type ∈ sub.builtType?, type.IsPaired) ↔ e.NoEmptyDomain)) ∧
      ∃ type, (fresh.calls [.expression .rightBrace]).sequenceType.1 = .ok type ∧
        type.IsPaired := by
  intro fresh
  have hpaired := types_paired_iff
    "for $x in (1, 2) return $x instance of empty-sequence() \x7d item()*" 0 .expression
    (StaticContext.resolver {}) []
  obtain ⟨e, he⟩ := exists_of_isOk (r := (fresh.expression .rightBrace).1) (by decide +kernel)
  obtain ⟨type, htype⟩ := exists_of_isOk
    (r := (fresh.calls [.expression .rightBrace]).sequenceType.1) (by decide +kernel)
  exact ⟨⟨e, he, (hpaired []).2 .rightBrace e he⟩, type, htype,
    (hpaired [.expression .rightBrace]).1 type htype⟩

/-- A variable whose domain is empty has a type that is not paired. -/
theorem not_isPaired_of_empty_domain :
    ∃ e, ((ofSource "for $x in () return $x" 0 .expression (StaticContext.resolver {})
        []).expression .eof).1 = .ok e ∧
      ∃ sub ∈ e.nodes, ∃ type ∈ sub.builtType?, ¬type.IsPaired := by
  obtain ⟨e, he, hany⟩ := exists_of_any (r := ((ofSource "for $x in () return $x" 0 .expression
    (StaticContext.resolver {}) []).expression .eof).1)
    (c := fun e => e.nodes.any fun sub =>
      sub.builtType?.any fun type : SequenceType => !decide type.IsPaired) (by decide +kernel)
  obtain ⟨sub, hsub, htype⟩ := List.any_eq_true.mp hany
  obtain ⟨type, hmem, hunpaired⟩ := (Option.any_eq_true _ _).mp htype
  exact ⟨e, he, sub, hsub, type, hmem, by simpa using hunpaired⟩

end Parser

end XPath
