import XPath.Proofs.Conduct
import XPath.Proofs.Scoping

/-!
# Balance

A reader may fail anywhere, and can be used again afterwards. Whatever it was in the middle of,
no variable is left in scope then and no level in use, and the variables that it declares later
have greater ids (`Parser.balanced_after_calls`). For this it is enough that every call of a reader
keeps the states before and after it even, whether it gives a value or fails (`Keeps`).
-/

namespace XPath

namespace Parse

variable {α : Type} {σ : Setting}

/-- Whether it gives a value or fails, the action leaves a state that is so related to the one
before it. -/
def Keeps (K : ParseState → ParseState → Prop) (p : Parse α) : Prop :=
  ∀ s, K s (final (p s))

namespace Keeps

variable {K : ParseState → ParseState → Prop}

theorem of_obeys {p : Parse α} (hp : Obeys (.free σ) K (fun _ => True) p) : Keeps K p :=
  fun s => (hp s trivial trivial).final

theorem singleWithin (n : Nat) : Keeps Even (singleWithin σ n) :=
  .of_obeys (.singleWithin n)

theorem complete (terminator : Token) : Keeps Even (complete σ terminator) :=
  .of_obeys (.bind .advance fun _ => .upTo terminator)

theorem completeType : Keeps Even (completeType σ) :=
  .of_obeys (.bind .advance fun _ => .wholeType)

end Keeps

end Parse

/-! ### Calls of one reader -/

namespace Parser

/-- What a reader can be asked for. -/
inductive Call
  | expression (terminator : Token)
  | sequenceType

/-- The reader after a call, whatever came of it. -/
def call (p : Parser) : Call → Parser
  | .expression terminator => (p.expression terminator).2
  | .sequenceType => p.sequenceType.2

/-- The reader after several calls. -/
def calls (p : Parser) (cs : List Call) : Parser :=
  cs.foldl call p

/-- The ids of the variables that are declared during a call. -/
def declaredBy (p : Parser) (c : Call) : List Nat :=
  List.range' p.state.nextId ((p.call c).state.nextId - p.state.nextId)

theorem run_snd (p : Parser) {α : Type} (action : Setting → Parse α) :
    (p.run action).2 = { p with state := Parse.final (action p.setting p.state) } := by
  unfold run
  cases action p.setting p.state <;> rfl

theorem even_call (p : Parser) (c : Call) : Parse.Even p.state (p.call c).state := by
  cases c with
  | expression terminator =>
      show Parse.Even p.state (p.run _).2.state
      rw [run_snd]
      exact Parse.Keeps.complete terminator p.state
  | sequenceType =>
      show Parse.Even p.state (p.run _).2.state
      rw [run_snd]
      exact Parse.Keeps.completeType p.state

theorem even_calls (p : Parser) (cs : List Call) : Parse.Even p.state (p.calls cs).state := by
  induction cs generalizing p with
  | nil => exact Parse.Frame.refl p.state
  | cons c cs ih => exact Parse.Frame.trans (p.even_call c) (ih (p.call c))

theorem calls_append (p : Parser) (cs ds : List Call) :
    p.calls (cs ++ ds) = (p.calls cs).calls ds :=
  List.foldl_append

/-- The ids in the tree of a call are declared during that call. -/
theorem mem_declaredBy {p : Parser} {terminator : Token} {e : Expr}
    (hdepth : p.state.depth = 0) (h : (p.expression terminator).1 = .ok e) :
    ∀ id ∈ e.boundIds, id ∈ p.declaredBy (.expression terminator) := by
  intro id hid
  obtain ⟨t, hrun⟩ := expression_ok h
  obtain ⟨-, hreads⟩ := Parse.complete_reads (hdepth ▸ Nat.zero_le _) hrun
  have hafter : (p.call (.expression terminator)).state = t := by
    show (p.run (Parse.complete · terminator)).2.state = t
    rw [run_snd]
    exact congrArg Parse.final hrun
  have hlow : p.state.nextId ≤ id := (hreads.freshIds.2 id hid).1
  have hhigh : id < t.nextId := (hreads.freshIds.2 id hid).2
  rw [declaredBy, hafter, List.mem_range'_1]
  omega

/-- The ids declared during a call are below those that are given out after it. -/
theorem lt_nextId_of_declaredBy {p : Parser} {c : Call} {id : Nat} (h : id ∈ p.declaredBy c) :
    id < (p.call c).state.nextId := by
  have hcounts : p.state.nextId ≤ (p.call c).state.nextId := (p.even_call c).balanced.counts
  rw [declaredBy, List.mem_range'_1] at h
  omega

/-- A reader is balanced after every call: whether the calls so far have succeeded or failed, no
variable is in scope and no level in use. The ids that the tree of the next call binds are
declared in that call, and greater than all ids that were declared in the calls before it. -/
theorem balanced_after_calls (source : String) (start : Nat) (language : Language)
    (host : Resolver) (warnings : List String) (cs : List Call) :
    let fresh := ofSource source start language host warnings
    (fresh.calls cs).inScope = 0 ∧ (fresh.calls cs).state.depth = 0 ∧
      ∀ terminator e, ((fresh.calls cs).expression terminator).1 = .ok e → ∀ id ∈ e.boundIds,
        id ∈ (fresh.calls cs).declaredBy (.expression terminator) ∧
          ∀ earlier c later, cs = earlier ++ c :: later →
            ∀ old ∈ (fresh.calls earlier).declaredBy c, old < id := by
  intro fresh
  have heven := fresh.even_calls cs
  refine ⟨?_, heven.depth, fun terminator e he id hid => ?_⟩
  · rw [inScope, heven.balanced.scope]
    rfl
  · have hdeclared := mem_declaredBy heven.depth he id hid
    refine ⟨hdeclared, ?_⟩
    rintro earlier c later rfl old hold
    -- what was declared then is below the next id after that call, and so is all that follows
    have hold : old < ((fresh.calls earlier).call c).state.nextId := lt_nextId_of_declaredBy hold
    have hlater : ((fresh.calls earlier).call c).state.nextId ≤
        (fresh.calls (earlier ++ c :: later)).state.nextId := by
      rw [calls_append]
      exact (even_calls _ later).balanced.counts
    have hnew : (fresh.calls (earlier ++ c :: later)).state.nextId ≤ id := by
      rw [declaredBy, List.mem_range'_1] at hdeclared
      exact hdeclared.1
    omega

/-- Two calls fail, the first one within a binding after it has declared a variable. The third
call binds the next id. -/
theorem balanced_after_failures :
    let fresh := ofSource "for $x in (1, for $y in 2 return ) \x7d for $z in 3 return $z \x7d" 0
      .expression ({} : StaticContext).resolver []
    let failed := fresh.calls [.expression .rightBrace, .expression .rightBrace]
    fresh.declaredBy (.expression .rightBrace) = [0] ∧ failed.inScope = 0 ∧
      ∃ e, (failed.expression .rightBrace).1 = .ok e ∧ e.boundIds = [1] ∧
        ∀ old ∈ fresh.declaredBy (.expression .rightBrace), old < 1 := by
  intro fresh failed
  have hbalanced := balanced_after_calls
    "for $x in (1, for $y in 2 return ) \x7d for $z in 3 return $z \x7d" 0 .expression
    ({} : StaticContext).resolver [] [.expression .rightBrace, .expression .rightBrace]
  have hids : (failed.expression .rightBrace).1.toOption.map Expr.boundIds = some [1] := by
    decide +kernel
  cases he : (failed.expression .rightBrace).1 with
  | error e =>
      rw [he] at hids
      cases hids
  | ok e =>
      rw [he] at hids
      have hids : e.boundIds = [1] := Option.some.inj hids
      have hnew := hbalanced.2.2 .rightBrace e he 1 (by rw [hids]; exact List.mem_singleton_self 1)
      exact ⟨by decide +kernel, hbalanced.1, e, rfl, hids,
        hnew.2 [] (.expression .rightBrace) [.expression .rightBrace] rfl⟩

end Parser
end XPath
