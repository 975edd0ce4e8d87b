import XPath.Context.Static
import XPath.Proofs.Forms

/-!
# Calls and casts that are decided

When an expression has been read, nothing about its names is left open. Every call has the
function that the library binds its name to for so many arguments, every cast has a target with
values, and no call or cast is left that makes a name of a string literal, since the qualifiers of
such names are known only to the reader. In a pattern no call is left that has no meaning there.
-/

namespace XPath

open Parse

namespace Expr

/-- Nothing is left to decide about the function of a call. -/
structure CallIsDecided (library : FunctionLibrary) (language : Language) (f : FunctionBinding)
    (args : List Expr) : Prop where
  bound : library.bind? f.name args.length = some f
  arity : f.arity = args.length
  qname : f.kind = .constructor .qname → args.head?.bind stringLiteral? = none
  pattern : language = .pattern →
    f.kind ≠ .currentGroup ∧ f.kind ≠ .currentGroupingKey ∧ f.kind ≠ .regexGroup

/-- Nothing is left to decide about the target of a cast. -/
structure CastIsDecided (target : AtomicType) (operand : Expr) : Prop where
  values : target ≠ .anyAtomicType ∧ target ≠ .notationName
  qname : target = .qname → operand.stringLiteral? = none

/-- Nothing is left to decide about the node. -/
def IsDecided (library : FunctionLibrary) (language : Language) : Expr → Prop
  | call _ f args => CallIsDecided library language f args
  | typed _ (.castAs type) operand | typed _ (.castableAs type) operand =>
    CastIsDecided type.atomic operand
  | sequence _ items => 2 ≤ items.length
  | _ => True

end Expr

/-- A function is bound for the name and the number of arguments that it is looked up by. -/
theorem FunctionLibrary.bind?_arity {l : FunctionLibrary} {name : ExpandedName} {arity : Nat}
    {f : FunctionBinding} (h : l.bind? name arity = some f) : f.arity = arity := by
  unfold bind? at h
  split at h
  · split at h
    · cases h
      rfl
    · cases h
  · obtain ⟨s, -, rfl⟩ := Option.map_eq_some_iff.mp h
    rfl

section Nodes

variable {σ : Setting} {c : Cursor} {context : StaticContext}

theorem FunctionBinding.IsRead.isDecided (hhost : σ.host = context.resolver) {n : Nat}
    {f : FunctionBinding} {args : List Expr} (h : f.IsRead σ c n args) :
    Expr.CallIsDecided context.functions σ.language f args := by
  obtain ⟨name, -, hbind⟩ := h.bound
  rw [hhost] at hbind
  have hlibrary : context.functions.bind? name args.length = some f := Except.ok.inj hbind
  refine ⟨?_, FunctionLibrary.bind?_arity hlibrary, h.qname, h.pattern⟩
  rw [FunctionLibrary.bind?_name hlibrary]
  exact hlibrary

theorem SingleType.IsRead.isDecided {type : SingleType} {operand : Expr}
    (h : type.IsRead σ c operand) : Expr.CastIsDecided type.atomic operand := by
  refine ⟨?_, h.qname⟩
  have hvalues := h.isAbstract
  unfold AtomicType.isAbstract at hvalues
  simpa using hvalues

theorem Expr.IsRead.isDecided (hhost : σ.host = context.resolver) {e : Expr}
    (h : e.IsRead σ c) : e.IsDecided context.functions σ.language := by
  cases e with
  | call n f args => exact FunctionBinding.IsRead.isDecided hhost h
  | typed n op operand =>
      cases op with
      | castableAs type | castAs type => exact SingleType.IsRead.isDecided h
      | _ => trivial
  | sequence n items => exact h
  | _ => trivial

end Nodes

/-- In every expression or pattern that is read with declarations, nothing is left to decide about
any node, at any depth. -/
theorem Parser.decided {p : Parser} {context : StaticContext} {terminator : Token} {e : Expr}
    (hhost : p.setting.host = context.resolver) (h : (p.expression terminator).1 = .ok e)
    {bs : List Binder} {sub : Expr} (hocc : e.Occurs bs sub) :
    sub.IsDecided context.functions p.setting.language := by
  unfold Parser.expression Parser.run at h
  split at h
  · next e' t hrun =>
      cases h
      exact ((complete_assembled hrun).assembled bs sub hocc).1.isDecided hhost
  · cases h

/-- A cast of a call. -/
theorem Parser.decided_of_cast :
    ∃ e operand, ((Parser.ofSource "count((1, 2)) cast as xs:string" 0 .expression
        ({} : StaticContext).resolver []).expression .eof).1 = .ok e ∧
      e.children = [operand] ∧ e.IsDecided .standard .expression ∧
        operand.IsDecided .standard .expression := by
  obtain ⟨e, he, hone⟩ := exists_of_any (r := ((Parser.ofSource "count((1, 2)) cast as xs:string" 0
    .expression ({} : StaticContext).resolver []).expression .eof).1)
    (c := fun e => e.children.length = 1) (by decide +kernel)
  obtain ⟨operand, hoperand⟩ := List.length_eq_one_iff.mp (of_decide_eq_true hone)
  obtain ⟨new, hnew⟩ := Expr.exists_mem_scopedParts (e := e) (c := operand) (by simp [hoperand])
  exact ⟨e, operand, he, hoperand, Parser.decided rfl he (.here e),
    Parser.decided rfl he (.inside hnew (.here operand))⟩

end XPath
