import XPath.Parser
import XPath.Proofs.Grouping

/-!
# Chains of operators

A chain is a row of names with signs before them, type operators behind them and binary operators
between them, written with single blanks. `Chain.tree` is the expression that it stands for:
the signs of a name are applied first, then its type operators, and then the operands are
grouped by the precedence of the operators between them. A reader meets the same text as one
row of steps (`Chain.steps`), in which a type operator is an operator like the others.
-/

namespace XPath

/-! ### Lengths -/

/-- The bytes of texts in a row add up. -/
theorem utf8Length_append (cs ds : List Char) :
    utf8Length (cs ++ ds) = utf8Length cs + utf8Length ds := by
  induction cs with
  | nil => exact (Nat.zero_add _).symm
  | cons c cs ih =>
      rw [List.cons_append, utf8Length_cons, utf8Length_cons, ih, Nat.add_assoc]

/-! ### Chains -/

/-- A name without a colon. It may be spelled like a keyword or an operator. -/
structure Word where
  chars : List Char
  isNCName : isNCName chars = true

/-- The ways to write the operator. -/
def BinaryOperator.spellings : BinaryOperator → List String
  | set .union => ["union", "|"]
  | op => [op.symbol]

/-- A type operator, and an atomic type with a question mark as its target. -/
structure TypeSuffix where
  op : TypeOperator
  target : AtomicType
  concrete : target.isAbstract = false

/-- A name with signs before it and type operators behind it. -/
structure Operand where
  signs : List Sign
  word : Word
  suffixes : List TypeSuffix

/-- A binary operator in one of its spellings, and the operand behind it. -/
structure Link where
  op : BinaryOperator
  spelling : String
  spelled : spelling ∈ op.spellings
  operand : Operand

/-- Operands with operators between them. -/
structure Chain where
  first : Operand
  links : List Link

/-- The operands from the first to the last. -/
def Chain.operands (c : Chain) : List Operand :=
  c.first :: c.links.map Link.operand

/-! ### How a chain is written -/

/-- The sign as it is written. -/
def Sign.char : Sign → Char
  | plus => '+'
  | minus => '-'

/-- Signs, with a blank behind each. -/
def signsText (signs : List Sign) : List Char :=
  signs.flatMap fun s => [s.char, ' ']

/-- A name with its signs. -/
def signedText (signs : List Sign) (word : Word) : List Char :=
  signsText signs ++ word.chars

theorem utf8Length_signedText (signs : List Sign) (word : Word) :
    utf8Length (signedText signs word) = 2 * signs.length + utf8Length word.chars := by
  rw [signedText, utf8Length_append]
  congr 1
  induction signs with
  | nil => rfl
  | cons s signs ih =>
      have hsign : utf8Length [s.char, ' '] = 2 := by cases s <;> rfl
      rw [signsText, List.flatMap_cons, ← signsText, utf8Length_append, ih, hsign,
        List.length_cons]
      omega

def TypeSuffix.text (t : TypeSuffix) : List Char :=
  t.op.symbol.toList ++ ' ' :: (t.target.render.toList ++ ['?'])

def Operand.text (o : Operand) : List Char :=
  signedText o.signs o.word ++ o.suffixes.flatMap fun t => ' ' :: t.text

def Link.text (l : Link) : List Char :=
  l.spelling.toList ++ ' ' :: l.operand.text

def Chain.text (c : Chain) : List Char :=
  c.first.text ++ c.links.flatMap fun l => ' ' :: l.text

/-- The number of signs and operators. -/
def Operand.weight (o : Operand) : Nat :=
  o.signs.length + o.suffixes.length

/-- The number of signs and operators in links. -/
def linksWeight : List Link → Nat
  | [] => 0
  | l :: links => 1 + l.operand.weight + linksWeight links

/-- The number of signs and operators in a chain. -/
def Chain.weight (c : Chain) : Nat :=
  c.first.weight + linksWeight c.links

/-! ### What a chain stands for -/

/-- A child step with the signs before it, from a byte offset on. -/
def signedAt (word : Word) : Nat → List Sign → Expr
  | n, [] => .axisStep n .child (.name .element (.unqualified (String.ofList word.chars)))
  | n, s :: signs => .unary n s (signedAt word (n + 2) signs)

/-- What the type operator tests, or converts to. -/
def TypeSuffix.operation (t : TypeSuffix) : TypeOperation :=
  match t.op with
  | .instanceOf => .instanceOf ⟨.atomic t.target, .zeroOrOne⟩
  | .treatAs => .treatAs ⟨.atomic t.target, .zeroOrOne⟩ .XPDY0050
  | .castableAs => .castableAs ⟨t.target, true⟩
  | .castAs => .castAs ⟨t.target, true⟩

/-- An expression with type operators behind it, the first of them applied first. -/
def suffixedAt : Nat → Expr → List TypeSuffix → Expr
  | _, e, [] => e
  | n, e, t :: suffixes =>
    suffixedAt (n + 1 + utf8Length t.text) (.typed (n + 1) t.operation e) suffixes

def Operand.treeAt (n : Nat) (o : Operand) : Expr :=
  suffixedAt (n + utf8Length (signedText o.signs o.word)) (signedAt o.word n o.signs) o.suffixes

/-- A binary operator at a byte offset, with an operand behind it. -/
def binaryJoint (n : Nat) (op : BinaryOperator) (operand : Expr) : Joint :=
  ⟨op.precedence, fun left right => .binary n op left right, operand⟩

/-- The operators of a chain behind a byte offset. -/
def jointsAt : Nat → List Link → List Joint
  | _, [] => []
  | n, l :: links =>
    binaryJoint (n + 1) l.op (l.operand.treeAt (n + 1 + utf8Length l.spelling.toList + 1)) ::
      jointsAt (n + 1 + utf8Length l.text) links

/-- The expression that a chain stands for. -/
def Chain.tree (c : Chain) : Expr :=
  Joint.group (c.first.treeAt 0) (jointsAt (utf8Length c.first.text) c.links)

/-! ### Type operators in a row -/

/-- Every type operator binds looser than the one before it. -/
def Operand.Descending (o : Operand) : Prop :=
  (o.suffixes.map (·.op.precedence)).Pairwise (· > ·)

/-- The first type operator that does not bind looser than the one before it. -/
def clash? : List TypeSuffix → Option TypeOperator
  | s :: t :: suffixes =>
    if t.op.precedence < s.op.precedence then clash? (t :: suffixes) else some t.op
  | _ => none

/-- The first such operator of a chain. -/
def Chain.clash? (c : Chain) : Option TypeOperator :=
  c.operands.findSome? fun o => XPath.clash? o.suffixes

/-- None clashes exactly when each is looser than all before it. -/
theorem clash?_eq_none_iff {suffixes : List TypeSuffix} :
    clash? suffixes = none ↔ (suffixes.map (·.op.precedence)).Pairwise (· > ·) := by
  induction suffixes with
  | nil => exact ⟨fun _ => .nil, fun _ => rfl⟩
  | cons s suffixes ih =>
      cases suffixes with
      | nil => exact ⟨fun _ => List.pairwise_singleton _ _, fun _ => rfl⟩
      | cons t suffixes =>
          rw [List.map_cons, List.pairwise_cons, ← ih, clash?]
          constructor
          · intro h
            split at h
            · next hlt =>
                have hlater := ih.mp h
                rw [List.map_cons, List.pairwise_cons] at hlater
                refine ⟨fun p hp => ?_, h⟩
                rcases List.mem_cons.mp hp with rfl | hp
                · exact hlt
                · exact Nat.lt_trans (hlater.1 p hp) hlt
            · cases h
          · rintro ⟨hfirst, hlater⟩
            rw [if_pos (hfirst t.op.precedence List.mem_cons_self)]
            exact hlater

/-- No type operators clash in a chain in which those of every operand descend. -/
theorem Chain.clash?_eq_none_iff {c : Chain} :
    c.clash? = none ↔ ∀ o ∈ c.operands, o.Descending :=
  List.findSome?_eq_none_iff.trans
    (forall₂_congr fun _ _ => XPath.clash?_eq_none_iff)

/-! ### Steps -/

/-- What a reader meets behind an operand: a binary operator with the signs and the name behind
it, or a type operator with its target. -/
inductive Step
  | binary (op : BinaryOperator) (spelling : String) (spelled : spelling ∈ op.spellings)
      (signs : List Sign) (word : Word)
  | typed (suffix : TypeSuffix)

namespace Step

def precedence : Step → Nat
  | binary op _ _ _ _ => op.precedence
  | typed t => t.op.precedence

def text : Step → List Char
  | binary _ spelling _ signs word => spelling.toList ++ ' ' :: signedText signs word
  | typed t => t.text

def weight : Step → Nat
  | binary _ _ _ signs _ => 1 + signs.length
  | typed _ => 1

/-- The step at a byte offset as an operator. A type operator has no operand behind it. -/
def jointAt (n : Nat) : Step → Joint
  | binary op spelling _ signs word =>
    binaryJoint n op (signedAt word (n + utf8Length spelling.toList + 1) signs)
  | typed t => ⟨t.op.precedence, fun left _ => .typed n t.operation left, .root n⟩

/-- Steps, with a blank before each. -/
def textOf (steps : List Step) : List Char :=
  steps.flatMap fun s => ' ' :: s.text

def weightOf : List Step → Nat
  | [] => 0
  | s :: steps => s.weight + weightOf steps

/-- The operators of steps behind a byte offset. -/
def jointsAt : Nat → List Step → List Joint
  | _, [] => []
  | n, s :: steps => s.jointAt (n + 1) :: jointsAt (n + 1 + utf8Length s.text) steps

/-- The first type operator that does not bind looser than one right before it. -/
def clash? : List Step → Option TypeOperator
  | [] => none
  | binary _ _ _ _ _ :: steps => clash? steps
  | typed s :: steps =>
    match steps with
    | typed t :: _ => if t.op.precedence < s.op.precedence then clash? steps else some t.op
    | _ => clash? steps

theorem precedence_jointAt (n : Nat) (s : Step) : (s.jointAt n).precedence = s.precedence := by
  cases s <;> rfl

theorem textOf_cons (s : Step) (steps : List Step) :
    textOf (s :: steps) = ' ' :: (s.text ++ textOf steps) := by
  simp [textOf]

theorem utf8Length_binary {op : BinaryOperator} {spelling : String}
    {spelled : spelling ∈ op.spellings} {signs : List Sign} {word : Word} :
    utf8Length (binary op spelling spelled signs word).text =
      utf8Length spelling.toList + 1 + utf8Length (signedText signs word) := by
  have hblank : ' '.utf8Size = 1 := rfl
  rw [text, utf8Length_append, utf8Length_cons, hblank, Nat.add_assoc]

theorem utf8Length_textOf_cons (s : Step) (steps : List Step) :
    utf8Length (textOf (s :: steps)) = 1 + utf8Length s.text + utf8Length (textOf steps) := by
  have hblank : ' '.utf8Size = 1 := rfl
  rw [textOf_cons, utf8Length_cons, utf8Length_append, hblank, Nat.add_assoc]

theorem textOf_append (steps steps' : List Step) :
    textOf (steps ++ steps') = textOf steps ++ textOf steps' := by
  simp [textOf]

/-- Steps in a row are joints in a row, the later ones behind the text of the earlier. -/
theorem jointsAt_append (n : Nat) (steps steps' : List Step) :
    jointsAt n (steps ++ steps') =
      jointsAt n steps ++ jointsAt (n + utf8Length (textOf steps)) steps' := by
  induction steps generalizing n with
  | nil => simp [jointsAt, textOf, utf8Length]
  | cons s steps ih =>
      rw [List.cons_append, jointsAt, jointsAt, ih, List.cons_append, textOf_cons,
        utf8Length_cons, utf8Length_append]
      simp only [Nat.add_assoc]
      rfl

/-- The operators of steps have their precedences, in their order. -/
theorem map_precedence_jointsAt (n : Nat) (steps : List Step) :
    (jointsAt n steps).map Joint.precedence = steps.map precedence := by
  induction steps generalizing n with
  | nil => rfl
  | cons s steps ih => rw [jointsAt, List.map_cons, List.map_cons, ih, precedence_jointAt]

end Step

/-! ### A chain as steps -/

def Operand.steps (o : Operand) : List Step :=
  o.suffixes.map .typed

def Link.steps (l : Link) : List Step :=
  .binary l.op l.spelling l.spelled l.operand.signs l.operand.word :: l.operand.steps

/-- What stands behind the first name of a chain. -/
def Chain.steps (c : Chain) : List Step :=
  c.first.steps ++ c.links.flatMap Link.steps

theorem BinaryOperator.precedence_le (op : BinaryOperator) : op.precedence ≤ 11 := by
  cases op with
  | arithmetic op => cases op <;> decide
  | set op => cases op <;> decide
  | _ => simp [precedence]

theorem BinaryOperator.loosest_le (op : BinaryOperator) : Parse.loosest ≤ op.precedence := by
  cases op with
  | arithmetic op => cases op <;> decide
  | set op => cases op <;> decide
  | _ => simp [precedence, Parse.loosest]

theorem TypeOperator.lt_precedence (op : TypeOperator) : 11 < op.precedence := by
  cases op <;> decide

theorem Operand.text_eq (o : Operand) :
    o.text = signedText o.signs o.word ++ Step.textOf o.steps := by
  simp [Operand.text, Operand.steps, Step.textOf, List.flatMap_map, Step.text]

theorem Link.text_eq (l : Link) : ' ' :: l.text = Step.textOf l.steps := by
  rw [Link.steps, Step.textOf_cons, Link.text, Operand.text_eq, Step.text]
  simp

/-- A chain is written as its first operand and its steps. -/
theorem Chain.text_eq (c : Chain) :
    c.text = signedText c.first.signs c.first.word ++ Step.textOf c.steps := by
  rw [Chain.text, Operand.text_eq, Chain.steps, Step.textOf_append, List.append_assoc]
  simp only [Link.text_eq, Step.textOf, List.flatMap_assoc]

theorem Operand.weightOf_steps (o : Operand) : Step.weightOf o.steps = o.suffixes.length := by
  unfold Operand.steps
  induction o.suffixes with
  | nil => rfl
  | cons t suffixes ih =>
      rw [List.map_cons, Step.weightOf, ih, Step.weight, List.length_cons, Nat.add_comm]

theorem Step.weightOf_append (steps steps' : List Step) :
    weightOf (steps ++ steps') = weightOf steps + weightOf steps' := by
  induction steps with
  | nil => exact (Nat.zero_add _).symm
  | cons s steps ih => rw [List.cons_append, weightOf, weightOf, ih, Nat.add_assoc]

theorem Link.weightOf_steps (l : Link) : Step.weightOf l.steps = 1 + l.operand.weight := by
  rw [Link.steps, Step.weightOf, Operand.weightOf_steps, Step.weight, Operand.weight, Nat.add_assoc]

/-- A chain weighs as much as its first operand and its steps. -/
theorem Chain.weight_eq (c : Chain) :
    c.weight = c.first.signs.length + Step.weightOf c.steps := by
  have hlinks : Step.weightOf (c.links.flatMap Link.steps) = linksWeight c.links := by
    induction c.links with
    | nil => rfl
    | cons l links ih =>
        rw [List.flatMap_cons, Step.weightOf_append, ih, Link.weightOf_steps, linksWeight]
  rw [Chain.steps, Step.weightOf_append, hlinks, Operand.weightOf_steps, Chain.weight,
    Operand.weight, Nat.add_assoc]

/-- Behind the type operators of an operand stands a binary operator, if anything. -/
theorem Link.precedence_head_le {links : List Link} :
    ∀ s ∈ (links.flatMap Link.steps).head?, s.precedence ≤ 11 := by
  intro s hs
  cases links with
  | nil => cases hs
  | cons l links =>
      cases hs
      exact l.op.precedence_le

/-! ### Clashes among steps -/

/-- A row has a clash where a part of it has one, or where two parts meet. -/
theorem Step.clash?_append (taken : List Step) (b : Step) (left : List Step) :
    Step.clash? (taken ++ b :: left) =
      (Step.clash? (taken ++ [b])).or (Step.clash? (b :: left)) := by
  induction taken with
  | nil =>
      have hsingle : Step.clash? [b] = none := by cases b <;> rfl
      rw [List.nil_append, List.nil_append, hsingle]
      rfl
  | cons a taken ih =>
      cases a with
      | binary op spelling spelled signs word => exact ih
      | typed s =>
          cases taken with
          | nil =>
              cases b with
              | binary op spelling spelled signs word => rfl
              | typed t =>
                  simp only [List.cons_append, List.nil_append, Step.clash?]
                  split <;> rfl
          | cons a' taken =>
              cases a' with
              | binary op spelling spelled signs word => exact ih
              | typed t =>
                  simp only [List.cons_append, Step.clash?] at ih ⊢
                  split
                  · exact ih
                  · rfl

theorem Step.clash?_typed_append {suffixes : List TypeSuffix} {rest : List Step}
    (h : ∀ s ∈ rest.head?, s.precedence ≤ 11) :
    Step.clash? (suffixes.map .typed ++ rest) = (XPath.clash? suffixes).or (Step.clash? rest) := by
  induction suffixes with
  | nil => rfl
  | cons s suffixes ih =>
      cases suffixes with
      | nil =>
          cases rest with
          | nil => rfl
          | cons r rest =>
              cases r with
              | binary op spelling spelled signs word => rfl
              | typed t => exact absurd (h _ rfl) (Nat.not_le_of_lt t.op.lt_precedence)
      | cons t suffixes =>
          rw [List.map_cons, List.map_cons, List.cons_append, List.cons_append, clash?,
            XPath.clash?]
          split
          · exact ih
          · rfl

theorem Step.clash?_links (links : List Link) :
    Step.clash? (links.flatMap Link.steps) =
      links.findSome? fun l => XPath.clash? l.operand.suffixes := by
  induction links with
  | nil => rfl
  | cons l links ih =>
      rw [List.flatMap_cons, Link.steps, List.cons_append, clash?, Operand.steps,
        Step.clash?_typed_append Link.precedence_head_le, ih, List.findSome?_cons]
      cases XPath.clash? l.operand.suffixes <;> rfl

/-- The steps of a chain clash where the chain does. -/
theorem Chain.clash?_steps (c : Chain) : Step.clash? c.steps = c.clash? := by
  rw [Chain.steps, Operand.steps, Step.clash?_typed_append Link.precedence_head_le,
    Step.clash?_links, Chain.clash?, Chain.operands, List.findSome?_cons, List.findSome?_map]
  cases XPath.clash? c.first.suffixes <;> rfl

/-! ### The tree of the steps -/

/-- Type operators in descending order are applied one after another. -/
theorem Step.group_typed {suffixes : List TypeSuffix} (n : Nat) (e : Expr)
    (h : (suffixes.map (·.op.precedence)).Pairwise (· > ·)) :
    Joint.group e (jointsAt n (suffixes.map .typed)) = suffixedAt n e suffixes := by
  induction suffixes generalizing n e with
  | nil => exact Joint.group_nil e
  | cons s suffixes ih =>
      rw [List.map_cons, List.pairwise_cons] at h
      have hsplit : Joint.group e (jointsAt n ((s :: suffixes).map .typed)) =
          Joint.group (Joint.group e [(typed s).jointAt (n + 1)])
            (jointsAt (n + 1 + utf8Length s.text) (suffixes.map .typed)) := by
        rw [List.map_cons, jointsAt, ← List.singleton_append]
        refine Joint.group_append e fun k hk j hj => ?_
        rw [List.mem_singleton.mp hj]
        cases suffixes with
        | nil => cases hk
        | cons t suffixes =>
            cases hk
            exact Nat.le_of_lt (h.1 t.op.precedence List.mem_cons_self)
      rw [hsplit, ih _ _ h.2, Joint.group_cons e fun _ hk => absurd hk List.not_mem_nil]
      rfl

/-- The operators of links, each with the type operators of its operand. -/
def blocksAt : Nat → List Link → List Joint.Block
  | _, [] => []
  | n, l :: links =>
    ⟨(Step.binary l.op l.spelling l.spelled l.operand.signs l.operand.word).jointAt (n + 1),
      Step.jointsAt (n + 1 + utf8Length (Step.binary l.op l.spelling l.spelled l.operand.signs
        l.operand.word).text) l.operand.steps⟩ :: blocksAt (n + 1 + utf8Length l.text) links

theorem Step.jointsAt_links (n : Nat) (links : List Link) :
    jointsAt n (links.flatMap Link.steps) = Joint.flatten (blocksAt n links) := by
  induction links generalizing n with
  | nil => rfl
  | cons l links ih =>
      have hlength : n + utf8Length (textOf l.steps) = n + 1 + utf8Length l.text := by
        rw [← Link.text_eq, utf8Length_cons, ← Nat.add_assoc]
        rfl
      rw [List.flatMap_cons, jointsAt_append, ih, hlength]
      rfl

theorem Operand.treeAt_eq {o : Operand} (h : o.Descending) (n : Nat) :
    o.treeAt n = Joint.group (signedAt o.word n o.signs)
      (Step.jointsAt (n + utf8Length (signedText o.signs o.word)) o.steps) :=
  (Step.group_typed _ _ h).symm

/-- An operand whose type operators descend takes them up before the operator in front of it. -/
theorem absorb_blocksAt {n : Nat} {links : List Link}
    (h : ∀ l ∈ links, l.operand.Descending) :
    (blocksAt n links).map Joint.Block.absorb = jointsAt n links := by
  induction links generalizing n with
  | nil => rfl
  | cons l links ih =>
      rw [blocksAt, jointsAt, List.map_cons, ih fun l' hl' => h l' (List.mem_cons_of_mem _ hl')]
      congr 1
      rw [Operand.treeAt_eq (h l List.mem_cons_self)]
      have hstart : n + 1 + utf8Length l.spelling.toList + 1 +
            utf8Length (signedText l.operand.signs l.operand.word) =
          n + 1 + utf8Length (Step.binary l.op l.spelling l.spelled l.operand.signs
            l.operand.word).text := by
        rw [Step.utf8Length_binary]
        omega
      rw [hstart]
      rfl

theorem Step.lt_precedence_typed {n : Nat} {suffixes : List TypeSuffix} {j : Joint}
    (h : j ∈ jointsAt n (suffixes.map .typed)) : 11 < j.precedence := by
  have hprecedence := List.mem_map_of_mem (f := Joint.precedence) h
  rw [map_precedence_jointsAt, List.map_map] at hprecedence
  obtain ⟨t, -, ht⟩ := List.mem_map.mp hprecedence
  rw [← ht]
  exact t.op.lt_precedence

theorem precedence_blocksAt {n : Nat} {links : List Link} :
    ∀ b ∈ blocksAt n links, b.joint.precedence ≤ 11 ∧ ∀ j ∈ b.within, 11 < j.precedence := by
  induction links generalizing n with
  | nil => exact fun _ hb => absurd hb List.not_mem_nil
  | cons l links ih =>
      intro b hb
      rcases List.mem_cons.mp hb with rfl | hb
      · exact ⟨l.op.precedence_le, fun _ hj => Step.lt_precedence_typed hj⟩
      · exact ih b hb

/-- In a chain whose type operators descend behind every operand, grouping all operators alike
gives the same as grouping the operands. -/
theorem Chain.group_steps {c : Chain} (h : ∀ o ∈ c.operands, o.Descending) :
    Joint.group (signedAt c.first.word 0 c.first.signs)
      (Step.jointsAt (utf8Length (signedText c.first.signs c.first.word)) c.steps) = c.tree := by
  have hlinks : ∀ l ∈ c.links, l.operand.Descending := fun l hl =>
    h _ (List.mem_cons_of_mem _ (List.mem_map_of_mem hl))
  have hfirst := Operand.treeAt_eq (h c.first List.mem_cons_self) 0
  rw [Nat.zero_add] at hfirst
  have hlength : utf8Length (signedText c.first.signs c.first.word) +
      utf8Length (Step.textOf c.first.steps) = utf8Length c.first.text := by
    rw [Operand.text_eq, utf8Length_append]
  -- behind the type operators of the first operand comes a binary operator, if anything
  have hlooser : ∀ k ∈ (Step.jointsAt (utf8Length c.first.text)
        (c.links.flatMap Link.steps)).head?,
      ∀ j ∈ Step.jointsAt (utf8Length (signedText c.first.signs c.first.word)) c.first.steps,
        k.precedence ≤ j.precedence := by
    intro k hk j hj
    have hle : k.precedence ≤ 11 := by
      cases hsteps : c.links.flatMap Link.steps with
      | nil =>
          rw [hsteps] at hk
          cases hk
      | cons s steps =>
          rw [hsteps] at hk
          cases hk
          rw [Step.precedence_jointAt]
          exact Link.precedence_head_le s (by rw [hsteps]; rfl)
    exact Nat.le_of_lt (Nat.lt_of_le_of_lt hle (Step.lt_precedence_typed hj))
  rw [Chain.steps, Step.jointsAt_append, hlength, Joint.group_append _ hlooser, ← hfirst,
    Step.jointsAt_links, Joint.group_flatten _ (fun b hb => (precedence_blocksAt b hb).1)
      (fun b hb => (precedence_blocksAt b hb).2), absorb_blocksAt hlinks, Chain.tree]

end XPath
