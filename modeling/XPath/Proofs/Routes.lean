import XPath.Proofs.Alone
import XPath.Proofs.ChainReading

/-!
# Routes

A route is a path of names alone: one or more of them with slashes and double slashes between
them, and perhaps one of these before the first. The names may be spelled like keywords. Within
the limit on levels a route is read as its tree (`readExpression_route`), which leans to the left,
and in which no step is lost, added or moved (`Route.leaves_tree`).
-/

namespace XPath

open Parse

/-! ### Routes and their texts -/

/-- What stands between two steps. -/
inductive Separator
  | slash
  | slashes
deriving DecidableEq, Repr

namespace Separator

/-- The separator as it is written. -/
def text : Separator → List Char
  | slash => ['/']
  | slashes => ['/', '/']

def token : Separator → Token
  | slash => .slash
  | slashes => .slashSlash

/-- The bytes of the separator, which are as many as the levels that it takes. -/
def width : Separator → Nat
  | slash => 1
  | slashes => 2

theorem utf8Length_text (s : Separator) : utf8Length s.text = s.width := by
  cases s <;> rfl

theorem isSeparator_token (s : Separator) : isSeparator s.token = true := by
  cases s <;> rfl

theorem separatorLevels_token (s : Separator) : separatorLevels s.token = s.width := by
  cases s <;> rfl

end Separator

/-- Names with separators between them, and perhaps one before the first. -/
structure Route where
  leading : Option Separator
  first : Word
  others : List (Separator × Word)

/-- Separators with the names behind them. -/
def textOfFurther : List (Separator × Word) → List Char
  | [] => []
  | (s, w) :: more => s.text ++ (w.chars ++ textOfFurther more)

/-- A slash counts once and a double slash twice. -/
def weightOfFurther : List (Separator × Word) → Nat
  | [] => 0
  | (s, _) :: more => s.width + weightOfFurther more

namespace Route

/-- The bytes of the separator before the first name. -/
def margin (r : Route) : Nat :=
  match r.leading with
  | none => 0
  | some s => s.width

/-- The route as it is written. -/
def text (r : Route) : List Char :=
  (match r.leading with
    | none => []
    | some s => s.text) ++ (r.first.chars ++ textOfFurther r.others)

/-- What the separators count together. -/
def weight (r : Route) : Nat :=
  r.margin + weightOfFurther r.others

end Route

/-! ### The trees of routes -/

/-- The step to the children of a name that is written at byte `n`. -/
def childStep (n : Nat) (w : Word) : Expr :=
  .axisStep n .child (.name .element (.unqualified (String.ofList w.chars)))

/-- The step to a node and all its descendants, for a double slash at byte `n`. -/
def anyStep (n : Nat) : Expr :=
  .axisStep n .descendantOrSelf .anyNode

namespace Separator

/-- A path with one more step behind a separator at byte `n`. -/
def join (s : Separator) (n : Nat) (before next : Expr) : Expr :=
  match s with
  | slash => .path n before next
  | slashes => .path n before (.path n (anyStep n) next)

/-- The steps that the separator itself stands for. -/
def steps (s : Separator) (n : Nat) : List Expr :=
  match s with
  | slash => []
  | slashes => [anyStep n]

theorem joinStep_token (s : Separator) (n : Nat) (before next : Expr) :
    joinStep n s.token before next = s.join n before next := by
  cases s <;> rfl

end Separator

/-- A path with further steps, the first separator of which is written at byte `n`. -/
def joinFurther : Nat → Expr → List (Separator × Word) → Expr
  | _, before, [] => before
  | n, before, (s, w) :: more =>
    joinFurther (n + s.width + utf8Length w.chars) (s.join n before (childStep (n + s.width) w))
      more

/-- All steps from byte `n` on, in the order in which they are written. -/
def stepsOfFurther : Nat → List (Separator × Word) → List Expr
  | _, [] => []
  | n, (s, w) :: more =>
    s.steps n ++ childStep (n + s.width) w :: stepsOfFurther (n + s.width + utf8Length w.chars) more

namespace Route

/-- Where the first name ends. -/
def firstEnd (r : Route) : Nat :=
  r.margin + utf8Length r.first.chars

/-- What a route starts with: its first step, or the root with that behind it. A double slash puts
its step behind the root. -/
def start (r : Route) : Expr :=
  match r.leading with
  | none => childStep 0 r.first
  | some .slash => .path 0 (.root 0) (childStep 1 r.first)
  | some .slashes => .path 0 (.path 0 (.root 0) (anyStep 0)) (childStep 2 r.first)

/-- The tree of a route. -/
def tree (r : Route) : Expr :=
  joinFurther r.firstEnd r.start r.others

/-- The root, if the route starts with a separator, and all steps in the order in which they are
written, those of double slashes included. -/
def steps (r : Route) : List Expr :=
  match r.leading with
  | none => childStep 0 r.first :: stepsOfFurther r.firstEnd r.others
  | some s => .root 0 :: stepsOfFurther 0 ((s, r.first) :: r.others)

end Route

/-- What is joined by paths, from left to right. -/
def Expr.leaves : Expr → List Expr
  | path _ start step => start.leaves ++ step.leaves
  | e => [e]

/-- Further steps come behind all that is there. -/
theorem leaves_joinFurther (n : Nat) (before : Expr) (others : List (Separator × Word)) :
    (joinFurther n before others).leaves = before.leaves ++ stepsOfFurther n others := by
  induction others generalizing n before with
  | nil => simp [joinFurther, stepsOfFurther]
  | cons further more ih =>
      obtain ⟨s, w⟩ := further
      have hjoin : (s.join n before (childStep (n + s.width) w)).leaves =
          before.leaves ++ (s.steps n ++ [childStep (n + s.width) w]) := by
        cases s <;> rfl
      rw [joinFurther, ih, hjoin, stepsOfFurther]
      simp

/-- Nothing is lost or added in the tree of a route, and nothing is moved. -/
theorem Route.leaves_tree (r : Route) : r.tree.leaves = r.steps := by
  obtain ⟨leading, first, others⟩ := r
  unfold tree
  rw [leaves_joinFurther]
  cases leading with
  | none => rfl
  | some s =>
      cases s with
      | slash =>
          simp [start, steps, stepsOfFurther, firstEnd, margin, Separator.steps, Expr.leaves,
            Separator.width, childStep]
      | slashes =>
          simp [start, steps, stepsOfFurther, firstEnd, margin, Separator.steps, Expr.leaves,
            Separator.width, childStep, anyStep]

/-! ### The tokens of routes -/

/-- The text is empty or starts with a slash. -/
def EndsStep (cs : List Char) : Prop :=
  ∀ c ∈ cs.head?, c = '/'

theorem endsStep_textOfFurther (others : List (Separator × Word)) :
    EndsStep (textOfFurther others) := by
  cases others with
  | nil => exact fun c hc => by cases hc
  | cons further more =>
      obtain ⟨s, w⟩ := further
      intro c hc
      cases s <;> cases hc <;> rfl

namespace EndsStep

variable {cs : List Char}

theorem trivia (h : EndsStep cs) : Token.trivia cs = some ([], cs) := by
  cases cs with
  | nil => rfl
  | cons c cs =>
      obtain rfl := h c rfl
      exact Token.trivia_solid ⟨'/', cs, rfl, rfl, by decide⟩

theorem endsWord (h : EndsStep cs) : Lexeme.EndsWord cs := by
  intro c hc
  obtain rfl := h c hc
  exact ⟨by decide, by decide⟩

/-- The second word of a type operator does not start like this. -/
theorem readTypeOperator (h : EndsStep cs) (word : List Char) :
    Lexeme.readTypeOperator word cs = .ok none := by
  unfold Lexeme.readTypeOperator
  split
  · rfl
  · next second op htype =>
      rw [h.trivia]
      dsimp only
      cases hafter : Lexeme.afterWord? second.toList cs with
      | none => rfl
      | some rest =>
          obtain ⟨hcs, -⟩ := Lexeme.afterWord?_spec hafter
          obtain ⟨c, ds, hsecond, hc⟩ := (isNCName_spec (Lexeme.typeWord?_second htype)).1
          rw [hsecond] at hcs
          obtain rfl := h c (by rw [hcs]; rfl)
          exact absurd hc (by decide)

/-- Every word is a name here, also behind a slash. -/
theorem readWord (h : EndsStep cs) {preceding : Token} (hpreceding : preceding.endsOperand = false)
    (word : List Char) :
    Lexeme.readWord preceding word cs = .ok ⟨.name, String.ofList word, word, cs⟩ := by
  have hoperator : (if preceding.endsOperand = true ∨ preceding = .slash then
      Lexeme.readTypeOperator word cs else .ok none) = .ok none := by
    split
    · exact h.readTypeOperator word
    · rfl
  have hoperand : Lexeme.readOperandWord word cs = .ok ⟨.name, String.ofList word, word, cs⟩ := by
    unfold Lexeme.readOperandWord
    rw [h.trivia]
    dsimp only
    split
    · cases h '(' rfl
    · cases h '$' rfl
    · rfl
  rw [Lexeme.readWord_eq]
  split
  · rfl
  · rw [hoperator, hpreceding]
    exact hoperand

end EndsStep

namespace Cursor

variable {c : Cursor} {n : Nat}

/-- The next token is a name at byte `n`, with further steps behind it. -/
structure AtName (n : Nat) (w : Word) (others : List (Separator × Word)) (c : Cursor) : Prop where
  token : c.token = .name
  value : c.value = String.ofList w.chars
  offset : c.offset = n
  rest : c.rest = textOfFurther others
  position : c.position = n + utf8Length w.chars

/-- The current token is the separator at byte `n` with which further steps start, or the end of
the source. -/
def AtFurther (n : Nat) : List (Separator × Word) → Cursor → Prop
  | [], c => c.token = .eof
  | (s, w) :: more, c => c.token = s.token ∧ c.offset = n ∧
      c.rest = w.chars ++ textOfFurther more ∧ c.position = n + s.width

theorem advance_name (hends : c.token.endsOperand = false) {w : Word}
    {others : List (Separator × Word)} (hrest : c.rest = w.chars ++ textOfFurther others)
    (hposition : c.position = n) : ∃ d, c.advance = (.ok (), d) ∧ AtName n w others d := by
  have hstep := endsStep_textOfFurther others
  have hgap : Token.trivia c.rest = some ([], w.chars ++ textOfFurther others) := by
    rw [hrest]
    exact Token.trivia_solid ((IsWord.simple w.isNCName).isSolid _)
  have hread : Lexeme.read c.token (w.chars ++ textOfFurther others) = _ :=
    (Lexeme.read_word w.isNCName hstep.endsWord).trans (hstep.readWord hends w.chars)
  refine ⟨_, advance_eq hgap hread, rfl, rfl, ?_, rfl, ?_⟩
  · show c.position + 0 = n
    omega
  · show c.position + 0 + utf8Length w.chars = _
    omega

/-- A slash and a double slash are told apart by the name behind them. -/
theorem read_separator (preceding : Token) (s : Separator) {w : Word} (cs : List Char) :
    Lexeme.read preceding (s.text ++ (w.chars ++ cs)) =
      .ok ⟨s.token, "", s.text, w.chars ++ cs⟩ := by
  obtain ⟨⟨d, ds, hchars, hd⟩, -⟩ := isNCName_spec w.isNCName
  rw [hchars]
  cases s with
  | slashes => rfl
  | slash =>
      have hslash : ('/' == d) = false := by
        have : '/' ≠ d := (isNameStart_ne hd (d := '/') (by decide)).symm
        simpa using this
      simp [Separator.text, Separator.token, Lexeme.read, Lexeme.startsNumber, Token.symbol?,
        Token.symbols, List.find?, List.isPrefixOf, hslash, show isNameStart '/' = false by decide,
        show Number.isDigit '/' = false by decide]

theorem advance_separator {s : Separator} {w : Word} {more : List (Separator × Word)}
    (hrest : c.rest = textOfFurther ((s, w) :: more)) (hposition : c.position = n) :
    ∃ d, c.advance = (.ok (), d) ∧ AtFurther n ((s, w) :: more) d := by
  have hgap : Token.trivia c.rest = some ([], s.text ++ (w.chars ++ textOfFurther more)) := by
    rw [hrest]
    exact (endsStep_textOfFurther ((s, w) :: more)).trivia
  refine ⟨_, advance_eq hgap (read_separator c.token s _), rfl, ?_, rfl, ?_⟩
  · show c.position + 0 = n
    omega
  · show c.position + 0 + utf8Length s.text = n + s.width
    rw [s.utf8Length_text]
    omega

theorem AtName.advance {w : Word} {others : List (Separator × Word)} (h : AtName n w others c) :
    ∃ d, c.advance = (.ok (), d) ∧ AtFurther (n + utf8Length w.chars) others d := by
  cases others with
  | nil => exact advance_nil h.rest
  | cons further more => exact advance_separator h.rest h.position

theorem AtFurther.endsPath {others : List (Separator × Word)} (h : AtFurther n others c) :
    c.token ≠ .leftBracket := by
  cases others with
  | nil =>
      have heof : c.token = .eof := h
      rw [heof]
      simp
  | cons further more =>
      obtain ⟨s, w⟩ := further
      rw [h.1]
      cases s <;> simp [Separator.token]

end Cursor

/-! ### Reading steps -/

namespace Parse

variable {σ : Setting} {F : Fault → Prop} {nested : Parse Expr} {s : ParseState} {n : Nat}
  {w : Word} {others : List (Separator × Word)}

open Cursor

/-- A name in a route is a step to children. -/
theorem step_name (nested : Parse Expr) (hσ : σ.Conventional) (h : AtName n w others s.cursor)
    (startsPattern : Bool) :
    ∃ d, AtFurther (n + utf8Length w.chars) others d ∧ s.cursor.advance = (.ok (), d) ∧
      step σ nested startsPattern s = .ok (childStep n w) { s with cursor := d } := by
  obtain ⟨d, hd, hfurther⟩ := h.advance
  refine ⟨d, hfurther, hd, ?_⟩
  have hprimary :
      primary σ nested startsPattern s = .ok (childStep n w) { s with cursor := d } := by
    unfold primary
    rw [token_bind, h.token, ← h.offset]
    exact bareStep_run hσ startsPattern h.token h.value hd
  exact step_run hprimary rfl hfurther.endsPath

/-- A separator and the name behind it, with any levels in use. -/
theorem further_name (nested : Parse Expr) (hσ : σ.Conventional) {p : Separator}
    {more : List (Separator × Word)}
    (h : AtFurther n ((p, w) :: more) s.cursor) :
    ∃ c d, s.cursor.advance = (.ok (), c) ∧ c.token = .name ∧ c.advance = (.ok (), d) ∧
      AtFurther (n + p.width + utf8Length w.chars) more d ∧
      ∀ depth, step σ nested false { s with cursor := c, depth := depth } =
        .ok (childStep (n + p.width) w) { s with cursor := d, depth := depth } := by
  obtain ⟨htoken, -, hrest, hposition⟩ := h
  have hends : s.cursor.token.endsOperand = false := by
    rw [htoken]
    cases p <;> rfl
  obtain ⟨c, hc, hname⟩ := advance_name hends hrest hposition
  obtain ⟨d, hd, hfurther⟩ := hname.advance
  refine ⟨c, d, hc, hname.token, hd, hfurther, fun depth => ?_⟩
  obtain ⟨d', -, hd', hstep⟩ := step_name nested hσ
    (s := { s with cursor := c, depth := depth }) hname false
  cases hd.symm.trans hd'
  exact hstep

/-- A round of a loop over further steps reads a separator and the name behind it, and takes the
levels of the separator. -/
def ReadsFurther (part : Expr → Parse Expr) : Prop :=
  ∀ {n : Nat} {p : Separator} {w : Word} {more : List (Separator × Word)} {before : Expr}
    {s : ParseState}, AtFurther n ((p, w) :: more) s.cursor → s.depth + p.width ≤ maxDepth →
    ∃ c d, s.cursor.advance = (.ok (), c) ∧ c.token = .name ∧ c.advance = (.ok (), d) ∧
      AtFurther (n + p.width + utf8Length w.chars) more d ∧
      part before s = .ok (p.join n before (childStep (n + p.width) w))
        { s with cursor := d, depth := s.depth + p.width }

theorem furtherStep_reads (hσ : σ.Conventional) : ReadsFurther (furtherStep σ nested) := by
  intro n p w more before s h hlevels
  obtain ⟨c, d, hc, hname, hd, hfurther, hstep⟩ := further_name nested hσ h
  refine ⟨c, d, hc, hname, hd, hfurther, ?_⟩
  have hadvance : advance σ { s with depth := s.depth + p.width } =
      .ok () { s with cursor := c, depth := s.depth + p.width } := advance_run hc
  unfold furtherStep
  rw [token_bind, offset_bind, h.1, p.separatorLevels_token, bind_run (descend_run hlevels),
    bind_run hadvance, bind_run (hstep _), h.2.1, p.joinStep_token]
  rfl

/-- After the root the levels are taken behind the separator, which comes to the same. -/
theorem furtherStepFromRoot_reads (hσ : σ.Conventional) :
    ReadsFurther (furtherStepFromRoot σ nested) := by
  intro n p w more before s h hlevels
  obtain ⟨c, d, hc, hname, hd, hfurther, hstep⟩ := further_name nested hσ h
  refine ⟨c, d, hc, hname, hd, hfurther, ?_⟩
  have hdescend : descend σ p.width { s with cursor := c } =
      .ok () { s with cursor := c, depth := s.depth + p.width } := descend_run hlevels
  unfold furtherStepFromRoot
  rw [token_bind, offset_bind, h.1, p.separatorLevels_token, bind_run (advance_run hc),
    bind_run hdescend, bind_run (hstep _), h.2.1, p.joinStep_token]
  rfl

/-- All further steps, by either of the two loops. -/
theorem further_rounds {part : Expr → Parse Expr} (hpart : ReadsFurther part) {before : Expr}
    (h : AtFurther n others s.cursor) (hlevels : s.depth + weightOfFurther others ≤ maxDepth) :
    Rounds σ F isSeparator part before s fun e u => ∃ d depth,
      u = { s with cursor := d, depth := depth } ∧ e = joinFurther n before others ∧
        d.token = .eof := by
  induction others generalizing n before s with
  | nil =>
      have heof : s.cursor.token = .eof := h
      exact .stop (by rw [heof]; rfl) ⟨s.cursor, s.depth, rfl, rfl, heof⟩
  | cons further more ih =>
      obtain ⟨p, w⟩ := further
      have hweight : s.depth + (p.width + weightOfFurther more) ≤ maxDepth := hlevels
      obtain ⟨c, d, hc, hname, hd, hfurther, hrun⟩ :=
        hpart h (by omega)
      refine .round (by rw [h.1]; exact p.isSeparator_token) (.of_run hrun ⟨?_, ?_⟩)
      · have hless := Cursor.rest_length_lt hc (by rw [hname]; simp)
        exact Nat.lt_of_le_of_lt (Cursor.rest_length_le hd) hless
      · exact ih (s := { s with cursor := d, depth := s.depth + p.width }) hfurther (by
          show s.depth + p.width + weightOfFurther more ≤ maxDepth
          omega)

/-! ### Reading routes -/

/-- The current token is the first of a route: its separator, or else its first name. -/
def AtRoute (r : Route) (c : Cursor) : Prop :=
  match r.leading with
  | none => AtName 0 r.first r.others c
  | some p => AtFurther 0 ((p, r.first) :: r.others) c

theorem advance_route (r : Route) :
    ∃ d, (Cursor.ofSource (String.ofList r.text) 0).advance = (.ok (), d) ∧ AtRoute r d := by
  rw [ofSource_start]
  unfold AtRoute Route.text
  cases r.leading with
  | none => exact advance_name rfl rfl rfl
  | some p => exact advance_separator rfl rfl

variable {host : Resolver} {r : Route}

theorem AtRoute.token (h : AtRoute r s.cursor) :
    sign? s.cursor.token = none ∧ StartsOperators s.cursor.token := by
  unfold AtRoute at h
  cases hleading : r.leading with
  | none =>
      rw [hleading] at h
      rw [AtName.token h]
      exact ⟨rfl, startsOperators_of_startsStep rfl⟩
  | some p =>
      rw [hleading] at h
      rw [h.1]
      cases p <;> exact ⟨rfl, by simp [StartsOperators, Separator.token]⟩

/-- The steps of a route behind the root and the separator after that. -/
theorem pathFrom_leaves (hσ : host.reader.Conventional) {c d : Cursor} {m : Nat} {origin : Expr}
    (hstep : ∀ depth, step host.reader nested false { s with cursor := c, depth := depth } =
      .ok (childStep m w) { s with cursor := d, depth := depth })
    (hfurther : AtFurther n others d) (hlevels : s.depth + 1 + weightOfFurther others ≤ maxDepth) :
    Leaves host F (pathFrom host.reader nested 0 origin) { s with cursor := c } fun e d =>
      e = joinFurther n (.path 0 origin (childStep m w)) others ∧ d.token = .eof := by
  have hlevel : s.depth + 1 ≤ maxDepth := by omega
  refine .nesting ?_
  refine .descend_within hlevel ?_
  refine .run (hstep _) ?_
  refine .repeatWhile ?_
  exact further_rounds (s := { s with cursor := d, depth := s.depth + 1 })
    (furtherStepFromRoot_reads hσ) hfurther hlevels

/-- A route is a path, in which each separator takes as many levels as it counts. -/
theorem route_leaves (hσ : host.reader.Conventional) (h : AtRoute r s.cursor)
    (hlevels : s.depth + r.weight ≤ maxDepth) :
    Leaves host F (pathExpression host.reader nested) s fun e d => e = r.tree ∧ d.token = .eof := by
  obtain ⟨leading, first, others⟩ := r
  cases leading with
  | none =>
      have hname : AtName 0 first others s.cursor := h
      have hweight : s.depth + weightOfFurther others ≤ maxDepth := by
        have : s.depth + (0 + weightOfFurther others) ≤ maxDepth := hlevels
        omega
      have hstarts : startsStep s.cursor.token = true := by
        rw [hname.token]
        rfl
      obtain ⟨d, hfurther, -, hstep⟩ := step_name nested hσ hname false
      refine .congr ?_ (Expr.pathExpression_eq hstarts)
      refine .nesting ?_
      refine .run hstep ?_
      refine .repeatWhile ?_
      exact further_rounds (s := { s with cursor := d }) (furtherStep_reads hσ) hfurther hweight
  | some p =>
      obtain ⟨c, d, hc, hname, -, hfurther, hstep⟩ := further_name nested hσ h
      obtain ⟨htoken, hoffset, -⟩ := h
      have hweight : s.depth + 1 + weightOfFurther others ≤ maxDepth := by
        have : s.depth + (p.width + weightOfFurther others) ≤ maxDepth := hlevels
        have : 1 ≤ p.width := by
          cases p <;> decide
        omega
      cases p with
      | slash =>
          refine .token htoken ?_
          refine .offset ?_
          refine .advance hc ?_
          refine .token hname ?_
          rw [hoffset]
          exact pathFrom_leaves hσ hstep hfurther hweight
      | slashes =>
          refine .token htoken ?_
          refine .offset ?_
          refine .advance hc ?_
          rw [hoffset]
          exact pathFrom_leaves hσ hstep hfurther hweight

end Parse

/-- A route of any length, within the limit on levels, is read as its tree. What that joins is the
root, if the route starts with a separator, and the steps in the order in which they are written,
with a step to all descendants for each double slash and before the name behind it. -/
theorem readExpression_route {r : Route} (h : r.weight ≤ 504) (warnings : List String) :
    readExpression (String.ofList r.text) ({} : StaticContext).resolver warnings =
      ⟨.ok r.tree, warnings⟩ ∧ r.tree.leaves = r.steps := by
  have hσ := conventional_default .expression
  obtain ⟨d, hd, hroute⟩ := advance_route r
  have hsingle : ∀ s : ParseState, s.cursor = d → s.depth = 0 →
      Leaves ({} : StaticContext).resolver (fun _ => False)
        (single ({} : StaticContext).resolver.reader) s fun e d => e = r.tree ∧ d.token = .eof := by
    rintro s rfl hdepth
    obtain ⟨hsign, hstarts⟩ := hroute.token
    have hnested : s.depth + nestedCost ≤ maxDepth := by
      rw [hdepth]
      decide
    have hlevels : s.depth + nestedCost + r.weight ≤ maxDepth := by
      rw [hdepth, nestedCost, maxDepth]
      omega
    refine .single hnested hstarts ?_
    refine .operatorExpression (.signedPath hsign (route_leaves hσ hroute hlevels)) ?_
    rintro e d ⟨-, heof⟩
    rw [heof]
    rfl
  refine ⟨?_, r.leaves_tree⟩
  rcases Leaves.readExpression warnings hd hsingle fun e d hQ => hQ.2 with
    ⟨e, d, hread, rfl, -⟩ | ⟨f, _, hfalse, -⟩
  · exact hread
  · exact hfalse.elim

/-- A route of names that are spelled like keywords. -/
def keywordRoute : Route where
  leading := some .slashes
  first := ⟨"cast".toList, rfl⟩
  others := [(.slash, ⟨"instance".toList, rfl⟩), (.slashes, ⟨"for".toList, rfl⟩),
    (.slash, ⟨"text".toList, rfl⟩)]

theorem readExpression_route_of_keywords :
    keywordRoute.weight ≤ 504 ∧
      readExpression "//cast/instance//for/text" ({} : StaticContext).resolver [] =
        ⟨.ok keywordRoute.tree, []⟩ ∧ keywordRoute.tree.leaves = keywordRoute.steps := by
  have hweight : keywordRoute.weight ≤ 504 := by decide
  have hsource : "//cast/instance//for/text" = String.ofList keywordRoute.text := by decide +kernel
  rw [hsource]
  exact ⟨hweight, readExpression_route hweight []⟩

end XPath
