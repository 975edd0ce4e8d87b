import XPath.Parser
import XPath.Proofs.PairHosts
import XPath.Proofs.Shift
import XPath.Proofs.Tiling

/-!
# Expressions within larger texts

An expression in a template is read in place, between texts that do not belong to it. What stands
before it only moves it (`Pair.moved`), and what stands behind its closing brace is not seen at
all (`Pair.braced`): no word looks beyond a brace, and no reader reads past one.
-/

namespace XPath

open Parse

/-! ### Behind another text -/

namespace Cursor

/-- The same cursor a number of bytes further on. -/
def moved (n : Nat) (c : Cursor) : Cursor :=
  { c with offset := c.offset + n, position := c.position + n }

theorem advance_moved (n : Nat) (c : Cursor) :
    (c.moved n).advance = (c.advance.1, c.advance.2.moved n) := by
  unfold advance
  rw [show (c.moved n).rest = c.rest from rfl]
  cases Token.trivia c.rest with
  | none => rfl
  | some skipped =>
      obtain ⟨gap, rest⟩ := skipped
      simp only [move, moved]
      cases Lexeme.read c.token rest with
      | ok l => simp [Nat.add_right_comm]
      | error e => cases e <;> simp [Nat.add_right_comm]

/-- Behind a text stands what would stand at the start without it. -/
theorem ofSource_append (before source : String) :
    ofSource (before ++ source) before.utf8ByteSize =
      (ofSource source 0).moved before.utf8ByteSize := by
  have hskip : ∀ cs rest : List Char, skipBytes (utf8Length cs) (cs ++ rest) =
      (utf8Length cs, rest) := by
    intro cs rest
    induction cs with
    | nil => exact skipBytes_zero rest
    | cons c cs ih =>
        rw [utf8Length_cons, List.cons_append, skipBytes, if_pos (Nat.le_add_right _ _),
          Nat.add_sub_cancel_left, ih]
  unfold ofSource
  rw [String.toList_append, ← utf8Length_toList, hskip, skipBytes_zero]
  simp [moved]

end Cursor

/-- A reader, and the same reader in a source with more text before. -/
def Pair.moved (σ : Setting) (n : Nat) : Pair where
  left := σ
  right := σ
  Beside c c' := c' = c.moved n
  Starts _ := True
  Failing c e c' e' := c' = c.moved n ∧ e' = e
  Gone _ := False
  extra := 0
  offset m := m + n
  axis _ _ axis := axis

namespace Pair

variable {σ : Setting} {n : Nat}

/-- What has been read is quoted in an error, and not where it stands. -/
theorem moved_passes (e : Error) : (Pair.moved σ n).Passes e := by
  rintro c _ rfl
  exact ⟨rfl, rfl⟩

instance lawful_moved : (Pair.moved σ n).Lawful where
  token := by
    rintro c _ rfl
    rfl
  value := by
    rintro c _ rfl
    rfl
  seen := by
    rintro c _ rfl
    rfl
  offset := by
    rintro c _ rfl
    rfl
  length := by
    rintro c _ rfl
    exact Nat.le_refl _
  endOperand := by
    rintro c _ rfl -
    rfl
  advance := by
    rintro c _ d rfl - hd
    exact ⟨d.moved n, by rw [Cursor.advance_moved, hd], rfl, fun _ => trivial⟩
  lexical := by
    rintro c _ d e rfl - hd
    exact .inr ⟨d.moved n, by rw [Cursor.advance_moved, hd], rfl, rfl⟩
  plain f _ := moved_passes (f.error σ.language)
  tooDeep h := absurd rfl h

instance answers_moved : (Pair.moved σ n).Answers :=
  .of_setting rfl (fun _ _ _ => rfl) (fun e _ => moved_passes e)
    (fun f _ => moved_passes (f.error σ.language))
    (fun _ _ _ _ _ => moved_passes (Fault.error _ σ.language))
    fun _ => ⟨moved_passes (Fault.error _ σ.language), moved_passes (Fault.error _ σ.language)⟩

end Pair

/-! ### Before a closing brace -/

namespace Token

theorem IsTrivia.getLast?_ne {n : Nat} {gap : List Char} (h : IsTrivia n gap) :
    gap.getLast? ≠ some '\x7d' := by
  induction h with
  | nil => simp
  | @blank c cs hc _ ih =>
      rw [List.getLast?_cons]
      cases hlast : cs.getLast? with
      | none =>
          rintro ⟨⟩
          cases hc
      | some d =>
          rw [hlast] at ih
          exact ih
  | @opening n cs hcs ih =>
      rwa [List.getLast?_cons_cons, List.getLast?_cons_of_ne_nil hcs.ne_nil]
  | @closing n cs _ ih =>
      rw [List.getLast?_cons_cons, List.getLast?_cons]
      cases hlast : cs.getLast? with
      | none => simp
      | some d =>
          rw [hlast] at ih
          exact ih
  | @inside n c cs _ _ hcs ih => rwa [List.getLast?_cons_of_ne_nil hcs.ne_nil]

/-- No token but the brace itself ends in a brace. -/
theorem Spells.of_brace {t : Token} {value : String} {text : List Char}
    (h : t.Spells value text) (hlast : text.getLast? = some '\x7d') :
    t = .rightBrace ∧ text = ['\x7d'] := by
  have hsymbols : ∀ symbol ∈ symbols, symbol.1.getLast? = some '\x7d' →
      symbol.2 = .rightBrace ∧ symbol.1 = ['\x7d'] := by decide
  exact hsymbols _ (h.of_mark (by decide) hlast) hlast

end Token

namespace Lexeme

theorem read_rightBrace (preceding : Token) (cs : List Char) :
    read preceding ('\x7d' :: cs) = .ok ⟨.rightBrace, "", ['\x7d'], cs⟩ :=
  rfl

theorem head?_append_of_brace {cs : List Char} (h : cs.getLast? = some '\x7d') (tail : List Char) :
    (cs ++ tail).head? = cs.head? := by
  cases cs with
  | nil => cases h
  | cons c cs => rfl

theorem getLast?_of_append {text cs : List Char} (h : (text ++ cs).getLast? = some '\x7d')
    (hcs : cs ≠ []) : cs.getLast? = some '\x7d' := by
  rw [List.getLast?_append, List.getLast?_eq_some_getLast hcs] at h
  rw [List.getLast?_eq_some_getLast hcs]
  exact h

theorem endsTrivia_append {cs : List Char} (h : Token.EndsTrivia cs)
    (hcs : cs.getLast? = some '\x7d') (tail : List Char) : Token.EndsTrivia (cs ++ tail) := by
  match cs with
  | [] => cases hcs
  | [c] =>
      cases hcs
      exact Token.IsSolid.endsTrivia ⟨_, tail, rfl, rfl, by decide⟩
  | c :: d :: cs =>
      refine ⟨h.1, fun hopens => h.2 ?_⟩
      obtain ⟨rfl, ds, hds⟩ := Token.opens_iff.mp hopens
      cases hds
      exact ⟨cs, rfl⟩

theorem afterWord?_brace {word cs : List Char} (hword : isNCName word = true)
    (h : afterWord? word cs = none) (hcs : cs.getLast? = some '\x7d') (tail : List Char) :
    afterWord? word (cs ++ tail) = none := by
  cases hafter : afterWord? word (cs ++ tail) with
  | none => rfl
  | some rest =>
      exfalso
      obtain ⟨hsplit, hrest⟩ := afterWord?_spec hafter
      rcases List.append_eq_append_iff.mp hsplit with ⟨more, rfl, -⟩ | ⟨more, rfl, rfl⟩
      · -- the word would have the brace in it
        exact absurd ((isNCName_spec hword).2 _ (List.mem_append_left _ (List.mem_of_getLast? hcs)))
          (by decide)
      · by_cases hmore : more = []
        · subst hmore
          rw [List.append_nil] at hcs
          exact Token.getLast?_ne_of_isNCName hword [] (by decide) hcs
        · rw [head?_append_of_brace (getLast?_of_append hcs hmore)] at hrest
          rw [afterWord?_append hrest] at h
          cases h

/-- Behind a closing brace nothing is seen. -/
theorem LooksLike.brace {cs : List Char} (h : cs.getLast? = some '\x7d') (tail : List Char) :
    LooksLike cs (cs ++ tail) where
  head := .inr (head?_append_of_brace h tail)
  colon := by
    intro hcolon _
    obtain ⟨ds, rfl⟩ := List.head?_eq_some_iff.mp hcolon
    have hds : ds ≠ [] := by
      rintro rfl
      cases h
    rw [← List.singleton_append] at h
    exact .inr (head?_append_of_brace (getLast?_of_append h hds) tail)
  gap := by
    intro gap after hgap
    obtain ⟨rfl, htrivia, hends⟩ := Token.trivia_eq_some_iff.mp hgap
    have hafter : after ≠ [] := by
      rintro rfl
      rw [List.append_nil] at h
      exact htrivia.getLast?_ne h
    have hlast := getLast?_of_append h hafter
    refine ⟨gap, after ++ tail, Token.trivia_eq_some_iff.mpr
      ⟨by simp, htrivia, endsTrivia_append hends hlast tail⟩, ?_, ?_, ?_⟩
    · rw [head?_append_of_brace hlast]
      exact id
    · rw [head?_append_of_brace hlast]
    · intro word second op htype hnone
      exact afterWord?_brace (typeWord?_second htype) hnone hlast tail

end Lexeme

namespace Cursor

/-- The same cursor with more text behind its own. -/
def before (tail : List Char) (c : Cursor) : Cursor :=
  { c with rest := c.rest ++ tail }

/-- The text ends in a brace, or the brace has been read. -/
def IsBraced (c : Cursor) : Prop :=
  c.token = .rightBrace ∨ c.rest.getLast? = some '\x7d'

theorem advance_before {c d : Cursor} (hc : c.rest.getLast? = some '\x7d')
    (hadvance : c.advance = (.ok (), d)) (tail : List Char) :
    (c.before tail).advance = (.ok (), d.before tail) ∧ d.IsBraced := by
  obtain ⟨gap, rest, l, hgap, hread, rfl⟩ := advance_ok hadvance
  obtain ⟨hsplit, htrivia, hends⟩ := Token.trivia_eq_some_iff.mp hgap
  rw [hsplit] at hc
  have hrest : rest ≠ [] := by
    rintro rfl
    rw [List.append_nil] at hc
    exact htrivia.getLast?_ne hc
  replace hc := Lexeme.getLast?_of_append hc hrest
  obtain ⟨hcovers, hspells⟩ := Lexeme.read_covers hrest hread
  have hgap' : Token.trivia (c.before tail).rest = some (gap, rest ++ tail) :=
    Token.trivia_eq_some_iff.mpr
      ⟨by simp [before, hsplit], htrivia, Lexeme.endsTrivia_append hends hc tail⟩
  by_cases hend : l.rest = []
  · rw [hend, List.append_nil] at hcovers
    obtain ⟨-, htext⟩ := hspells.of_brace (hcovers ▸ hc)
    obtain rfl : rest = ['\x7d'] := hcovers.trans htext
    rw [Lexeme.read_rightBrace] at hread
    cases hread
    exact ⟨advance_eq hgap' (Lexeme.read_rightBrace _ tail), .inl rfl⟩
  · have hlast : l.rest.getLast? = some '\x7d' := Lexeme.getLast?_of_append (hcovers ▸ hc) hend
    have hread' := Lexeme.read_alike hrest hread (.brace hlast tail)
      fun _ => Lexeme.head?_append_of_brace hlast tail
    rw [← List.append_assoc, ← hcovers] at hread'
    exact ⟨advance_eq hgap' hread', .inr hlast⟩

end Cursor

/-- A reader, and the same reader in a source with more text behind. -/
def Pair.braced (σ : Setting) (tail : List Char) : Pair where
  left := σ
  right := σ
  Beside c c' := c' = c.before tail ∧ c.IsBraced
  Starts _ := True
  Failing _ _ _ _ := True
  Gone _ := True
  extra := 0
  offset n := n
  axis _ _ axis := axis

namespace Pair

variable {σ : Setting} {tail : List Char}

instance lawful_braced : (Pair.braced σ tail).Lawful where
  token := by
    rintro c _ ⟨rfl, -⟩
    rfl
  value := by
    rintro c _ ⟨rfl, -⟩
    rfl
  seen := by
    rintro c _ ⟨rfl, -⟩
    rfl
  offset := by
    rintro c _ ⟨rfl, -⟩
    rfl
  length := by
    rintro c _ ⟨rfl, -⟩
    simp [Cursor.before]
  endOperand := by
    rintro c _ ⟨rfl, hbraced⟩ htoken
    exact ⟨rfl, .inr (hbraced.resolve_left htoken)⟩
  advance := by
    rintro c _ d ⟨rfl, hbraced⟩ htoken hd
    obtain ⟨hd', hbraced'⟩ := Cursor.advance_before (hbraced.resolve_left htoken) hd tail
    exact ⟨d.before tail, hd', ⟨rfl, hbraced'⟩, fun _ => trivial⟩
  lexical _ _ _ := .inl trivial
  plain _ _ _ _ _ := trivial
  tooDeep _ _ := trivial

instance answers_braced : (Pair.braced σ tail).Answers :=
  .of_setting rfl (fun _ _ _ => rfl) (fun _ _ _ _ _ => trivial) (fun _ _ _ _ _ => trivial)
    (fun _ _ _ _ _ _ _ _ => trivial) fun _ => ⟨fun _ _ _ => trivial, fun _ _ _ => trivial⟩

end Pair

/-! ### Reading in place -/

section

variable (σ : Setting) (source : String) (warnings : List String) (terminator : Token)

/-- A reader that starts at a byte offset of a source. -/
def startAt (source : String) (start : Nat) (warnings : List String) : ParseState :=
  { cursor := .ofSource source start, warnings }

theorem complete_moved (text : String) :
    (Pair.moved σ text.utf8ByteSize).Agree
      (fun e t e' t' => e' = e.shift text.utf8ByteSize 0 ∧
        (Pair.moved σ text.utf8ByteSize).Linked t t')
      (complete σ terminator (startAt source 0 warnings))
      (complete σ terminator (startAt (text ++ source) text.utf8ByteSize warnings)) := by
  let P := Pair.moved σ text.utf8ByteSize
  have hstart : P.Linked (startAt source 0 warnings)
      (startAt (text ++ source) text.utf8ByteSize warnings) :=
    ⟨Cursor.ofSource_append text source, rfl, rfl, rfl, rfl⟩
  refine (Pair.Agree.complete (P := P) (fun _ c c' hc _ => Pair.moved_passes _ c c' hc) hstart
    rfl).mono ?_
  rintro e t _ t' ⟨⟨rfl, hlinked⟩, -⟩
  exact ⟨(Expr.shift_eq_relocate text.utf8ByteSize 0 e).symm, hlinked⟩

theorem complete_braced (tail : String) :
    (Pair.braced σ tail.toList).Agree
      (fun e t e' t' => e' = e ∧ (Pair.braced σ tail.toList).Linked t t')
      (complete σ terminator (startAt (source ++ "\x7d") 0 warnings))
      (complete σ terminator (startAt (source ++ "\x7d" ++ tail) 0 warnings)) := by
  let P := Pair.braced σ tail.toList
  have hcursor : Cursor.ofSource (source ++ "\x7d" ++ tail) 0 =
      (Cursor.ofSource (source ++ "\x7d") 0).before tail.toList := by
    rw [ofSource_zero, ofSource_zero]
    simp [Cursor.before]
  have hbraced : (Cursor.ofSource (source ++ "\x7d") 0).IsBraced := by
    rw [ofSource_zero]
    exact .inr (by simp)
  have hstart : P.Linked (startAt (source ++ "\x7d") 0 warnings)
      (startAt (source ++ "\x7d" ++ tail) 0 warnings) :=
    ⟨⟨hcursor, hbraced⟩, rfl, rfl, rfl, rfl⟩
  refine (Pair.Agree.complete (P := P) (fun _ _ _ _ _ => trivial) hstart rfl).mono ?_
  rintro e t _ t' ⟨⟨rfl, hlinked⟩, -⟩
  exact ⟨Expr.relocate_eq_self (fun _ => rfl) (fun _ => rfl) (fun _ _ _ => rfl) e, hlinked⟩

theorem Parser.expression_eq (language : Language) (host : Resolver) (start : Nat) :
    (ofSource source start language host warnings).expression terminator =
      match complete ⟨language, host⟩ terminator (startAt source start warnings) with
      | .ok e t => (.ok e, ⟨⟨language, host⟩, t⟩)
      | .error e t => (.error e, ⟨⟨language, host⟩, t⟩) := by
  have hrun : (ofSource source start language host warnings).expression terminator =
      run ⟨⟨language, host⟩, startAt source start warnings⟩ (complete · terminator) := rfl
  rw [hrun]
  unfold run
  dsimp only
  cases complete ⟨language, host⟩ terminator (startAt source start warnings) <;> rfl

end

/-- What is read in place depends on its own text only. Text before it moves the tree and the end
by its bytes and changes neither errors nor warnings, and text behind a closing brace at which an
expression ends is not seen. -/
theorem Parser.expression_in_place (language : Language) (host : Resolver)
    (warnings : List String) (source : String) :
    (∀ (text : String) (terminator : Token),
      let own := (ofSource source 0 language host warnings).expression terminator
      let moved := (ofSource (text ++ source) text.utf8ByteSize language host
        warnings).expression terminator
      moved.1 = own.1.map (Expr.shift text.utf8ByteSize 0) ∧
        moved.2.endOffset = own.2.endOffset + text.utf8ByteSize ∧
          moved.2.state.warnings = own.2.state.warnings) ∧
      ∀ (e : Expr) (tail : String),
        let own := (ofSource (source ++ "\x7d") 0 language host warnings).expression .rightBrace
        let followed := (ofSource (source ++ "\x7d" ++ tail) 0 language host
          warnings).expression .rightBrace
        own.1 = .ok e → followed.1 = .ok e ∧ followed.2.endOffset = own.2.endOffset := by
  constructor
  · intro text terminator
    have h := complete_moved ⟨language, host⟩ source warnings terminator text
    rw [expression_eq, expression_eq]
    generalize complete _ terminator (startAt source 0 warnings) = r,
      complete _ terminator (startAt (text ++ source) _ warnings) = r' at h
    cases h with
    | ok h =>
        obtain ⟨rfl, hlinked⟩ := h
        exact ⟨rfl, congrArg Cursor.offset hlinked.cursor, hlinked.warnings⟩
    | fail h _ hwarnings =>
        obtain ⟨hcursor, rfl⟩ := h
        exact ⟨rfl, congrArg Cursor.offset hcursor, hwarnings⟩
    | gone h => exact h.elim
  · intro e tail
    have h := complete_braced ⟨language, host⟩ source warnings .rightBrace tail
    rw [expression_eq, expression_eq]
    generalize complete _ .rightBrace (startAt (source ++ "\x7d") 0 warnings) = r,
      complete _ .rightBrace (startAt (source ++ "\x7d" ++ tail) 0 warnings) = r' at h
    intro own followed hown
    cases h with
    | @ok _ t _ t' h =>
        obtain ⟨rfl, hlinked⟩ := h
        have hoffset : t'.cursor.offset = (t.cursor.before tail.toList).offset :=
          congrArg Cursor.offset hlinked.cursor.1
        exact ⟨hown, hoffset⟩
    | fail => cases hown
    | gone => cases hown

/-- A name in braces, before another one. -/
theorem Parser.expression_in_place_of_name : ∃ e,
    ((ofSource ("a" ++ "\x7d") 0 .expression (StaticContext.resolver {}) []).expression
        .rightBrace).1 = .ok e ∧
      ((ofSource ("a" ++ "\x7d" ++ "-\x7bb\x7d") 0 .expression (StaticContext.resolver {})
        []).expression .rightBrace).1 = .ok e := by
  obtain ⟨e, he⟩ := exists_of_isOk (r := ((ofSource ("a" ++ "\x7d") 0 .expression
    (StaticContext.resolver {}) []).expression .rightBrace).1) (by decide +kernel)
  have hinPlace := expression_in_place .expression (StaticContext.resolver {}) [] "a"
  exact ⟨e, he, (hinPlace.2 e "-\x7bb\x7d" he).1⟩

end XPath
