import XPath.Proofs.Lexemes

/-!
# Tokens tile the source

Whatever is asked of a cursor, and whether it is granted or not, the cursor stays between two
characters of its source, behind where it started and behind the start of its current token,
and it never moves back (`Cursor.Stands`). A token that is read takes up the text between its
offset and the new position, and nothing but trivia stands before it (`Cursor.Step`). So the
tokens of a run and the trivia between them are the source, cut into pieces.
-/

namespace XPath

/-! ### Places in a source -/

/-- The byte offset of a place between two characters of a source, or at one of its ends. -/
def IsBoundary (source : String) (n : Nat) : Prop :=
  ∃ before after, source.toList = before ++ after ∧ utf8Length before = n

/-- The text of a source between two byte offsets. -/
def IsSlice (source : String) (m n : Nat) (text : List Char) : Prop :=
  ∃ before after, source.toList = before ++ (text ++ after) ∧ utf8Length before = m ∧
    n = m + utf8Length text

theorem utf8Length_ofList (cs : List Char) : (String.ofList cs).utf8ByteSize = utf8Length cs := by
  induction cs with
  | nil => rfl
  | cons c cs ih =>
      rw [String.ofList_cons, String.utf8ByteSize_append, String.utf8ByteSize_singleton, ih,
        utf8Length_cons]

theorem utf8Length_toList (source : String) : utf8Length source.toList = source.utf8ByteSize := by
  rw [← utf8Length_ofList, String.ofList_toList]

/-- A text has one head of each length in bytes at most. -/
theorem prefix_unique {before before' after after' : List Char}
    (h : before ++ after = before' ++ after') (hlength : utf8Length before = utf8Length before') :
    before = before' ∧ after = after' := by
  induction before generalizing before' with
  | nil =>
      cases before' with
      | nil => exact ⟨rfl, h⟩
      | cons c before' =>
          have := utf8Length_pos (List.cons_ne_nil c before')
          rw [← hlength] at this
          exact absurd this (Nat.lt_irrefl 0)
  | cons c before ih =>
      cases before' with
      | nil =>
          have := utf8Length_pos (List.cons_ne_nil c before)
          rw [hlength] at this
          exact absurd this (Nat.lt_irrefl 0)
      | cons d before' =>
          simp only [List.cons_append, List.cons.injEq] at h
          obtain ⟨rfl, h⟩ := h
          simp only [utf8Length_cons] at hlength
          obtain ⟨rfl, hafter⟩ := ih h (by omega)
          exact ⟨rfl, hafter⟩

theorem IsBoundary.le {source : String} {n : Nat} (h : IsBoundary source n) :
    n ≤ source.utf8ByteSize := by
  obtain ⟨before, after, hsource, rfl⟩ := h
  rw [← utf8Length_toList, hsource, utf8Length_append]
  exact Nat.le_add_right _ _

theorem IsSlice.nil {source : String} {n : Nat} (h : IsBoundary source n) :
    IsSlice source n n [] := by
  obtain ⟨before, after, hsource, hn⟩ := h
  exact ⟨before, after, hsource, hn, rfl⟩

theorem IsSlice.append {source : String} {m n k : Nat} {text more : List Char}
    (h : IsSlice source m n text) (hmore : IsSlice source n k more) :
    IsSlice source m k (text ++ more) := by
  obtain ⟨before, after, hsource, rfl, rfl⟩ := h
  obtain ⟨before', after', hsource', hlength, rfl⟩ := hmore
  have heq : before ++ text ++ after = before' ++ (more ++ after') := by
    rw [List.append_assoc, ← hsource, hsource']
  obtain ⟨-, rfl⟩ := prefix_unique heq (by rw [utf8Length_append, hlength])
  refine ⟨before, after', by simp [hsource], rfl, ?_⟩
  rw [utf8Length_append]
  omega

/-- Of two texts that start at one place, the one starts with the other. -/
theorem IsSlice.prefix_or_prefix {source : String} {n m m' : Nat} {text text' : List Char}
    (h : IsSlice source n m text) (h' : IsSlice source n m' text') :
    text <+: text' ∨ text' <+: text := by
  obtain ⟨before, after, hsource, hlength, -⟩ := h
  obtain ⟨before', after', hsource', hlength', -⟩ := h'
  obtain ⟨-, hrest⟩ := prefix_unique (hsource.symm.trans hsource') (hlength.trans hlength'.symm)
  exact List.prefix_or_prefix_of_prefix ⟨after, rfl⟩ ⟨after', hrest.symm⟩

theorem IsSlice.left {source : String} {m n : Nat} {text more : List Char}
    (h : IsSlice source m n (text ++ more)) : IsSlice source m (m + utf8Length text) text := by
  obtain ⟨before, after, hsource, hlength, -⟩ := h
  exact ⟨before, more ++ after, by rw [hsource, List.append_assoc], hlength, rfl⟩

/-- All of a source before the end of a text in it. -/
theorem IsSlice.ends {source : String} {m n : Nat} {text : List Char}
    (h : IsSlice source m n text) :
    ∃ before after, source.toList = (before ++ text) ++ after ∧
      utf8Length (before ++ text) = n := by
  obtain ⟨before, after, hsource, hlength, rfl⟩ := h
  exact ⟨before, after, by rw [hsource, List.append_assoc], by rw [utf8Length_append, hlength]⟩

namespace Lexeme

/-- Only names need to look behind a comment, so that no other token fails on one. -/
theorem readWord_error {preceding : Token} {word cs : List Char} {e : LexicalError}
    (h : readWord preceding word cs = .error e) : e = .unclosedComment := by
  have htype : ∀ e', readTypeOperator word cs = .error e' → e' = .unclosedComment := by
    intro e' h
    unfold readTypeOperator at h
    split at h
    · cases h
    · split at h
      · cases h
        rfl
      · split at h <;> cases h
  have hoperand : ∀ e', readOperandWord word cs = .error e' → e' = .unclosedComment := by
    intro e' h
    unfold readOperandWord at h
    split at h
    · cases h
      rfl
    · dsimp only at h
      split at h <;> cases h
  rw [readWord_eq] at h
  split at h
  · cases h
  · split at h
    · next hread =>
        cases h
        split at hread
        · exact htype _ hread
        · cases hread
    · cases h
    · split at h
      · cases h
      · exact hoperand _ h

theorem readName_error {preceding : Token} {cs : List Char} {e : LexicalError}
    (h : readName preceding cs = .error e) : e = .unclosedComment := by
  unfold readName at h
  dsimp only at h
  split at h
  · cases h
  · cases h
  · split at h <;> exact readWord_error h
  · exact readWord_error h

/-- A character is found to be no token where the next token should start. -/
theorem read_strayCharacter {preceding : Token} {cs : List Char} {d : Char}
    (h : read preceding cs = .error (.strayCharacter d)) : ∃ ds, cs = d :: ds := by
  cases cs with
  | nil => cases h
  | cons c cs =>
      rw [read] at h
      split at h
      · cases h
      · split at h
        · unfold readString at h
          split at h <;> cases h
        · split at h
          · cases h
          · split at h
            · cases readName_error h
            · split at h
              · cases h
              · cases h
                exact ⟨cs, rfl⟩

end Lexeme

namespace Cursor

/-! ### One call -/

/-- What can be asked of a cursor. -/
inductive Call
  /-- to read the next token -/
  | next
  /-- to take the current token for the end of an operand -/
  | operandEnd
deriving DecidableEq, Repr

/-- The cursor after a call, whether the call succeeds or fails. -/
def after (c : Cursor) : Call → Cursor
  | .next => c.advance.2
  | .operandEnd => c.endOperand

/-- The cursor after several calls. -/
def run (c : Cursor) (calls : List Call) : Cursor :=
  calls.foldl after c

/-- A cursor stands at a place of its source that is not before the start of its current
token, which is not before `start`, and the rest of the source is what follows. -/
structure Stands (source : String) (start : Nat) (c : Cursor) : Prop where
  rest : ∃ before, source.toList = before ++ c.rest ∧ utf8Length before = c.position
  offset_boundary : IsBoundary source c.offset
  start_le_offset : start ≤ c.offset
  offset_le_position : c.offset ≤ c.position

variable {source : String} {start : Nat} {c d : Cursor}

theorem Stands.position_boundary (h : c.Stands source start) :
    IsBoundary source c.position := by
  obtain ⟨before, hsource, hposition⟩ := h.rest
  exact ⟨before, c.rest, hsource, hposition⟩

theorem Stands.slice (h : c.Stands source start) {text rest : List Char}
    (hrest : c.rest = text ++ rest) :
    IsSlice source c.position (c.position + utf8Length text) text := by
  obtain ⟨before, hsource, hposition⟩ := h.rest
  exact ⟨before, rest, by rw [hsource, hrest], hposition, rfl⟩

/-- A cursor that moves past a gap and a text stands behind that text. -/
theorem Stands.move (h : c.Stands source start) {gap text : List Char}
    (hrest : c.rest = gap ++ (text ++ d.rest)) (hoffset : d.offset = c.position + utf8Length gap)
    (hposition : d.position = d.offset + utf8Length text) : d.Stands source start := by
  obtain ⟨before, hsource, hbefore⟩ := h.rest
  have hle := h.start_le_offset
  have hle' := h.offset_le_position
  constructor
  · refine ⟨before ++ (gap ++ text), ?_, ?_⟩
    · rw [hsource, hrest]
      simp
    · rw [utf8Length_append, utf8Length_append]
      omega
  · refine ⟨before ++ gap, text ++ d.rest, ?_, ?_⟩
    · rw [hsource, hrest]
      simp
    · rw [utf8Length_append]
      omega
  · omega
  · omega

/-- Reading a token either moves nothing or moves past a gap and a text, in case of success the
text of the token. -/
theorem advance_moves (c : Cursor) :
    c.advance.2 = c ∨ ∃ gap text, c.rest = gap ++ (text ++ c.advance.2.rest) ∧
      c.advance.2.offset = c.position + utf8Length gap ∧
      c.advance.2.position = c.advance.2.offset + utf8Length text := by
  cases hgap : Token.trivia c.rest with
  | none =>
      left
      simp only [advance, hgap]
  | some skipped =>
      obtain ⟨gap, rest⟩ := skipped
      right
      obtain ⟨hsplit, -, -⟩ := Token.trivia_eq_some_iff.mp hgap
      cases hread : Lexeme.read c.token rest with
      | ok l =>
          have hcovers : rest = l.text ++ l.rest := by
            by_cases hnil : rest = []
            · subst hnil
              cases hread
              rfl
            · exact (Lexeme.read_covers hnil hread).1
          rw [advance_eq hgap hread]
          refine ⟨gap, l.text, ?_, rfl, rfl⟩
          rw [hsplit, hcovers]
          rfl
      | error e =>
          simp only [advance, hgap, Cursor.move, hread]
          cases e with
          | strayCharacter d =>
              obtain ⟨ds, rfl⟩ := Lexeme.read_strayCharacter hread
              exact ⟨gap, [d], hsplit, rfl, rfl⟩
          | unmatchedQuote => exact ⟨gap, rest, by simp [hsplit], rfl, rfl⟩
          | unclosedComment => exact ⟨gap, [], hsplit, rfl, rfl⟩

theorem Stands.after (h : c.Stands source start) (call : Call) :
    (c.after call).Stands source start := by
  cases call with
  | next =>
      show c.advance.2.Stands source start
      rcases advance_moves c with heq | ⟨gap, text, hrest, hoffset, hposition⟩
      · rw [heq]
        exact h
      · exact h.move hrest hoffset hposition
  | operandEnd => exact ⟨h.rest, h.offset_boundary, h.start_le_offset, h.offset_le_position⟩

theorem position_le_after (c : Cursor) (call : Call) : c.position ≤ (c.after call).position := by
  cases call with
  | next =>
      show c.position ≤ c.advance.2.position
      rcases advance_moves c with heq | ⟨gap, text, -, hoffset, hposition⟩
      · exact Nat.le_of_eq (congrArg position heq.symm)
      · omega
  | operandEnd => exact Nat.le_refl _

/-- A token that has been read: trivia up to its offset, and from there to the position one of
its spellings. -/
structure Step (source : String) (c d : Cursor) (gap text : List Char) : Prop where
  gap_slice : IsSlice source c.position d.offset gap
  gap_isTrivia : Token.IsTrivia 0 gap
  slice : IsSlice source d.offset d.position text
  spells : d.token.Spells d.value text
  forward : c.position < d.position

theorem Stands.step (h : c.Stands source start) (hadvance : c.advance = (.ok (), d))
    (htoken : d.token ≠ .eof) : ∃ gap text, Step source c d gap text := by
  have hd := h.after .next
  obtain ⟨gap, rest, l, hgap, hread, rfl⟩ := advance_ok hadvance
  obtain ⟨hsplit, htrivia, -⟩ := Token.trivia_eq_some_iff.mp hgap
  have hnil : rest ≠ [] := fun hnil => htoken ((Lexeme.token_eq_eof_iff hread).mpr hnil)
  obtain ⟨hcovers, hspells⟩ := Lexeme.read_covers hnil hread
  have hgapSlice := h.slice hsplit
  obtain ⟨before, hsource, hbefore⟩ := h.rest
  refine ⟨gap, l.text, hgapSlice, htrivia, ?_, hspells, ?_⟩
  · refine ⟨before ++ gap, l.rest, ?_, ?_, rfl⟩
    · rw [hsource, hsplit, hcovers]
      simp
    · rw [utf8Length_append, hbefore]
      rfl
  · have := utf8Length_pos (Lexeme.text_ne_nil hnil hread)
    simp only [accept]
    omega

/-- At the end of the source only trivia are left to be skipped. -/
theorem Stands.end_step (h : c.Stands source start) (hadvance : c.advance = (.ok (), d))
    (htoken : d.token = .eof) :
    ∃ gap, Token.IsTrivia 0 gap ∧ IsSlice source c.position source.utf8ByteSize gap := by
  obtain ⟨gap, rest, l, hgap, hread, rfl⟩ := advance_ok hadvance
  obtain ⟨hsplit, htrivia, -⟩ := Token.trivia_eq_some_iff.mp hgap
  have hnil : rest = [] := (Lexeme.token_eq_eof_iff hread).mp htoken
  subst hnil
  obtain ⟨before, hsource, hbefore⟩ := h.rest
  refine ⟨gap, htrivia, before, [], by rw [hsource, hsplit], hbefore, ?_⟩
  rw [← utf8Length_toList, hsource, hsplit, utf8Length_append, hbefore, List.append_nil]

/-! ### Where a cursor starts -/

theorem skipBytes_spec (n : Nat) (cs : List Char) :
    ∃ before, cs = before ++ (skipBytes n cs).2 ∧ utf8Length before = (skipBytes n cs).1 ∧
      (skipBytes n cs).1 ≤ n := by
  fun_induction skipBytes n cs with
  | case1 n => exact ⟨[], rfl, rfl, Nat.zero_le n⟩
  | case2 n c cs hle bytes rest heq ih =>
      obtain ⟨before, hsplit, hlength, hbytes⟩ := ih
      rw [heq] at hsplit hlength hbytes
      refine ⟨c :: before, ?_, ?_, ?_⟩
      · rw [hsplit]
        rfl
      · rw [utf8Length_cons, hlength]
      · show c.utf8Size + bytes ≤ n
        omega
  | case3 n c cs hlt => exact ⟨[], rfl, rfl, Nat.zero_le n⟩

/-- No longer head of a text fits into a number of bytes than the one that is skipped. -/
theorem utf8Length_le_skipBytes (n : Nat) (before after : List Char)
    (h : utf8Length before ≤ n) :
    utf8Length before ≤ (skipBytes n (before ++ after)).1 := by
  induction before generalizing n with
  | nil => exact Nat.zero_le _
  | cons c before ih =>
      rw [utf8Length_cons] at h ⊢
      have := ih (n - c.utf8Size) (by omega)
      rw [List.cons_append, skipBytes, if_pos (by omega)]
      show _ ≤ c.utf8Size + _
      omega

theorem ofSource_stands (source : String) (start : Nat) :
    (ofSource source start).Stands source (ofSource source start).position := by
  obtain ⟨before, hsource, hlength, -⟩ := skipBytes_spec start source.toList
  exact ⟨⟨before, hsource, hlength⟩, ⟨before, _, hsource, hlength⟩, Nat.le_refl _, Nat.le_refl _⟩

/-- A cursor starts at the last boundary that is not behind the offset asked for. -/
theorem ofSource_position (source : String) (start : Nat) :
    (ofSource source start).position ≤ start ∧
      ∀ n, IsBoundary source n → n ≤ start → n ≤ (ofSource source start).position := by
  obtain ⟨-, -, -, hle⟩ := skipBytes_spec start source.toList
  refine ⟨hle, ?_⟩
  rintro n ⟨before, after, hsource, rfl⟩ hn
  have := utf8Length_le_skipBytes start before after hn
  rw [← hsource] at this
  exact this

/-! ### Runs -/

theorem Stands.run (h : c.Stands source start) (calls : List Call) :
    (c.run calls).Stands source start := by
  induction calls generalizing c with
  | nil => exact h
  | cons call calls ih => exact ih (h.after call)

/-- Every token that the calls ask for is there, and none is the end of the source. -/
def Proceeds (c : Cursor) : List Call → Prop
  | [] => True
  | .next :: calls =>
    (c.advance.1 = .ok () ∧ c.advance.2.token ≠ .eof) ∧ c.advance.2.Proceeds calls
  | .operandEnd :: calls => c.endOperand.Proceeds calls

/-- The tokens that the calls read, each with its value. -/
def tokensRead (c : Cursor) : List Call → List (Token × String)
  | [] => []
  | .next :: calls => (c.advance.2.token, c.advance.2.value) :: c.advance.2.tokensRead calls
  | .operandEnd :: calls => c.endOperand.tokensRead calls

/-- A token in a source, with the gap before it. -/
structure Piece where
  gap : List Char
  token : Token
  value : String
  text : List Char

/-- The text that a piece takes up. -/
def Piece.chars (p : Piece) : List Char :=
  p.gap ++ p.text

/-- The gap of a piece is trivia, and its text spells its token. -/
structure Piece.IsFit (p : Piece) : Prop where
  gap : Token.IsTrivia 0 p.gap
  text : p.token.Spells p.value p.text

/-- The tokens of a run, with the gaps before them, are the text that the run has passed. -/
theorem Stands.pieces (h : c.Stands source start) {calls : List Call} (hcalls : c.Proceeds calls) :
    c.position + calls.count .next ≤ (c.run calls).position ∧
      ∃ pieces : List Piece, (∀ p ∈ pieces, p.IsFit) ∧
        pieces.map (fun p => (p.token, p.value)) = c.tokensRead calls ∧
        IsSlice source c.position (c.run calls).position (pieces.flatMap Piece.chars) := by
  induction calls generalizing c with
  | nil => exact ⟨Nat.le_refl _, [], by simp, rfl, .nil h.position_boundary⟩
  | cons call calls ih =>
      cases call with
      | next =>
          obtain ⟨⟨hok, htoken⟩, hcalls⟩ := hcalls
          have hadvance : c.advance = (.ok (), c.advance.2) := Prod.ext hok rfl
          obtain ⟨gap, text, hstep⟩ := h.step hadvance htoken
          obtain ⟨hcount, pieces, hfit, htokens, hslice⟩ := ih (h.after .next) hcalls
          have hforward := hstep.forward
          constructor
          · rw [List.count_cons_self]
            show _ ≤ (c.advance.2.run calls).position
            have : c.advance.2.position + calls.count .next ≤
              (c.advance.2.run calls).position := hcount
            omega
          · refine ⟨⟨gap, c.advance.2.token, c.advance.2.value, text⟩ :: pieces, ?_, ?_, ?_⟩
            · intro p hp
              rcases List.mem_cons.mp hp with rfl | hp
              · exact ⟨hstep.gap_isTrivia, hstep.spells⟩
              · exact hfit p hp
            · rw [List.map_cons, htokens]
              rfl
            · rw [List.flatMap_cons]
              exact (hstep.gap_slice.append hstep.slice).append hslice
      | operandEnd =>
          obtain ⟨hcount, pieces, hfit, htokens, hslice⟩ := ih (h.after .operandEnd) hcalls
          refine ⟨?_, pieces, hfit, htokens, hslice⟩
          rw [List.count_cons_of_ne (by simp)]
          exact hcount

/-- The next token that is asked for is the end of the source, or there is none. -/
def AtEnd (c : Cursor) : Prop :=
  c.advance.1 = .ok () → c.advance.2.token = .eof

/-- Reading token after token comes to an end. -/
theorem Stands.exists_end (h : c.Stands source start) :
    ∃ n ≤ source.utf8ByteSize - c.position, c.Proceeds (List.replicate n .next) ∧
      (c.run (List.replicate n .next)).AtEnd := by
  generalize hleft : source.utf8ByteSize - c.position = left
  induction left using Nat.strongRecOn generalizing c with
  | ind left ih =>
      by_cases hend : c.AtEnd
      · exact ⟨0, Nat.zero_le _, trivial, hend⟩
      · obtain ⟨hok, htoken⟩ := Classical.not_imp.mp hend
        have hd := h.after .next
        obtain ⟨gap, text, hstep⟩ := h.step (d := c.advance.2) (Prod.ext hok rfl) htoken
        have hforward := hstep.forward
        have hle : c.advance.2.position ≤ source.utf8ByteSize := hd.position_boundary.le
        obtain ⟨n, hn, hproceeds, hatEnd⟩ := ih (source.utf8ByteSize - c.advance.2.position)
          (by omega) hd rfl
        exact ⟨n + 1, by omega, ⟨⟨hok, htoken⟩, hproceeds⟩, hatEnd⟩

/-- Whatever calls are made, the cursor keeps its place in the source, and every token that is
read then is a slice of the source with nothing but trivia before it. As long as the calls
proceed, there are no more tokens than bytes, the tokens with their gaps are the source from the
start on, and after finitely many of them nothing is left but the end or an error. -/
theorem run_tiles (source : String) (start : Nat) (calls : List Call) :
    let origin := ofSource source start
    let c := origin.run calls
    (origin.position ≤ c.offset ∧ c.offset ≤ c.position ∧ c.position ≤ source.utf8ByteSize ∧
      IsBoundary source c.offset ∧ IsBoundary source c.position) ∧
    (∀ call, c.position ≤ (c.after call).position) ∧
    (∀ d, c.advance = (.ok (), d) → d.token ≠ .eof → ∃ gap text, Step source c d gap text) ∧
    (origin.Proceeds calls →
      calls.count .next ≤ source.utf8ByteSize - origin.position ∧
      ∃ pieces : List Piece, (∀ p ∈ pieces, p.IsFit) ∧
        pieces.map (fun p => (p.token, p.value)) = origin.tokensRead calls ∧
        IsSlice source origin.position c.position (pieces.flatMap Piece.chars) ∧
        ∀ d, c.advance = (.ok (), d) → d.token = .eof →
          ∃ gap, Token.IsTrivia 0 gap ∧ IsSlice source c.position source.utf8ByteSize gap) ∧
    ∃ n ≤ source.utf8ByteSize - c.position, c.Proceeds (List.replicate n .next) ∧
      (c.run (List.replicate n .next)).AtEnd := by
  intro origin c
  have horigin : origin.Stands source origin.position := ofSource_stands source start
  have hc : c.Stands source origin.position := horigin.run calls
  have hle : c.position ≤ source.utf8ByteSize := hc.position_boundary.le
  refine ⟨⟨hc.start_le_offset, hc.offset_le_position, hle, hc.offset_boundary,
    hc.position_boundary⟩, position_le_after c, fun d => hc.step, ?_, hc.exists_end⟩
  intro hproceeds
  obtain ⟨hcount, pieces, hfit, htokens, hslice⟩ := horigin.pieces hproceeds
  refine ⟨?_, pieces, hfit, htokens, hslice, fun d => hc.end_step⟩
  have : origin.position + calls.count .next ≤ c.position := hcount
  omega

end Cursor

end XPath
