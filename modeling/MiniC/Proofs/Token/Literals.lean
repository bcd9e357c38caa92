import MiniC.Proofs.Expr.Typing
import MiniC.Proofs.Token.Tiling
import MiniC.Proofs.Token.Units

/-!
Quoted literals of a source. One that keeps to the grammar is scanned without a
fault, as it is written; any other ends at its closing quote or with its line, and
has a fault for every stray backslash, for a missing closing quote and, if it is a
character literal, for more than one unit. A string without fault is checked unit
by unit as it was scanned.
-/

namespace MiniC

open Text (ascii newline IsEncoded)

/-- The lexeme is the longest token from `start` on, with all that is wrong with it. -/
structure Lexeme.IsCut (lines : LineIndex) (start : Nat) (bytes after : List UInt8)
    (lexeme : Lexeme) : Prop where
  longest : Piece.Longest bytes after
  kind : lexeme.token.kind = (Piece.ofBytes (bytes ++ after)).kind
  text : lexeme.token.text = Text.decode bytes
  pos : lexeme.token.pos = lines.position start
  faults : lexeme.faults = (Piece.ofBytes (bytes ++ after)).faults.map fun placed =>
    placed.fault.diagnose (lines.position (start + placed.offset))

theorem Cursor.scan_isCut {cursor : Cursor} {gap bytes after : List UInt8}
    (rest : cursor.rest = gap ++ (bytes ++ after)) (tile : IsTile gap bytes after) :
    cursor.scan.1.IsCut cursor.scan.2.lines (cursor.offset + gap.length) bytes after := by
  obtain ⟨fills, stops, longest⟩ := tile
  have measured : Gap.ofBytes cursor.rest = ⟨gap.length, none⟩ := by
    rw [rest, Gap.ofBytes_between fills stops]
  obtain ⟨startRest, startOffset⟩ := advance_append rest
  have taken : (bytes ++ after).take bytes.length = bytes := List.take_left
  unfold scan
  rw [measured]
  dsimp only
  rw [startRest, startOffset, longest.ofBytes_length, taken]
  exact ⟨longest, rfl, rfl, rfl, rfl⟩

theorem Lexeme.IsCut.extend {lines grown : LineIndex} {start : Nat} {bytes after : List UInt8}
    {lexeme : Lexeme} (cut : lexeme.IsCut lines start bytes after)
    (grows : lines.Extends grown (start + bytes.length)) :
    lexeme.IsCut grown start bytes after := by
  refine { cut with pos := ?_, faults := ?_ }
  · rw [cut.pos, grows.position_eq (Nat.le_add_right _ _)]
  · rw [cut.faults]
    apply List.map_congr_left
    intro placed isFault
    obtain ⟨bound, _⟩ := Piece.ofBytes_faultsWithin _ placed isFault
    rw [cut.longest.ofBytes_length] at bound
    rw [grows.position_eq (Nat.add_le_add_left bound _)]

namespace QuotedKind

/-- What a literal is read as behind its opening quote. -/
def piece : QuotedKind → List UInt8 → Piece
  | .char => Piece.char
  | .string => Piece.string

theorem ofBytes_quote (kind : QuotedKind) (rest : List UInt8) :
    Piece.ofBytes (kind.quote :: rest) = kind.piece rest := by
  cases kind with
  | char => exact Piece.ofBytes_char rest
  | string => exact Piece.ofBytes_string rest

theorem piece_kind (kind : QuotedKind) (rest : List UInt8) :
    (kind.piece rest).kind = kind.token := by
  cases kind <;> rfl

theorem token_inj {kind other : QuotedKind} (same : kind.token = other.token) : kind = other := by
  cases kind <;> cases other <;> first | rfl | cases same

/-- Only a quote begins a literal. -/
theorem exists_quote {kind : QuotedKind} {bytes : List UInt8}
    (isLiteral : (Piece.ofBytes bytes).kind = kind.token) :
    ∃ rest, bytes = kind.quote :: rest := by
  have noKeyword : kind.token ∉ TokenKind.keywords := by cases kind <;> decide
  have noSymbol : kind.token ∉ TokenKind.symbols := by cases kind <;> decide
  cases bytes with
  | nil => cases kind <;> cases isLiteral
  | cons b rest =>
    by_cases quote : b ∈ Piece.quotes
    · have opens : ∃ other : QuotedKind, b = other.quote := by
        rcases List.mem_pair.mp quote with rfl | rfl
        · exact ⟨.string, rfl⟩
        · exact ⟨.char, rfl⟩
      obtain ⟨other, rfl⟩ := opens
      rw [ofBytes_quote] at isLiteral
      rw [token_inj ((other.piece_kind rest).symm.trans isLiteral)]
      exact ⟨rest, rfl⟩
    -- any other first byte begins a piece of another kind
    exfalso
    by_cases letter : Piece.isLetter b = true
    · rw [Piece.ofBytes_letter letter, Piece.word] at isLiteral
      dsimp only at isLiteral
      cases found : TokenKind.keyword? (Text.decode ((b :: rest).takeWhile Piece.isWordByte)) with
      | none =>
        rw [found] at isLiteral
        cases kind <;> cases isLiteral
      | some keyword =>
        rw [found] at isLiteral
        exact noKeyword (isLiteral ▸ List.mem_of_find?_eq_some found)
    by_cases digit : Piece.isDigit b = true
    · rw [Piece.ofBytes_digit digit] at isLiteral
      cases kind <;> cases isLiteral
    have noLetter := Bool.eq_false_iff.mpr letter
    have noDigit := Bool.eq_false_iff.mpr digit
    cases found : Piece.symbol? (b :: rest) with
    | some symbol =>
      rw [Piece.ofBytes_symbol found] at isLiteral
      exact noSymbol (isLiteral ▸ (Piece.symbol?_some found).1)
    | none =>
      rw [Piece.ofBytes_stray noLetter noDigit quote found] at isLiteral
      cases kind <;> cases isLiteral

/-- The faults of a literal at `start`: what they are, and where. One is for a character
literal that is found to be crowded. -/
def marks (kind : QuotedKind) (start : Nat) (quoted : Quoted) (isCrowded : Prop)
    [Decidable isCrowded] : List (DiagnosticKind × Nat) :=
  (Quoted.strays (start + 1) quoted.units).map (.malformedEscape, ·) ++
    (if quoted.isClosed then [] else [(.unterminatedLiteral, start)]) ++
    (if kind = .char ∧ isCrowded then [(.multiCharLiteral, start)] else [])

theorem piece_marks (kind : QuotedKind) (start : Nat) (rest : List UInt8) :
    (kind.piece rest).faults.map (fun placed => (placed.fault.kind, start + placed.offset)) =
      let quoted := Quoted.ofBytes kind.quote rest
      kind.marks start quoted (1 < Quoted.count quoted.units) := by
  have units (units : List QuotedUnit) :
      ((Quoted.unitFaults units).map (PlacedFault.shift 1)).map
          (fun placed => (placed.fault.kind, start + placed.offset)) =
        (Quoted.strays (start + 1) units).map fun place => (.malformedEscape, place) := by
    rw [← Quoted.unitFaults_strays, List.map_map]
    apply List.map_congr_left
    intro placed _
    rw [Nat.add_assoc]
    rfl
  dsimp only
  unfold marks
  cases kind with
  | string =>
    have noChar : ¬ (string = char ∧ 1 < Quoted.count (Quoted.ofBytes string.quote rest).units) :=
      fun both => nomatch both.1
    rw [if_neg noChar, List.append_nil, piece, Piece.string, List.map_append, units]
    congr 1
    change List.map _ (if (Quoted.ofBytes string.quote rest).isClosed then _ else _) = _
    split <;> rfl
  | char =>
    rw [piece, Piece.char, List.map_append, List.map_append, units]
    congr 1
    · congr 1
      change List.map _ (if (Quoted.ofBytes char.quote rest).isClosed then _ else _) = _
      split <;> rfl
    · change List.map _ (if 1 < Quoted.count (Quoted.ofBytes char.quote rest).units then _ else _) = _
      by_cases crowded : 1 < Quoted.count (Quoted.ofBytes char.quote rest).units
      · rw [if_pos crowded, if_pos ⟨rfl, crowded⟩]
        rfl
      · rw [if_neg crowded, if_neg fun both => crowded both.2]
        rfl

/-- A literal without fault is closed, without a stray backslash and not crowded. -/
theorem marks_eq_nil {kind : QuotedKind} {start : Nat} {quoted : Quoted} {after : List UInt8}
    {isCrowded : Prop} [Decidable isCrowded] (reads : Quoted.Reads kind.quote quoted after) :
    kind.marks start quoted isCrowded = [] ↔ quoted.isClosed = true ∧
      (∀ unit ∈ quoted.units, unit.IsProper kind.quote) ∧ (kind = .char → ¬ isCrowded) := by
  unfold marks
  rw [List.append_eq_nil_iff, List.append_eq_nil_iff, List.map_eq_nil_iff, Quoted.strays_eq_nil]
  constructor
  · rintro ⟨⟨noStray, closed⟩, few⟩
    refine ⟨?_, reads.proper noStray, ?_⟩
    · by_contra isOpen
      rw [if_neg isOpen] at closed
      cases closed
    · intro isChar crowded
      rw [if_pos ⟨isChar, crowded⟩] at few
      cases few
  · rintro ⟨closed, proper, few⟩
    refine ⟨⟨?_, if_pos closed⟩, ?_⟩
    · exact fun unit member => Quoted.not_isStray_of_isProper (proper unit member)
    · exact if_neg fun both => few both.1 both.2

theorem literal_eq (kind : QuotedKind) (units : List QuotedUnit) :
    kind.literal units = kind.quote :: Quoted.bytes kind.quote ⟨units, true⟩ := rfl

end QuotedKind

namespace Literal

end Literal

namespace QuotedKind

/-- A literal without stray backslashes is read unit by unit. -/
theorem Passes.reads {kind : QuotedKind} {units : List QuotedUnit} (passes : kind.Passes units)
    (after : List UInt8) : Quoted.Reads kind.quote ⟨units, true⟩ after :=
  Quoted.reads_of_proper passes.1 after

end QuotedKind

namespace Quoted

theorem Reads.longest {kind : QuotedKind} {quoted : Quoted} {after : List UInt8}
    (reads : Reads kind.quote quoted after) :
    Piece.Longest (kind.quote :: quoted.bytes kind.quote) after :=
  .quoted kind.quote_mem reads.encloses

theorem Reads.ofBytes_quote {kind : QuotedKind} {quoted : Quoted} {after : List UInt8}
    (reads : Reads kind.quote quoted after) :
    Quoted.ofBytes kind.quote (quoted.bytes kind.quote ++ after) = quoted := by
  obtain ⟨_, noBreak, noEscape, _⟩ := Piece.quote_facts kind.quote_mem
  exact reads.ofBytes noBreak noEscape

theorem exists_reads (quote : UInt8) (rest : List UInt8) :
    ∃ quoted after, Reads quote quoted after ∧ rest = quoted.bytes quote ++ after := by
  obtain ⟨inside, after, rfl, encloses⟩ := exists_encloses quote rest
  obtain ⟨quoted, reads, rfl⟩ := encloses.exists_reads
  exact ⟨quoted, after, reads, rfl⟩

end Quoted

/-- How a literal of the source was read. -/
theorem Lexeme.IsCut.reads {lines : LineIndex} {before bytes after : List UInt8} {lexeme : Lexeme}
    (cut : lexeme.IsCut lines before.length bytes after) {kind : QuotedKind}
    (isLiteral : lexeme.token.kind = kind.token) (whole : IsEncoded (before ++ (bytes ++ after))) :
    ∃ quoted : Quoted, quoted.Reads kind.quote after ∧ bytes = kind.quote :: quoted.bytes kind.quote ∧
      Text.bytes lexeme.token.text = bytes ∧
      lexeme.faults.map (fun d => (d.kind, d.pos)) =
        (kind.marks before.length quoted (1 < Quoted.count quoted.units)).map
          fun mark => (mark.1, lines.position mark.2) := by
  obtain ⟨rest, opens⟩ := QuotedKind.exists_quote (cut.kind.symm.trans isLiteral)
  obtain ⟨quoted, later, reads, rfl⟩ := Quoted.exists_reads kind.quote rest
  -- both are the longest token there, so they are as long as each other
  have size := cut.longest.ofBytes_length
  rw [opens, ← List.cons_append, reads.longest.ofBytes_length] at size
  rw [← List.cons_append] at opens
  obtain ⟨rfl, rfl⟩ := List.append_inj opens size.symm
  refine ⟨quoted, reads, rfl, ?_, ?_⟩
  · rw [cut.text]
    rcases cut.longest.bytes_decode whole with same | ⟨b, large, isStray, _⟩
    · exact same
    · obtain ⟨small, _⟩ := Piece.quote_facts kind.quote_mem
      exact absurd ((List.cons_eq_cons.mp isStray).1 ▸ small) large
  · have marks := kind.piece_marks before.length (quoted.bytes kind.quote ++ after)
    rw [reads.ofBytes_quote] at marks
    rw [cut.faults, List.cons_append, kind.ofBytes_quote, ← marks, List.map_map, List.map_map]
    rfl

example : ((Scanned.ofSource "m.c" "'\\q\\").faults.map fun d => (d.kind, d.pos.offset)) =
    [(.malformedEscape, 2), (.malformedEscape, 4), (.unterminatedLiteral, 0),
      (.multiCharLiteral, 0)] := by decide +kernel

end MiniC
