import MiniC.Proofs.Source.OneLine
import MiniC.Proofs.Token.Tiling

/-!
No token goes on behind the end of its line, and no fault that is found on the way
is told with a newline. A literal that is not closed stops in front of the newline,
also behind a backslash, and a byte that begins no token is shown escaped if it has
to be.
-/

namespace MiniC

open Text (ascii newline IsLine)

def Diagnostic.IsLined (d : Diagnostic) : Prop := IsLine d.message

/-- A token whose text is of one line, and faults told in one. -/
structure Lexeme.IsLined (lexeme : Lexeme) : Prop where
  text : IsLine lexeme.token.text
  faults : ∀ d ∈ lexeme.faults, d.IsLined

theorem LexicalFault.illegalByte_lined (b : UInt8) : IsLine (illegalByte b).message := by
  dsimp only [message]
  split_ifs
  · decide
  · decide
  · exact Text.isLine_append.mpr ⟨by decide, Text.isLine_quotedByte b⟩

namespace Quoted

theorem Encloses.onLine {quote : UInt8} {inside after : List UInt8}
    (encloses : Encloses quote inside after) (noBreak : quote ≠ newline) : newline ∉ inside := by
  have escapes : newline ≠ ascii '\\' := by decide
  induction encloses with
  | closed => exact List.not_mem_cons_of_ne_of_not_mem (Ne.symm noBreak) List.not_mem_nil
  | cut => exact List.not_mem_nil
  | cutEscape => exact List.not_mem_cons_of_ne_of_not_mem escapes List.not_mem_nil
  | plain onLine _ _ _ ih => exact List.not_mem_cons_of_ne_of_not_mem (Ne.symm onLine) ih
  | escape onLine _ ih =>
    exact List.not_mem_cons_of_ne_of_not_mem escapes
      (List.not_mem_cons_of_ne_of_not_mem (Ne.symm onLine) ih)

/-- A newline behind a backslash is not taken for an escape. -/
theorem unitFaults_lined (quote : UInt8) (bytes : List UInt8) :
    ∀ placed ∈ unitFaults (ofBytes quote bytes).units, IsLine placed.fault.message := by
  have later (unit : QuotedUnit) {rest : List QuotedUnit}
      (here : ∀ placed ∈ unit.faults, IsLine placed.fault.message)
      (lined : ∀ placed ∈ unitFaults rest, IsLine placed.fault.message) :
      ∀ placed ∈ unitFaults (unit :: rest), IsLine placed.fault.message := by
    apply List.forall_mem_append.mpr ⟨here, _⟩
    exact List.forall_mem_map.mpr lined
  have none : ∀ placed ∈ ([] : List PlacedFault), IsLine placed.fault.message :=
    List.forall_mem_nil _
  have cut : ∀ placed ∈ QuotedUnit.cutEscape.faults, IsLine placed.fault.message :=
    List.forall_mem_singleton.mpr (by decide)
  fun_induction ofBytes quote bytes with
  | case1 | case2 | case3 => exact none
  | case4 | case5 => exact later _ cut none
  | case6 c rest onLine _ _ ih =>
    refine later (.escape c) ?_ ih
    by_cases known : c ∈ QuotedUnit.escapable
    · rw [QuotedUnit.faults, if_pos known]
      exact none
    · rw [QuotedUnit.faults, if_neg known, List.forall_mem_singleton]
      exact Text.isLine_append.mpr ⟨by decide, Text.isLine_byteChar onLine⟩
  | case7 b rest _ _ _ ih => exact later (.plain b) none ih

end Quoted

namespace Piece

theorem Longest.onLine {piece after : List UInt8} (longest : Longest piece after)
    (stops : ¬ Gap.Begins (piece ++ after)) : newline ∉ piece := by
  cases longest with
  | @word b run _ first inside =>
    intro member
    have each : ∀ c ∈ b :: run, isWordByte c = true :=
      List.forall_mem_cons.mpr ⟨isWordByte_of_isLetter first, inside⟩
    exact absurd (each newline member) (by decide)
  | @number b run _ first inside =>
    intro member
    have each : ∀ c ∈ b :: run, isDigit c = true := List.forall_mem_cons.mpr ⟨first, inside⟩
    exact absurd (each newline member) (by decide)
  | quoted isQuote encloses =>
    obtain ⟨_, noBreak, _⟩ := quote_facts isQuote
    exact List.not_mem_cons_of_ne_of_not_mem (Ne.symm noBreak) (encloses.onLine noBreak)
  | @symbol kind _ listed =>
    have each : ∀ kind ∈ TokenKind.symbols, newline ∉ spelled kind := by decide +kernel
    exact each kind listed
  | @stray b =>
    intro member
    rw [List.mem_singleton] at member
    exact stops (.inl ⟨b, rfl, member ▸ by decide⟩)

theorem units_lined (quote : UInt8) (inside : List UInt8) :
    ∀ placed ∈ (Quoted.unitFaults (Quoted.ofBytes quote inside).units).map (PlacedFault.shift 1),
      IsLine placed.fault.message :=
  List.forall_mem_map.mpr (Quoted.unitFaults_lined quote inside)

theorem faults_lined (bytes : List UInt8) :
    ∀ placed ∈ (ofBytes bytes).faults, IsLine placed.fault.message := by
  have none : ∀ placed ∈ ([] : List PlacedFault), IsLine placed.fault.message := nofun
  have one {fault : LexicalFault} (lined : IsLine fault.message) :
      ∀ placed ∈ [(⟨0, fault⟩ : PlacedFault)], IsLine placed.fault.message :=
    List.forall_mem_singleton.mpr lined
  cases bytes with
  | nil => exact none
  | cons b rest =>
    rw [ofBytes]
    split
    · exact none
    split
    · exact none
    split
    · refine List.forall_mem_append.mpr ⟨units_lined _ _, ?_⟩
      split
      · exact none
      · exact one (by decide)
    split
    · refine List.forall_mem_append.mpr ⟨List.forall_mem_append.mpr ⟨units_lined _ _, ?_⟩, ?_⟩
      · split
        · exact none
        · exact one (by decide)
      · split
        · exact one (by decide)
        · exact none
    split
    · exact none
    · exact one (LexicalFault.illegalByte_lined b)

end Piece

namespace Cursor

theorem scan_lined (cursor : Cursor) : cursor.scan.1.IsLined := by
  constructor
  · unfold scan
    dsimp only
    rw [advance_rest]
    apply Text.isLine_decode
    rcases exists_tile cursor.rest with ⟨unclosed, fills⟩ | ⟨gap, bytes, after, rest, tile⟩
    · rw [Gap.ofBytes_last fills, List.drop_length, List.take_nil]
      exact List.not_mem_nil
    · rw [rest, Gap.ofBytes_between tile.fills tile.stops, List.drop_left,
        tile.longest.ofBytes_length, List.take_left]
      exact tile.longest.onLine tile.stops
  · intro d member
    rcases List.mem_append.mp member with inGap | inPiece
    · obtain ⟨placed, isGap, rfl⟩ := List.mem_map.mp inGap
      obtain ⟨offset, _, rfl⟩ := List.mem_map.mp isGap
      exact (by decide : IsLine LexicalFault.unclosedComment.message)
    · obtain ⟨placed, isFault, rfl⟩ := List.mem_map.mp inPiece
      exact Piece.faults_lined _ placed isFault

theorem scanAll_lined (cursor : Cursor) : ∀ lexeme ∈ cursor.scanAll.all, lexeme.IsLined := by
  fun_induction scanAll cursor with
  | case1 cursor found isEnd => exact List.forall_mem_singleton.mpr cursor.scan_lined
  | case2 cursor found more later ih => exact List.forall_mem_cons.mpr ⟨cursor.scan_lined, ih⟩

end Cursor

end MiniC
