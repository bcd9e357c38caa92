import MiniC.Proofs.Token.Filler
import MiniC.Proofs.Token.Longest
import MiniC.Proofs.Token.Places

/-!
The tokens of a source and the gaps between them are its bytes, one behind the
other. That is told without the scanner, by what a gap is and what a token in
front of other bytes is, and there is only one way to cut a source up like this.

Scanning one token at a time, the first scans give the lexemes of the source, the
end among them, and leave the cursor at the end; every scan after that gives the
end again and finds nothing else.
-/

namespace MiniC

section

open Text (IsAscii IsEncoded)

/-- The lexeme is that of the token with these bytes, which begin at `start` and
are followed by `after`. -/
structure Lexeme.Covers (lines : LineIndex) (start : Nat) (bytes after : List UInt8)
    (lexeme : Lexeme) : Prop where
  present : bytes ≠ []
  longest : Piece.Longest bytes after
  /-- No comment begins here. -/
  apart : ¬ Gap.Begins (bytes ++ after)
  pos : lexeme.token.pos = lines.position start
  kind : lexeme.token.kind = .ofText lexeme.token.text
  text : Text.bytes lexeme.token.text = bytes ∨
    ∃ b, ¬ IsAscii b ∧ bytes = [b] ∧ lexeme.token.kind = .illegal ∧ lexeme.token.text = "\uFFFD"
  faults : ∀ d ∈ lexeme.faults, ∃ offset ≤ bytes.length,
    d.pos = lines.position (start + offset) ∧ (d.kind = .unterminatedLiteral → offset = 0)

/-- The bytes from `start` to the end of the source are cut up into these lexemes
and the last one, which is at the end. -/
inductive Tiles (lines : LineIndex) : Nat → List UInt8 → List Lexeme → Lexeme → Prop where
  | ending {start : Nat} {gap : List UInt8} {unclosed : Option Nat} {ending : Lexeme}
      (fills : Gap.FillsLast gap unclosed)
      (token : ending.token = ⟨.eof, "", lines.position (start + gap.length)⟩)
      (faults : ending.faults = unclosed.toList.map fun offset =>
        LexicalFault.unclosedComment.diagnose (lines.position (start + offset))) :
    Tiles lines start gap [] ending
  | token {start : Nat} {gap bytes after : List UInt8} {lexeme ending : Lexeme}
      {later : List Lexeme} (fills : Gap.Fills gap)
      (covers : lexeme.Covers lines (start + gap.length) bytes after)
      (tiles : Tiles lines (start + gap.length + bytes.length) after later ending) :
    Tiles lines start (gap ++ (bytes ++ after)) (lexeme :: later) ending

/-- A gap and a token behind it. -/
structure IsTile (gap bytes after : List UInt8) : Prop where
  fills : Gap.Fills gap
  stops : ¬ Gap.Begins (bytes ++ after)
  longest : Piece.Longest bytes after

/-- There is a token behind the next gap, or there is none any more. -/
theorem exists_tile (rest : List UInt8) :
    (∃ unclosed, Gap.FillsLast rest unclosed) ∨
      ∃ gap bytes after, rest = gap ++ (bytes ++ after) ∧ IsTile gap bytes after := by
  cases Gap.splits rest with
  | last fills => exact .inl ⟨_, fills⟩
  | @between gap tail fills stops =>
    by_cases none : tail = []
    · rw [none, List.append_nil]
      exact .inl ⟨_, .whole fills⟩
    · obtain ⟨bytes, after, rfl, longest⟩ := Piece.exists_longest none
      exact .inr ⟨gap, bytes, after, rfl, fills, stops, longest⟩

namespace Cursor

theorem advance_append {first : List UInt8} {cursor : Cursor} {after : List UInt8}
    (rest : cursor.rest = first ++ after) :
    (cursor.advance first.length).rest = after ∧
      (cursor.advance first.length).offset = cursor.offset + first.length := by
  rw [advance_rest, advance_offset, rest]
  simp

/-- A scan that finds a token. -/
theorem scan_token {cursor : Cursor} {gap bytes after before : List UInt8}
    (rest : cursor.rest = gap ++ (bytes ++ after)) (tile : IsTile gap bytes after)
    (whole : IsEncoded (before ++ (bytes ++ after))) :
    cursor.scan.2.rest = after ∧
      cursor.scan.2.offset = cursor.offset + gap.length + bytes.length ∧
      cursor.scan.1.Covers cursor.scan.2.lines (cursor.offset + gap.length) bytes after := by
  obtain ⟨fills, stops, longest⟩ := tile
  have measured : Gap.ofBytes cursor.rest = ⟨gap.length, none⟩ := by
    rw [rest, Gap.ofBytes_between fills stops]
  obtain ⟨startRest, startOffset⟩ := advance_append rest
  obtain ⟨stopRest, stopOffset⟩ := advance_append startRest
  have taken : (bytes ++ after).take bytes.length = bytes := List.take_left
  unfold scan
  rw [measured]
  dsimp only
  rw [startRest, startOffset, longest.ofBytes_length, taken]
  constructor
  · exact stopRest
  constructor
  · rw [stopOffset, startOffset]
  have kind := longest.ofBytes_kind whole
  constructor
  · exact longest.ne_nil
  · exact longest
  · exact stops
  · rfl
  · exact kind
  · rcases longest.bytes_decode whole with same | ⟨b, large, isStray, replaced⟩
    · exact .inl same
    · have illegal : TokenKind.ofText "\uFFFD" = .illegal := by decide
      refine .inr ⟨b, large, isStray, ?_, replaced⟩
      rw [kind, replaced, illegal]
  · intro d member
    obtain ⟨placed, isFault, rfl⟩ := List.mem_map.mp member
    obtain ⟨bound, unclosed⟩ := Piece.ofBytes_faultsWithin _ placed isFault
    rw [longest.ofBytes_length] at bound
    exact ⟨placed.offset, bound, rfl, unclosed⟩

/-- The last scan. -/
theorem scan_ending {cursor : Cursor} {unclosed : Option Nat}
    (fills : Gap.FillsLast cursor.rest unclosed) :
    cursor.scan.2.rest = [] ∧ cursor.scan.2.offset = cursor.offset + cursor.rest.length ∧
      Tiles cursor.scan.2.lines cursor.offset cursor.rest [] cursor.scan.1 := by
  have measured := Gap.ofBytes_last fills
  obtain ⟨startRest, startOffset⟩ := advance_append (List.append_nil cursor.rest).symm
  have token : cursor.scan.1.token =
      ⟨.eof, "", cursor.scan.2.lines.position (cursor.offset + cursor.rest.length)⟩ := by
    unfold scan
    rw [measured]
    dsimp only
    rw [startRest, startOffset]
    rfl
  have faults : cursor.scan.1.faults = unclosed.toList.map fun offset =>
      LexicalFault.unclosedComment.diagnose
        (cursor.scan.2.lines.position (cursor.offset + offset)) := by
    unfold scan
    rw [measured]
    dsimp only
    rw [startRest]
    cases unclosed <;> rfl
  have stop : cursor.scan.2 = cursor.advance cursor.rest.length := by
    unfold scan
    rw [measured]
    dsimp only
    rw [startRest]
    rfl
  constructor
  · rw [stop, startRest]
  constructor
  · rw [stop, startOffset]
  · exact .ending fills token faults

end Cursor

theorem Lexeme.Covers.extend {lines grown : LineIndex} {start : Nat} {bytes after : List UInt8}
    {lexeme : Lexeme} (covers : lexeme.Covers lines start bytes after)
    (grows : lines.Extends grown (start + bytes.length)) :
    lexeme.Covers grown start bytes after := by
  refine { covers with pos := ?_, faults := ?_ }
  · rw [covers.pos, grows.position_eq (Nat.le_add_right _ _)]
  · intro d member
    obtain ⟨offset, bound, place, unclosed⟩ := covers.faults d member
    refine ⟨offset, bound, ?_, unclosed⟩
    rw [place, grows.position_eq (Nat.add_le_add_left bound _)]

namespace Cursor

/-- All scans up to the end, on the bytes from somewhere in a source on. -/
theorem scanAll_tiles (cursor : Cursor) :
    ∀ before, IsEncoded (before ++ cursor.rest) → cursor.scanAll.stop.rest = [] ∧
      cursor.scanAll.stop.offset = cursor.offset + cursor.rest.length ∧
      Tiles cursor.scanAll.stop.lines cursor.offset cursor.rest cursor.scanAll.lexemes
        cursor.scanAll.ending := by
  fun_induction scanAll cursor with
  | case1 cursor found isEnd =>
    intro before whole
    rw [scan_kind] at isEnd
    -- a token behind the gap would not have been read as the end
    rcases exists_tile cursor.rest with ⟨unclosed, fills⟩ | ⟨gap, bytes, after, rest, tile⟩
    · exact scan_ending fills
    · have more : bytes ++ after ≠ [] := List.append_ne_nil_of_left_ne_nil tile.longest.ne_nil _
      rw [rest, Gap.ofBytes_between tile.fills tile.stops, List.drop_left] at isEnd
      exact absurd isEnd (Piece.ofBytes_kind_ne_eof more)
  | case2 cursor found more later ih =>
    intro before whole
    rcases exists_tile cursor.rest with ⟨unclosed, fills⟩ | ⟨gap, bytes, after, rest, tile⟩
    · rw [scan_kind, Gap.ofBytes_last fills, List.drop_length] at more
      exact absurd rfl more
    · rw [rest, ← List.append_assoc] at whole
      obtain ⟨stopRest, stopOffset, covers⟩ := scan_token rest tile whole
      rw [← List.append_assoc, ← stopRest] at whole
      obtain ⟨ended, offset, tiles⟩ := ih _ whole
      -- the lines found later leave the place of this token as it is
      have grown := cursor.scan.2.scanAll_places.1
      rw [stopOffset] at grown offset tiles
      rw [stopRest] at offset tiles
      have placed := covers.extend grown
      constructor
      · exact ended
      constructor
      · rw [rest, List.length_append, List.length_append, ← Nat.add_assoc, ← Nat.add_assoc]
        exact offset
      · rw [rest]
        exact .token tile.fills placed tiles

/-- Behind the end of the source every scan finds the end again. -/
theorem scanMany_ended {cursor : Cursor} (ended : cursor.rest = []) (n : Nat) :
    cursor.scanMany n =
      (List.replicate n ⟨⟨.eof, "", cursor.lines.position cursor.offset⟩, []⟩, cursor) := by
  have once : cursor.scan = (⟨⟨.eof, "", cursor.lines.position cursor.offset⟩, []⟩, cursor) := by
    unfold scan
    rw [ended, Gap.ofBytes_last (.whole .nil)]
    dsimp only [List.length_nil, advance]
    rw [ended]
    rfl
  induction n with
  | zero => rfl
  | succ n ih =>
    rw [scanMany, once]
    dsimp only
    rw [ih, List.replicate_succ]

end Cursor

section Unique

variable {gap bytes after otherGap otherBytes otherAfter : List UInt8}

theorem IsTile.not_fillsLast (tile : IsTile gap bytes after) {unclosed : Option Nat} :
    ¬ Gap.FillsLast (gap ++ (bytes ++ after)) unclosed := by
  intro fills
  have lengths := (Gap.ofBytes_between tile.fills tile.stops).symm.trans (Gap.ofBytes_last fills)
  have present := List.length_pos_iff.mpr tile.longest.ne_nil
  have same := congrArg Gap.length lengths
  simp only [List.length_append] at same
  omega

theorem IsTile.unique (tile : IsTile gap bytes after)
    (other : IsTile otherGap otherBytes otherAfter)
    (same : gap ++ (bytes ++ after) = otherGap ++ (otherBytes ++ otherAfter)) :
    gap = otherGap ∧ bytes = otherBytes ∧ after = otherAfter := by
  have gaps : gap.length = otherGap.length := by
    have read := Gap.ofBytes_between tile.fills tile.stops
    rw [same, Gap.ofBytes_between other.fills other.stops] at read
    exact (congrArg Gap.length read).symm
  obtain ⟨sameGap, sameRest⟩ := List.append_inj same gaps
  have pieces : bytes.length = otherBytes.length := by
    rw [← tile.longest.ofBytes_length, sameRest, other.longest.ofBytes_length]
  exact ⟨sameGap, List.append_inj sameRest pieces⟩

theorem Lexeme.Covers.isTile {lines : LineIndex} {start : Nat} {lexeme : Lexeme}
    (covers : lexeme.Covers lines start bytes after) (fills : Gap.Fills gap) :
    IsTile gap bytes after :=
  ⟨fills, covers.apart, covers.longest⟩

theorem Lexeme.Covers.text_unique {lines : LineIndex} {start : Nat} {left right : Lexeme}
    (first : left.Covers lines start bytes after) (second : right.Covers lines start bytes after) :
    left.token.text = right.token.text := by
  have noStray {text : String} {b : UInt8} (large : ¬ IsAscii b) : Text.bytes text ≠ [b] :=
    fun same => Text.not_isEncoded_stray large (same ▸ Text.isEncoded_bytes text)
  rcases first.text with same | ⟨b, large, isStray, _, replaced⟩
  · rcases second.text with other | ⟨b, large, isStray, _, _⟩
    · exact Text.bytes_inj (same.trans other.symm)
    · exact absurd (same.trans isStray) (noStray large)
  · rcases second.text with other | ⟨_, _, _, _, otherReplaced⟩
    · exact absurd (other.trans isStray) (noStray large)
    · exact replaced.trans otherReplaced.symm

theorem Lexeme.Covers.token_unique {lines : LineIndex} {start : Nat} {left right : Lexeme}
    (first : left.Covers lines start bytes after) (second : right.Covers lines start bytes after) :
    left.token = right.token := by
  have text := first.text_unique second
  have kind : left.token.kind = right.token.kind := by rw [first.kind, second.kind, text]
  have pos : left.token.pos = right.token.pos := by rw [first.pos, second.pos]
  exact (Token.mk.injEq ..).mpr ⟨kind, text, pos⟩

end Unique

/-- Bytes are cut up in one way only. -/
theorem Tiles.unique {lines : LineIndex} {start : Nat} {bytes : List UInt8}
    {left right : List Lexeme} {leftEnding rightEnding : Lexeme}
    (first : Tiles lines start bytes left leftEnding)
    (second : Tiles lines start bytes right rightEnding) :
    left.map (·.token) = right.map (·.token) ∧ leftEnding = rightEnding := by
  induction first generalizing right with
  | ending fills token faults =>
    cases second with
    | ending otherFills otherToken otherFaults =>
      have unclosed := congrArg Gap.unclosed
        ((Gap.ofBytes_last fills).symm.trans (Gap.ofBytes_last otherFills))
      dsimp only at unclosed
      rw [← unclosed, ← faults] at otherFaults
      rw [← token] at otherToken
      exact ⟨rfl, (Lexeme.mk.injEq ..).mpr ⟨otherToken.symm, otherFaults.symm⟩⟩
    | token otherFills covers => exact absurd fills (covers.isTile otherFills).not_fillsLast
  | @token start gap bytes after lexeme ending later fills covers _ ih =>
    have tile := covers.isTile fills
    -- both ways begin with the same gap and the same token
    generalize all : gap ++ (bytes ++ after) = whole at second
    cases second with
    | ending otherFills => exact absurd (all ▸ otherFills) tile.not_fillsLast
    | token otherFills otherCovers tiles =>
      obtain ⟨rfl, rfl, rfl⟩ := tile.unique (otherCovers.isTile otherFills) all
      obtain ⟨tokens, last⟩ := ih tiles
      constructor
      · rw [List.map_cons, List.map_cons, covers.token_unique otherCovers, tokens]
      · exact last

/-- The tokens of a source are its one tiling, and behind the end there is only
the end, again and again. -/
theorem tokens_tile_source (name source : String) :
    let scanned := Scanned.ofSource name source
    let lines := scanned.stop.lines
    let size := (Text.bytes source).length
    Tiles lines 0 (Text.bytes source) scanned.lexemes scanned.ending ∧
      (∀ lexemes ending, Tiles lines 0 (Text.bytes source) lexemes ending →
        lexemes.map (·.token) = scanned.lexemes.map (·.token) ∧ ending = scanned.ending) ∧
      ∀ n, scanned.stop.scanMany n =
        (List.replicate n ⟨⟨.eof, "", lines.position size⟩, []⟩, scanned.stop) := by
  have whole : IsEncoded ([] ++ (Cursor.atStart name source).rest) := Text.isEncoded_bytes source
  obtain ⟨ended, offset, tiles⟩ := (Cursor.atStart name source).scanAll_tiles [] whole
  constructor
  · exact tiles
  constructor
  · intro lexemes ending other
    exact other.unique tiles
  · intro n
    have behind := Cursor.scanMany_ended ended n
    have size : (Cursor.atStart name source).offset + (Cursor.atStart name source).rest.length =
        (Text.bytes source).length := Nat.zero_add _
    rw [offset, size] at behind
    exact behind

/-- A name, and a comment that is never closed. -/
theorem tokens_tile_source_unclosed :
    let scanned := Scanned.ofSource "m.c" "a/*"
    let lines := scanned.stop.lines
    let name : Lexeme := ⟨⟨.ident, "a", lines.position 0⟩, []⟩
    let ending : Lexeme := ⟨⟨.eof, "", lines.position 3⟩,
      [LexicalFault.unclosedComment.diagnose (lines.position 1)]⟩
    Tiles lines 0 (Text.bytes "a/*") [name] ending ∧
      [name.token] = scanned.lexemes.map (·.token) ∧ ending = scanned.ending := by
  intro scanned lines name ending
  have bytes : Text.bytes "a/*" = [Text.ascii 'a'] ++ Gap.blockOpening := by decide
  have covers : name.Covers lines 0 [Text.ascii 'a'] Gap.blockOpening := by
    constructor
    · exact List.cons_ne_nil _ _
    · exact .word (by decide) nofun (by decide +kernel)
    · rintro (⟨b, head, blank⟩ | line | block)
      · cases head
        revert blank
        decide
      · revert line
        decide
      · revert block
        decide
    · rfl
    · decide
    · left
      decide
    · exact nofun
  have last : Tiles lines 1 Gap.blockOpening [] ending :=
    .ending (.block .nil (by decide)) rfl rfl
  have tiles : Tiles lines 0 (Text.bytes "a/*") [name] ending := by
    rw [bytes]
    exact .token .nil covers last
  obtain ⟨_, unique, _⟩ := tokens_tile_source "m.c" "a/*"
  exact ⟨tiles, unique [name] ending tiles⟩

example : (Scanned.ofSource "m.c" "if0<==/*/**/é//").tokens.map (fun t => (t.kind, t.text)) =
    [(.ident, "if0"), (.le, "<="), (.assign, "="), (.illegal, "\uFFFD"), (.illegal, "\uFFFD"),
      (.eof, "")] := by decide +kernel

end

theorem Tiles.ending_token {lines : LineIndex} {start : Nat} {bytes : List UInt8}
    {lexemes : List Lexeme} {ending : Lexeme} (tiles : Tiles lines start bytes lexemes ending) :
    ending.token = ⟨.eof, "", lines.position (start + bytes.length)⟩ := by
  induction tiles with
  | ending fills token faults => exact token
  | @token start gap bytes after lexeme ending later fills covers tiles ih =>
    rw [ih, List.length_append, List.length_append, ← Nat.add_assoc, ← Nat.add_assoc]

namespace Cursor

theorem scanMany_succ (n : Nat) (cursor : Cursor) :
    cursor.scanMany (n + 1) =
      (cursor.scan.1 :: (cursor.scan.2.scanMany n).1, (cursor.scan.2.scanMany n).2) := rfl

/-- The next scans, and then more. -/
theorem scanMany_add (first more : Nat) (cursor : Cursor) :
    cursor.scanMany (first + more) =
      ((cursor.scanMany first).1 ++ ((cursor.scanMany first).2.scanMany more).1,
        ((cursor.scanMany first).2.scanMany more).2) := by
  induction first generalizing cursor with
  | zero => rw [Nat.zero_add]; rfl
  | succ first ih => rw [Nat.succ_add, scanMany_succ, scanMany_succ, ih]; rfl

/-- One scan for each lexeme. -/
theorem scanMany_scanAll (cursor : Cursor) :
    cursor.scanMany (cursor.scanAll.lexemes.length + 1) =
      (cursor.scanAll.all, cursor.scanAll.stop) := by
  fun_induction scanAll cursor with
  | case1 cursor found isEnd => rfl
  | case2 cursor found more later ih =>
    change cursor.scanMany (later.lexemes.length + 1 + 1) = (found.1 :: later.all, later.stop)
    rw [scanMany_succ, ih]

end Cursor

namespace Scanned

/-- What a scan finds when it is repeated at the end of the source. -/
def again (scanned : Scanned) : Lexeme := ⟨scanned.ending.token, []⟩

/-- The scans of a source, any number of them behind its end. -/
theorem scans_ofSource (name source : String) (more : Nat) :
    let scanned := Scanned.ofSource name source
    (Cursor.atStart name source).scanMany (scanned.lexemes.length + 1 + more) =
      (scanned.all ++ List.replicate more scanned.again, scanned.stop) := by
  intro scanned
  have whole : Text.IsEncoded ([] ++ (Cursor.atStart name source).rest) :=
    Text.isEncoded_bytes source
  obtain ⟨ended, offset, tiles⟩ := (Cursor.atStart name source).scanAll_tiles [] whole
  have behind := Cursor.scanMany_ended ended more
  rw [offset, ← tiles.ending_token] at behind
  have all := (Cursor.atStart name source).scanMany_scanAll
  change (Cursor.atStart name source).scanMany (scanned.lexemes.length + 1) = _ at all
  rw [Cursor.scanMany_add, all, behind]
  rfl

end Scanned

end MiniC
