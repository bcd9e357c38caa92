import MiniC.Proofs.Diagnostic.Latest
import MiniC.Proofs.Source.Lines
import MiniC.Proofs.Token.Tiling

/-!
The places that scans give. When a place is resolved, the lines known are those
whose newlines have been read; that is all a place needs that has been read, so
it is where the newlines before it put it, and what is read later does not
change it. In one source, places differ just as their offsets do.
-/

namespace MiniC

open Text (newline newlinesBefore lineStart onLineOf)

/-- Further on in the source is further on by line and column, and the other way
round. -/
theorem LineIndex.compareSpot_position (lines : LineIndex) (left right : Nat) :
    (lines.position left).compareSpot (lines.position right) = compare left right := by
  rcases Nat.lt_trichotomy left right with before | rfl | behind
  · rw [lines.position_lt before, Nat.compare_eq_lt.mpr before]
  · rw [Nat.compare_eq_eq.mpr rfl, Position.compareSpot_eq_eq]
  · rw [Nat.compare_eq_gt.mpr behind]
    exact Position.compareSpot_gt_of_lt (lines.position_lt behind)

namespace Cursor

/-- A cursor in a source, whose lines are those of the bytes it has passed. -/
structure Follows (file : String) (bytes : List UInt8) (cursor : Cursor) : Prop where
  rest : cursor.rest = bytes.drop cursor.offset
  bound : cursor.offset ≤ bytes.length
  named : cursor.lines.file = file
  sized : cursor.lines.size = bytes.length
  behind : ∀ start ∈ cursor.lines.later, start ≤ cursor.offset
  count : cursor.lines.later.length = newlinesBefore bytes (onLineOf bytes cursor.offset)
  start : cursor.lines.lastStart = lineStart bytes (onLineOf bytes cursor.offset)

namespace Follows

variable {file : String} {bytes : List UInt8} {cursor : Cursor}

theorem atStart (file source : String) :
    (Cursor.atStart file source).Follows file (Text.bytes source) := by
  have first : onLineOf (Text.bytes source) 0 = 0 := by
    unfold onLineOf
    split <;> rfl
  constructor
  · rfl
  · exact Nat.zero_le _
  · rfl
  · rfl
  · exact nofun
  · change 0 = newlinesBefore _ (onLineOf _ 0)
    rw [first]
    rfl
  · change 0 = lineStart _ (onLineOf _ 0)
    rw [first]
    rfl

theorem found (follows : cursor.Follows file bytes) {b : UInt8} {after : List UInt8}
    (rest : cursor.rest = b :: after) :
    bytes[cursor.offset]? = some b ∧ bytes.drop (cursor.offset + 1) = after := by
  have dropped := follows.rest.symm.trans rest
  constructor
  · rw [← List.head?_drop, dropped]
    rfl
  · rw [← List.tail_drop, dropped]
    rfl

theorem lastStart_le (follows : cursor.Follows file bytes) :
    cursor.lines.lastStart ≤ cursor.offset := by
  have behind := follows.behind
  unfold LineIndex.lastStart
  cases known : cursor.lines.later with
  | nil => exact Nat.zero_le _
  | cons start rest =>
    rw [known] at behind
    exact behind start List.mem_cons_self

theorem step (follows : cursor.Follows file bytes) : cursor.step.Follows file bytes := by
  cases rest : cursor.rest with
  | nil =>
    have stays : cursor.step = cursor := by
      unfold Cursor.step
      rw [rest]
    rwa [stays]
  | cons b after =>
    obtain ⟨here, dropped⟩ := follows.found rest
    have inside : cursor.offset < bytes.length := (List.getElem?_eq_some_iff.mp here).1
    have own := Text.onLineOf_inside inside
    have count := follows.count
    have start := follows.start
    rw [own] at count start
    have moved : cursor.step = ⟨after, cursor.offset + 1,
        if b = newline then cursor.lines.add (cursor.offset + 1) else cursor.lines⟩ := by
      unfold Cursor.step
      rw [rest]
    rw [moved]
    by_cases opens : b = newline ∧ cursor.offset + 1 < bytes.length
    · obtain ⟨rfl, more⟩ := opens
      obtain ⟨counted, started⟩ := Text.line_opens here more
      -- the newline opens a line at the offset behind it
      have added : cursor.lines.add (cursor.offset + 1) =
          { cursor.lines with later := (cursor.offset + 1) :: cursor.lines.later } := by
        unfold LineIndex.add
        rw [if_pos ⟨Nat.lt_succ_of_le follows.lastStart_le, follows.sized ▸ more⟩]
      rw [if_pos rfl, added]
      constructor
      · exact dropped.symm
      · exact inside
      · exact follows.named
      · exact follows.sized
      · rw [List.forall_mem_cons]
        exact ⟨Nat.le_refl _, fun start member => Nat.le_succ_of_le (follows.behind start member)⟩
      · exact (congrArg (· + 1) count).trans counted.symm
      · exact started.symm
    · -- no line is opened, and none is told by the newlines
      have same : (if b = newline then cursor.lines.add (cursor.offset + 1) else cursor.lines) =
          cursor.lines := by
        split
        · next isNewline =>
          unfold LineIndex.add
          rw [if_neg]
          rintro ⟨_, more⟩
          exact opens ⟨isNewline, follows.sized ▸ more⟩
        · rfl
      obtain ⟨counted, started⟩ := Text.line_stays here opens
      rw [same]
      constructor
      · exact dropped.symm
      · exact inside
      · exact follows.named
      · exact follows.sized
      · exact fun start member => Nat.le_succ_of_le (follows.behind start member)
      · exact count.trans counted.symm
      · exact start.trans started.symm

theorem advance (follows : cursor.Follows file bytes) (n : Nat) :
    (cursor.advance n).Follows file bytes := by
  induction n generalizing cursor with
  | zero => exact follows
  | succ n ih => exact ih follows.step

theorem position_offset (follows : cursor.Follows file bytes) :
    cursor.lines.position cursor.offset = Text.place file bytes cursor.offset := by
  have seen : cursor.lines.upTo cursor.offset = cursor.lines := by
    have none : cursor.lines.later.dropWhile (cursor.offset < ·) = cursor.lines.later := by
      have behind := follows.behind
      cases known : cursor.lines.later with
      | nil => rfl
      | cons start rest =>
        rw [known] at behind
        have stays : ¬ cursor.offset < start := Nat.not_lt.mpr (behind start List.mem_cons_self)
        exact List.dropWhile_cons_of_neg (by simpa using stays)
    unfold LineIndex.upTo
    rw [none]
  have line : cursor.lines.count = 1 + newlinesBefore bytes (onLineOf bytes cursor.offset) := by
    rw [← follows.count, Nat.add_comm]
    rfl
  unfold LineIndex.position Text.place
  rw [seen]
  dsimp only
  rw [line, follows.named, follows.start, Nat.add_comm 1 (_ - _)]

end Follows

theorem advance_add (first more : Nat) (cursor : Cursor) :
    cursor.advance (first + more) = (cursor.advance first).advance more := by
  induction first generalizing cursor with
  | zero => rw [Nat.zero_add]; rfl
  | succ first ih => rw [Nat.succ_add]; exact ih cursor.step

/-- What has been read stands where its newlines put it. -/
theorem position_advance (file source : String) (n offset : Nat)
    (read : offset ≤ ((atStart file source).advance n).offset) :
    ((atStart file source).advance n).lines.position offset =
      Text.place file (Text.bytes source) offset := by
  have whole : ((atStart file source).advance n).offset = min n (Text.bytes source).length := by
    rw [advance_offset]
    exact Nat.zero_add _
  have here : ((atStart file source).advance offset).offset = offset := by
    rw [advance_offset]
    change 0 + min offset (Text.bytes source).length = offset
    omega
  have grown := advance_extends (n - offset) ((atStart file source).advance offset)
  rw [← advance_add, here, Nat.add_sub_cancel' (by omega)] at grown
  rw [grown.position_eq (Nat.le_refl offset)]
  have placed := ((Follows.atStart file source).advance offset).position_offset
  rwa [here] at placed


theorem scan_stop (cursor : Cursor) : ∃ n, cursor.scan.2 = cursor.advance n :=
  ⟨_, (advance_add _ _ cursor).symm⟩

/-- A scan resolves what it has read, against the lines it has read. -/
theorem scan_places {file source : String} {cursor : Cursor}
    (follows : cursor.Follows file (Text.bytes source)) :
    ∀ p ∈ cursor.scan.1.places, ∃ offset ≤ cursor.scan.2.offset,
      p = cursor.scan.2.lines.position offset := by
  have whole : Text.IsEncoded ((Text.bytes source).take cursor.offset ++ cursor.rest) := by
    rw [follows.rest, List.take_append_drop]
    exact Text.isEncoded_bytes source
  rcases exists_tile cursor.rest with ⟨unclosed, fills⟩ | ⟨gap, bytes, after, rest, tile⟩
  · obtain ⟨_, stopOffset, tiles⟩ := scan_ending fills
    generalize all : cursor.rest = gap at stopOffset tiles
    cases tiles with
    | @ending _ _ unclosed _ fills token faults =>
      unfold Lexeme.places
      rw [List.forall_mem_cons]
      constructor
      · exact ⟨_, Nat.le_of_eq stopOffset.symm, congrArg Token.pos token⟩
      · intro p member
        rw [faults] at member
        cases fills with
        | whole _ => cases member
        | line _ _ => cases member
        | @block filled body _ _ =>
          rw [List.mem_singleton.mp member]
          use cursor.offset + filled.length
          constructor
          · rw [stopOffset, List.length_append]
            omega
          · rfl
  · rw [rest, ← List.append_assoc] at whole
    obtain ⟨_, stopOffset, covers⟩ := scan_token rest tile whole
    unfold Lexeme.places
    rw [List.forall_mem_cons]
    constructor
    · exact ⟨_, stopOffset ▸ Nat.le_add_right _ _, covers.pos⟩
    · intro p member
      obtain ⟨d, isFault, rfl⟩ := List.mem_map.mp member
      obtain ⟨offset, bound, place, _⟩ := covers.faults d isFault
      exact ⟨_, stopOffset ▸ Nat.add_le_add_left bound _, place⟩

theorem scanMany_stop (scans : Nat) (cursor : Cursor) :
    ∃ n, (cursor.scanMany scans).2 = cursor.advance n := by
  induction scans generalizing cursor with
  | zero => exact ⟨0, rfl⟩
  | succ scans ih =>
    obtain ⟨first, here⟩ := cursor.scan_stop
    obtain ⟨more, there⟩ := ih cursor.scan.2
    use first + more
    rw [advance_add, ← here, ← there]
    rfl

/-- All that was resolved in some scans is still resolved like that behind them. -/
theorem scanMany_places {file source : String} (scans : Nat) {cursor : Cursor}
    (follows : cursor.Follows file (Text.bytes source)) :
    ∀ p ∈ (cursor.scanMany scans).1.flatMap Lexeme.places,
      ∃ offset ≤ (cursor.scanMany scans).2.offset,
        p = (cursor.scanMany scans).2.lines.position offset := by
  induction scans generalizing cursor with
  | zero => exact nofun
  | succ scans ih =>
    have further : cursor.scan.2.Follows file (Text.bytes source) := by
      obtain ⟨n, stop⟩ := cursor.scan_stop
      rw [stop]
      exact follows.advance n
    obtain ⟨n, stop⟩ := scanMany_stop scans cursor.scan.2
    rw [scanMany_succ]
    dsimp only
    rw [List.flatMap_cons]
    intro p member
    rcases List.mem_append.mp member with isFirst | isLater
    · obtain ⟨offset, bound, place⟩ := scan_places follows p isFirst
      -- the later scans learn lines behind this place only
      have grown := advance_extends n cursor.scan.2
      use offset
      rw [stop]
      constructor
      · rw [advance_offset]
        exact Nat.le_add_right_of_le bound
      · rw [place, grown.position_eq bound]
    · exact ih further p isLater

end Cursor

end MiniC
