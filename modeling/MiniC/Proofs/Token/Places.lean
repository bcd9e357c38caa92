import MiniC.Token.Cursor

/-!
The places of tokens. The lines that are learnt while a source is scanned start
behind the tokens found before, so they do not change the places of these; all
tokens stand where the lines of the whole source put them, each behind the one
before it.
-/

namespace MiniC

/-- The places of a lexeme: that of its token, and those of its faults. -/
def Lexeme.places (lexeme : Lexeme) : List Position :=
  lexeme.token.pos :: lexeme.faults.map (·.pos)

namespace LineIndex

/-- `later` knows all lines that `sooner` knows, and others that start behind
`offset`. -/
def Extends (sooner later : LineIndex) (offset : Nat) : Prop :=
  later.file = sooner.file ∧ later.size = sooner.size ∧
    ∃ added, later.later = added ++ sooner.later ∧ ∀ start ∈ added, offset < start

theorem Extends.refl (lines : LineIndex) (offset : Nat) : lines.Extends lines offset :=
  ⟨rfl, rfl, [], rfl, nofun⟩

theorem Extends.trans {first second third : LineIndex} {offset further : Nat}
    (sooner : first.Extends second offset) (later : second.Extends third further)
    (behind : offset ≤ further) : first.Extends third offset := by
  obtain ⟨file, size, added, shape, starts⟩ := sooner
  obtain ⟨sameFile, sameSize, more, moreShape, moreStarts⟩ := later
  refine ⟨sameFile.trans file, sameSize.trans size, more ++ added, ?_, ?_⟩
  · rw [moreShape, shape, List.append_assoc]
  · intro start member
    rcases List.mem_append.mp member with isMore | isAdded
    · exact Nat.lt_of_le_of_lt behind (moreStarts start isMore)
    · exact starts start isAdded

/-- Lines that start further on do not change a place. -/
theorem Extends.position_eq {sooner later : LineIndex} {offset place : Nat}
    (grown : sooner.Extends later offset) (within : place ≤ offset) :
    later.position place = sooner.position place := by
  obtain ⟨file, size, added, shape, starts⟩ := grown
  have seen : later.upTo place = { sooner.upTo place with } := by
    have skipped : (added ++ sooner.later).dropWhile (place < ·) =
        sooner.later.dropWhile (place < ·) := by
      apply List.dropWhile_append_of_pos
      intro start member
      exact decide_eq_true (Nat.lt_of_le_of_lt within (starts start member))
    unfold upTo
    rw [shape, skipped]
    cases later
    cases sooner
    simp_all
  unfold position
  rw [seen, file]

/-- The lines seen at a place are those of a further place, less some of the last. -/
theorem upTo_upTo (lines : LineIndex) {left right : Nat} (before : left < right) :
    (lines.upTo right).upTo left = lines.upTo left := by
  have dropped (starts : List Nat) : (starts.dropWhile (right < ·)).dropWhile (left < ·) =
      starts.dropWhile (left < ·) := by
    induction starts with
    | nil => rfl
    | cons start rest ih =>
      by_cases further : right < start
      · have both : left < start := Nat.lt_trans before further
        rw [List.dropWhile_cons_of_pos (by simpa using further),
          List.dropWhile_cons_of_pos (by simpa using both), ih]
      · rw [List.dropWhile_cons_of_neg (by simpa using further)]
  unfold upTo
  rw [dropped]

theorem lastStart_upTo_le (lines : LineIndex) (offset : Nat) :
    (lines.upTo offset).lastStart ≤ offset := by
  unfold lastStart upTo
  dsimp only
  cases seen : lines.later.dropWhile (offset < ·) with
  | nil => exact Nat.zero_le _
  | cons start rest =>
    have some : lines.later.dropWhile (offset < ·) ≠ [] := by
      rw [seen]
      exact List.cons_ne_nil _ _
    have stays := List.head_dropWhile_not (offset < ·) some
    simpa [seen] using stays

/-- Further on in the source is further on by line and column. -/
theorem position_lt (lines : LineIndex) {left right : Nat} (before : left < right) :
    (lines.position left).compareSpot (lines.position right) = .lt := by
  have suffix : (lines.upTo left).later <:+ (lines.upTo right).later := by
    rw [← lines.upTo_upTo before]
    exact List.dropWhile_suffix _
  change ((compare (lines.upTo left).count (lines.upTo right).count).then
    (compare (left - (lines.upTo left).lastStart + 1)
      (right - (lines.upTo right).lastStart + 1))) = .lt
  by_cases same : (lines.upTo right).later.length ≤ (lines.upTo left).later.length
  · have line : lines.upTo left = lines.upTo right :=
      congrArg (LineIndex.mk lines.file lines.size) (suffix.eq_of_length_le same)
    have start := lines.lastStart_upTo_le left
    rw [← line, Std.compare_self]
    apply Nat.compare_eq_lt.mpr
    omega
  · have fewer : (lines.upTo left).count < (lines.upTo right).count := by
      unfold count
      omega
    rw [Nat.compare_eq_lt.mpr fewer]
    rfl

theorem position_isValid (lines : LineIndex) (offset : Nat) :
    (lines.position offset).isValid = true := by
  simp [position, Position.isValid, count]

end LineIndex

namespace Cursor

theorem step_offset (cursor : Cursor) :
    cursor.step.offset = cursor.offset + min 1 cursor.rest.length := by
  unfold step
  split
  · next none => simp [none]
  · next found => simp [found]

theorem step_extends (cursor : Cursor) : cursor.lines.Extends cursor.step.lines cursor.offset := by
  unfold step
  split
  · exact .refl _ _
  · dsimp only
    split
    · unfold LineIndex.add
      split
      · exact ⟨rfl, rfl, [cursor.offset + 1], rfl, by simp⟩
      · exact .refl _ _
    · exact .refl _ _

theorem advance_offset (n : Nat) (cursor : Cursor) :
    (cursor.advance n).offset = cursor.offset + min n cursor.rest.length := by
  induction n generalizing cursor with
  | zero => simp [advance]
  | succ n ih =>
    rw [advance, ih, step_offset, step_rest, List.length_tail]
    omega

theorem advance_extends (n : Nat) (cursor : Cursor) :
    cursor.lines.Extends (cursor.advance n).lines cursor.offset := by
  induction n generalizing cursor with
  | zero => exact .refl _ _
  | succ n ih =>
    apply (step_extends cursor).trans (ih cursor.step)
    rw [step_offset]
    exact Nat.le_add_right _ _

/-- Where the token of a scan starts. -/
def tokenStart (cursor : Cursor) : Nat :=
  (cursor.advance (Gap.ofBytes cursor.rest).length).offset

theorem offset_le_tokenStart (cursor : Cursor) : cursor.offset ≤ cursor.tokenStart := by
  unfold tokenStart
  rw [advance_offset]
  exact Nat.le_add_right _ _

theorem scan_pos (cursor : Cursor) :
    cursor.scan.1.token.pos = cursor.scan.2.lines.position cursor.tokenStart := rfl

theorem scan_extends (cursor : Cursor) :
    cursor.lines.Extends cursor.scan.2.lines cursor.offset :=
  (advance_extends _ _).trans (advance_extends _ _) (offset_le_tokenStart cursor)

/-- A token that is found takes up room. -/
theorem tokenStart_lt (cursor : Cursor) (found : cursor.scan.1.token.kind ≠ .eof) :
    cursor.tokenStart < cursor.scan.2.offset := by
  rw [scan_kind] at found
  have more : cursor.rest.drop (Gap.ofBytes cursor.rest).length ≠ [] := by
    intro none
    simp [none, Piece.ofBytes] at found
  have taken := Piece.ofBytes_length_pos _ more
  have left := List.length_pos_iff.mpr more
  rw [← advance_rest] at taken left
  change _ < (advance _ (advance _ cursor)).offset
  rw [advance_offset _ (advance _ cursor)]
  exact Nat.lt_add_of_pos_right (Nat.lt_min.mpr ⟨taken, left⟩)

/-- All tokens of a source, the end among them, stand where its lines put them. -/
theorem scanAll_places (cursor : Cursor) :
    cursor.lines.Extends cursor.scanAll.stop.lines cursor.offset ∧
      ∃ starts : List Nat, starts.Pairwise (· < ·) ∧ (∀ start ∈ starts, cursor.offset ≤ start) ∧
        cursor.scanAll.tokens.map (·.pos) = starts.map cursor.scanAll.stop.lines.position := by
  fun_induction scanAll cursor with
  | case1 cursor found isEnd =>
    refine ⟨cursor.scan_extends, [cursor.tokenStart], List.pairwise_singleton _ _, ?_, rfl⟩
    exact List.forall_mem_singleton.mpr cursor.offset_le_tokenStart
  | case2 cursor found more later ih =>
    obtain ⟨grown, starts, increasing, behind, places⟩ := ih
    have here := cursor.tokenStart_lt more
    refine ⟨?_, cursor.tokenStart :: starts, ?_, ?_, ?_⟩
    · exact cursor.scan_extends.trans grown
        (Nat.le_trans cursor.offset_le_tokenStart (Nat.le_of_lt here))
    · rw [List.pairwise_cons]
      exact ⟨fun start member => Nat.lt_of_lt_of_le here (behind start member), increasing⟩
    · rw [List.forall_mem_cons]
      constructor
      · exact cursor.offset_le_tokenStart
      · intro start member
        exact Nat.le_trans cursor.offset_le_tokenStart
          (Nat.le_trans (Nat.le_of_lt here) (behind start member))
    · have place : cursor.scan.1.token.pos = later.stop.lines.position cursor.tokenStart := by
        rw [scan_pos, grown.position_eq (Nat.le_of_lt here)]
      exact List.cons_eq_cons.mpr ⟨place, places⟩

end Cursor

/-- The tokens of a source stand one behind the other, by line and column, and
at known places. -/
theorem Scanned.tokens_ordered (name source : String) :
    ((Scanned.ofSource name source).tokens.map (·.pos)).Pairwise
        (fun left right => left.compareSpot right = .lt) ∧
      ∀ token ∈ (Scanned.ofSource name source).tokens, token.pos.isValid = true := by
  obtain ⟨_, starts, increasing, _, places⟩ := (Cursor.atStart name source).scanAll_places
  unfold Scanned.ofSource
  constructor
  · rw [places]
    exact increasing.map _ fun _ _ before => LineIndex.position_lt _ before
  · intro token member
    have place : token.pos ∈ _ := List.mem_map_of_mem member
    rw [places] at place
    obtain ⟨start, _, same⟩ := List.mem_map.mp place
    rw [← same]
    exact LineIndex.position_isValid _ start

end MiniC
