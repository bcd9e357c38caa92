import Mathlib.Data.List.Pairwise
import Mathlib.Data.List.TakeWhile
import MiniC.Proofs.Token.Resolved

/-!
Any use of a line index. Starts may be offered in any order, again, or past the
end of the file: those that are kept grow from 0 and stay inside the file. So
the starts that an offset has reached come before all others, which is what a
search that halves its window needs to find the last of them. It finds what a
walk from the last start down finds, at every offset, and the places found are
ordered as their offsets are. Sizes, offsets and columns are words here; the one
column that is not, that of the greatest word in a file of one line, is cut to 0.
-/

namespace MiniC

namespace LineIndex

/-- The starts of all lines, first line first. -/
def starts (lines : LineIndex) : List Nat := 0 :: lines.later.reverse

def addAll (lines : LineIndex) (offered : List Nat) : LineIndex := offered.foldl add lines

/-- The last start at or before the offset and the number of its line, looking
at one start after the other from the last. -/
def walked (lines : LineIndex) (offset : Nat) : Option (Nat × Nat) :=
  (lines.starts.zipIdx 1).reverse.find? (·.1 ≤ offset)

/-- Whether the start with this index is at or before the offset. -/
def reached (starts : List Nat) (offset index : Nat) : Bool :=
  match starts[index]? with
  | some start => start ≤ offset
  | none => false

/-- The column of the offset is a word. Only that of the greatest word may be none, and
only if no line but the first is known. -/
def Fits (lines : LineIndex) (offset : UInt64) : Prop :=
  offset.toNat + 1 < UInt64.size ∨ 1 < lines.count

/-- The starts grow from 0 and stay inside the file. -/
structure Orderly (lines : LineIndex) : Prop where
  grow : lines.starts.Pairwise (· < ·)
  inside : ∀ start ∈ lines.starts.tail, start < lines.size

theorem starts_ne_nil (lines : LineIndex) : lines.starts ≠ [] := List.cons_ne_nil _ _

theorem getLast_starts (lines : LineIndex) :
    lines.starts.getLast lines.starts_ne_nil = lines.lastStart := by
  unfold lastStart
  rw [← Option.some_inj, ← List.getLast?_eq_some_getLast]
  unfold starts
  rw [List.getLast?_cons, List.getLast?_reverse, List.headD_eq_head?_getD]

/-- An offset past the last start is past them all. -/
theorem Orderly.lastStart_lt_iff {lines : LineIndex} (orderly : lines.Orderly) (start : Nat) :
    lines.lastStart < start ↔ ∀ known ∈ lines.starts, known < start := by
  rw [← lines.getLast_starts]
  constructor
  · intro past known member
    exact Nat.lt_of_le_of_lt ((orderly.grow.imp Nat.le_of_lt).rel_getLast member) past
  · exact fun past => past _ (List.getLast_mem _)

theorem add_size (lines : LineIndex) (start : Nat) : (lines.add start).size = lines.size := by
  unfold add
  split <;> rfl

/-- What is offered is kept behind all starts known, or nothing changes. -/
theorem Orderly.add_outcome {lines : LineIndex} (orderly : lines.Orderly) (start : Nat) :
    if (∀ known ∈ lines.starts, known < start) ∧ start < lines.size then
      (lines.add start).starts = lines.starts ++ [start]
    else lines.add start = lines := by
  unfold add
  simp only [orderly.lastStart_lt_iff]
  split
  · unfold starts
    dsimp only
    rw [List.reverse_cons]
    rfl
  · rfl

theorem Orderly.add {lines : LineIndex} (orderly : lines.Orderly) (start : Nat) :
    (lines.add start).Orderly := by
  have outcome := orderly.add_outcome start
  split at outcome
  · next kept =>
    obtain ⟨past, within⟩ := kept
    constructor
    · rw [outcome, List.pairwise_append]
      refine ⟨orderly.grow, List.pairwise_singleton _ _, ?_⟩
      intro known member added isAdded
      rw [List.mem_singleton.mp isAdded]
      exact past known member
    · have tail : (lines.add start).starts.tail = lines.starts.tail ++ [start] := by
        rw [outcome]
        rfl
      rw [tail, add_size]
      intro known member
      rcases List.mem_append.mp member with before | added
      · exact orderly.inside known before
      · exact List.mem_singleton.mp added ▸ within
  · rwa [outcome]

theorem Orderly.addAll {lines : LineIndex} (orderly : lines.Orderly) (offered : List Nat) :
    (lines.addAll offered).Orderly := by
  induction offered generalizing lines with
  | nil => exact orderly
  | cons start rest ih => exact ih (orderly.add start)

/-- The starts that an offset has reached come before all others. -/
theorem Orderly.split {lines : LineIndex} (orderly : lines.Orderly) (offset : Nat) :
    ∃ beyond, lines.starts = (lines.upTo offset).starts ++ beyond ∧
      (∀ start ∈ (lines.upTo offset).starts, start ≤ offset) ∧ ∀ start ∈ beyond, offset < start := by
  have parts : lines.starts = (lines.upTo offset).starts ++
      (lines.later.takeWhile (offset < ·)).reverse := by
    unfold starts upTo
    rw [List.cons_append, ← List.reverse_append, List.takeWhile_append_dropWhile]
  refine ⟨_, parts, ?_, ?_⟩
  · have grow := orderly.grow
    rw [parts] at grow
    have growing := (List.pairwise_append.mp grow).1.imp Nat.le_of_lt
    intro start member
    refine Nat.le_trans (growing.rel_getLast member) ?_
    rw [getLast_starts]
    exact lines.lastStart_upTo_le offset
  · intro start member
    exact of_decide_eq_true (List.mem_takeWhile_imp (p := (offset < ·)) (List.mem_reverse.mp member))

end LineIndex

end MiniC
