import MiniC.Source
import Mathlib.Data.List.Basic

/-!
Lines and columns by the newlines of a source. This tells where an offset is
from the bytes before it alone, without an index that is filled while scanning.
-/

namespace MiniC.Text

def newlinesBefore (bytes : List UInt8) (offset : Nat) : Nat := (bytes.take offset).count newline

/-- The offset just behind the last newline before an offset. -/
def lineStart (bytes : List UInt8) : Nat → Nat
  | 0 => 0
  | offset + 1 => if bytes[offset]? = some newline then offset + 1 else lineStart bytes offset

/-- The offset whose line an offset is on, which is its own. Only the end of a
source that ends in a newline is on the line of that newline. -/
def onLineOf (bytes : List UInt8) (offset : Nat) : Nat :=
  if offset = bytes.length ∧ bytes.getLast? = some newline then offset - 1 else offset

def place (file : String) (bytes : List UInt8) (offset : Nat) : Position :=
  { file
    offset
    line := 1 + newlinesBefore bytes (onLineOf bytes offset)
    column := 1 + (offset - lineStart bytes (onLineOf bytes offset)) }

variable {bytes : List UInt8} {offset : Nat} {b : UInt8}

theorem newlinesBefore_succ (found : bytes[offset]? = some b) :
    newlinesBefore bytes (offset + 1) =
      newlinesBefore bytes offset + if b = newline then 1 else 0 := by
  obtain ⟨bound, rfl⟩ := List.getElem?_eq_some_iff.mp found
  unfold newlinesBefore
  rw [List.take_succ_eq_append_getElem bound, List.count_append, List.count_singleton]
  simp only [beq_iff_eq]

theorem lineStart_succ (found : bytes[offset]? = some b) :
    lineStart bytes (offset + 1) =
      if b = newline then offset + 1 else lineStart bytes offset := by
  rw [lineStart, found]
  simp only [Option.some.injEq]

theorem onLineOf_inside (inside : offset < bytes.length) : onLineOf bytes offset = offset := by
  unfold onLineOf
  rw [if_neg fun ended => Nat.ne_of_lt inside ended.1]

/-- The offset behind a byte is on a line of its own, unless that byte is a
newline and the last byte. -/
theorem onLineOf_succ (found : bytes[offset]? = some b) :
    onLineOf bytes (offset + 1) =
      if b = newline ∧ offset + 1 = bytes.length then offset else offset + 1 := by
  have last (ended : offset + 1 = bytes.length) : bytes.getLast? = some b := by
    rw [List.getLast?_eq_getElem?, ← ended]
    exact found
  unfold onLineOf
  by_cases ended : offset + 1 = bytes.length
  · rw [last ended]
    simp only [ended, true_and, and_true, Option.some.injEq]
    rw [← ended, Nat.add_sub_cancel]
  · rw [if_neg fun both => ended both.1, if_neg fun both => ended both.2]

/-- A newline inside a source opens a line behind it. -/
theorem line_opens (found : bytes[offset]? = some newline) (more : offset + 1 < bytes.length) :
    newlinesBefore bytes (onLineOf bytes (offset + 1)) = newlinesBefore bytes offset + 1 ∧
      lineStart bytes (onLineOf bytes (offset + 1)) = offset + 1 := by
  rw [onLineOf_inside more, newlinesBefore_succ found, lineStart_succ found, if_pos rfl, if_pos rfl]
  exact ⟨rfl, rfl⟩

/-- Behind any other byte, and behind a newline that is the last byte, the line
goes on. -/
theorem line_stays (found : bytes[offset]? = some b)
    (other : ¬ (b = newline ∧ offset + 1 < bytes.length)) :
    newlinesBefore bytes (onLineOf bytes (offset + 1)) = newlinesBefore bytes offset ∧
      lineStart bytes (onLineOf bytes (offset + 1)) = lineStart bytes offset := by
  have inside : offset < bytes.length := (List.getElem?_eq_some_iff.mp found).1
  rw [onLineOf_succ found]
  split
  · exact ⟨rfl, rfl⟩
  · next notLast =>
    have noNewline : b ≠ newline := by
      intro isNewline
      have ended : offset + 1 ≠ bytes.length := fun ended => notLast ⟨isNewline, ended⟩
      exact other ⟨isNewline, by omega⟩
    rw [newlinesBefore_succ found, lineStart_succ found, if_neg noNewline, if_neg noNewline]
    exact ⟨rfl, rfl⟩

end MiniC.Text
