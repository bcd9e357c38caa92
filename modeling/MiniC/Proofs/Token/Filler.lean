import MiniC.Token.Piece
import Mathlib.Data.List.Infix

/-!
What the gaps between tokens are made of, told without the reader: blanks, line
comments with the newline that ends them, and block comments with the first star
and slash behind their opening. Only the last gap may hold a line comment
without newline or a block comment that is never closed.
-/

namespace MiniC

namespace Gap

open Text (ascii newline)

def lineOpening : List UInt8 := [ascii '/', ascii '/']

def blockOpening : List UInt8 := [ascii '/', ascii '*']

def blockClosing : List UInt8 := [ascii '*', ascii '/']

/-- A blank, or a comment with all that closes it. -/
inductive IsFiller : List UInt8 → Prop where
  | blank {b : UInt8} (isBlank : isBlank b = true) : IsFiller [b]
  | line {body : List UInt8} (onLine : newline ∉ body) :
    IsFiller (lineOpening ++ (body ++ [newline]))
  | block {body : List UInt8} (inside : ¬ blockClosing <:+: body) :
    IsFiller (blockOpening ++ (body ++ blockClosing))

theorem IsFiller.length_pos {bytes : List UInt8} (filler : IsFiller bytes) : 0 < bytes.length := by
  cases filler <;> exact Nat.succ_pos _

/-- Bytes that stand between two tokens. -/
inductive Fills : List UInt8 → Prop where
  | nil : Fills []
  | cons {first rest : List UInt8} (filler : IsFiller first) (later : Fills rest) :
    Fills (first ++ rest)

/-- Bytes behind the last token, and where a block comment that is never closed
starts among them. -/
inductive FillsLast : List UInt8 → Option Nat → Prop where
  | whole {gap : List UInt8} (fills : Fills gap) : FillsLast gap none
  | line {gap body : List UInt8} (fills : Fills gap) (onLine : newline ∉ body) :
    FillsLast (gap ++ (lineOpening ++ body)) none
  | block {gap body : List UInt8} (fills : Fills gap) (inside : ¬ blockClosing <:+: body) :
    FillsLast (gap ++ (blockOpening ++ body)) (some gap.length)

/-- The bytes begin with a blank or a comment. -/
def Begins (bytes : List UInt8) : Prop :=
  (∃ b, bytes.head? = some b ∧ isBlank b = true) ∨ lineOpening <+: bytes ∨ blockOpening <+: bytes

section Measure

variable (read : Nat)

/-!
One step of the reader in each of its states: equations that hold by unfolding,
stated so that no proof below has to open the reader again.
-/

theorem measure_line_cons (b : UInt8) (rest : List UInt8) :
    measure read .lineComment (b :: rest) =
      if b = newline then measure (read + 1) .between rest
      else measure (read + 1) .lineComment rest :=
  rfl

theorem measure_block_single (start : Nat) (b : UInt8) :
    measure read (.blockComment start) [b] =
      if b = ascii '*' then ⟨read + 1, some start⟩
      else measure (read + 1) (.blockComment start) [] :=
  rfl

theorem measure_block_pair (start : Nat) (b c : UInt8) (tail : List UInt8) :
    measure read (.blockComment start) (b :: c :: tail) =
      if b = ascii '*' then
        if c = ascii '/' then measure (read + 2) .between tail
        else measure (read + 1) (.blockComment start) (c :: tail)
      else measure (read + 1) (.blockComment start) (c :: tail) :=
  rfl

theorem measure_between_single (b : UInt8) :
    measure read .between [b] =
      if isBlank b then measure (read + 1) .between []
      else if b = ascii '/' then ⟨read, none⟩
      else ⟨read, none⟩ :=
  rfl

theorem measure_between_pair (b c : UInt8) (tail : List UInt8) :
    measure read .between (b :: c :: tail) =
      if isBlank b then measure (read + 1) .between (c :: tail)
      else if b = ascii '/' then
        if c = ascii '/' then measure (read + 2) .lineComment tail
        else if c = ascii '*' then measure (read + 2) (.blockComment read) tail
        else ⟨read, none⟩
      else ⟨read, none⟩ :=
  rfl

theorem measure_line {body : List UInt8} (onLine : newline ∉ body) (rest : List UInt8) :
    measure read .lineComment (body ++ newline :: rest) =
      measure (read + body.length + 1) .between rest := by
  induction body generalizing read with
  | nil => rw [List.nil_append, measure_line_cons, if_pos rfl, List.length_nil, Nat.add_zero]
  | cons b body ih =>
    have first := List.ne_of_not_mem_cons onLine
    have others := List.not_mem_of_not_mem_cons onLine
    rw [List.cons_append, measure_line_cons, if_neg (Ne.symm first)]
    rw [ih (read + 1) others, List.length_cons]
    congr 1
    omega

theorem measure_line_last {body : List UInt8} (onLine : newline ∉ body) :
    measure read .lineComment body = ⟨read + body.length, none⟩ := by
  induction body generalizing read with
  | nil => rfl
  | cons b body ih =>
    have first := List.ne_of_not_mem_cons onLine
    have others := List.not_mem_of_not_mem_cons onLine
    rw [measure_line_cons, if_neg (Ne.symm first), ih (read + 1) others, List.length_cons]
    congr 1
    omega

/-- A byte inside a block comment that does not begin its closing. -/
theorem measure_block_cons {start : Nat} {b : UInt8} {rest : List UInt8}
    (inside : ¬ blockClosing <+: b :: rest) :
    measure read (.blockComment start) (b :: rest) =
      measure (read + 1) (.blockComment start) rest := by
  cases rest with
  | nil =>
    rw [measure_block_single]
    split <;> rfl
  | cons c tail =>
    rw [measure_block_pair]
    by_cases star : b = ascii '*'
    · have noSlash : c ≠ ascii '/' := by
        rintro rfl
        exact inside ⟨tail, by rw [star]; rfl⟩
      rw [if_pos star, if_neg noSlash]
    · rw [if_neg star]

theorem measure_block_closed {start : Nat} (rest : List UInt8) :
    measure read (.blockComment start) (blockClosing ++ rest) =
      measure (read + 2) .between rest := by
  rw [blockClosing, List.cons_append, List.singleton_append, measure_block_pair]
  rw [if_pos rfl, if_pos rfl]

theorem measure_block {start : Nat} {body : List UInt8} (inside : ¬ blockClosing <:+: body)
    (rest : List UInt8) :
    measure read (.blockComment start) (body ++ (blockClosing ++ rest)) =
      measure (read + body.length + 2) .between rest := by
  induction body generalizing read with
  | nil => exact measure_block_closed read rest
  | cons b body ih =>
    have later : ¬ blockClosing <:+: body := fun found => inside (List.infix_cons found)
    -- a closing here would lie in the body, or overlap the one behind it
    have here : ¬ blockClosing <+: b :: (body ++ (blockClosing ++ rest)) := by
      cases body with
      | nil =>
        rintro ⟨tail, same⟩
        cases (List.cons_eq_cons.mp (List.cons_eq_cons.mp same).2).1
      | cons c body =>
        rintro ⟨tail, same⟩
        obtain ⟨rfl, second⟩ := List.cons_eq_cons.mp same
        obtain ⟨rfl, _⟩ := List.cons_eq_cons.mp second
        exact inside (List.prefix_append blockClosing body).isInfix
    rw [List.cons_append, measure_block_cons read here, ih (read + 1) later, List.length_cons]
    congr 1
    omega

theorem measure_block_last {start : Nat} {body : List UInt8} (inside : ¬ blockClosing <:+: body) :
    measure read (.blockComment start) body = ⟨read + body.length, some start⟩ := by
  induction body generalizing read with
  | nil => rfl
  | cons b body ih =>
    have later : ¬ blockClosing <:+: body := fun found => inside (List.infix_cons found)
    have here : ¬ blockClosing <+: b :: body := fun found => inside found.isInfix
    rw [measure_block_cons read here, ih (read + 1) later, List.length_cons]
    congr 1
    omega

theorem measure_blank {b : UInt8} (blank : isBlank b = true) (rest : List UInt8) :
    measure read .between (b :: rest) = measure (read + 1) .between rest := by
  cases rest with
  | nil => rw [measure_between_single, if_pos blank]
  | cons c tail => rw [measure_between_pair, if_pos blank]

theorem measure_lineOpening (rest : List UInt8) :
    measure read .between (lineOpening ++ rest) = measure (read + 2) .lineComment rest := by
  have noBlank : ¬ isBlank (ascii '/') = true := by decide
  rw [lineOpening, List.cons_append, List.singleton_append, measure_between_pair]
  rw [if_neg noBlank, if_pos rfl, if_pos rfl]

theorem measure_blockOpening (rest : List UInt8) :
    measure read .between (blockOpening ++ rest) =
      measure (read + 2) (.blockComment read) rest := by
  have noBlank : ¬ isBlank (ascii '/') = true := by decide
  have noLine : ascii '*' ≠ ascii '/' := by decide
  rw [blockOpening, List.cons_append, List.singleton_append, measure_between_pair]
  rw [if_neg noBlank, if_pos rfl, if_neg noLine, if_pos rfl]

theorem IsFiller.measure {first : List UInt8} (filler : IsFiller first) (rest : List UInt8) :
    Gap.measure read .between (first ++ rest) =
      Gap.measure (read + first.length) .between rest := by
  cases filler with
  | blank isBlank => exact measure_blank read isBlank rest
  | line onLine =>
    rw [List.append_assoc, List.append_assoc, measure_lineOpening]
    rw [List.singleton_append, measure_line _ onLine]
    congr 1
    simp only [lineOpening, List.length_append, List.length_cons, List.length_nil]
    omega
  | block inside =>
    rw [List.append_assoc, List.append_assoc, measure_blockOpening, measure_block _ inside]
    congr 1
    simp only [blockOpening, blockClosing, List.length_append, List.length_cons, List.length_nil]
    omega

/-- The reader passes everything that may stand between two tokens. -/
theorem Fills.measure {gap : List UInt8} (fills : Fills gap) (rest : List UInt8) :
    Gap.measure read .between (gap ++ rest) =
      Gap.measure (read + gap.length) .between rest := by
  induction fills generalizing read with
  | nil => rfl
  | cons filler _ ih =>
    rw [List.append_assoc, filler.measure, ih, List.length_append, Nat.add_assoc]

/-- The reader stops where no blank and no comment begins. -/
theorem measure_stop {bytes : List UInt8} (stops : ¬ Begins bytes) :
    measure read .between bytes = ⟨read, none⟩ := by
  cases bytes with
  | nil => rfl
  | cons b rest =>
    have noBlank : ¬ isBlank b = true := fun blank => stops (.inl ⟨b, rfl, blank⟩)
    cases rest with
    | nil =>
      rw [measure_between_single, if_neg noBlank]
      split <;> rfl
    | cons c tail =>
      rw [measure_between_pair, if_neg noBlank]
      by_cases slash : b = ascii '/'
      · subst slash
        have noLine : c ≠ ascii '/' := fun same => stops (.inr (.inl ⟨tail, by rw [same]; rfl⟩))
        have noBlock : c ≠ ascii '*' := fun same => stops (.inr (.inr ⟨tail, by rw [same]; rfl⟩))
        rw [if_pos rfl, if_neg noLine, if_neg noBlock]
      · rw [if_neg slash]

end Measure

theorem ofBytes_between {gap after : List UInt8} (fills : Fills gap) (stops : ¬ Begins after) :
    ofBytes (gap ++ after) = ⟨gap.length, none⟩ := by
  unfold ofBytes
  rw [fills.measure, measure_stop _ stops, Nat.zero_add]

theorem ofBytes_last {gap : List UInt8} {unclosed : Option Nat} (fills : FillsLast gap unclosed) :
    ofBytes gap = ⟨gap.length, unclosed⟩ := by
  unfold ofBytes
  cases fills with
  | whole fills =>
    have passed := fills.measure 0 []
    rw [List.append_nil, Nat.zero_add] at passed
    rw [passed]
    exact measure_stop _ (by simp [Begins, lineOpening, blockOpening])
  | line fills onLine =>
    rw [fills.measure, measure_lineOpening, measure_line_last _ onLine]
    simp [lineOpening]
    omega
  | block fills inside =>
    rw [fills.measure, measure_blockOpening, measure_block_last _ inside]
    simp [blockOpening]
    omega

/-- The bytes are a gap and what stands behind it, or a gap to their end. -/
inductive Splits : List UInt8 → Prop where
  | between {gap after : List UInt8} (fills : Fills gap) (stops : ¬ Begins after) :
    Splits (gap ++ after)
  | last {gap : List UInt8} {unclosed : Option Nat} (fills : FillsLast gap unclosed) : Splits gap

theorem Splits.prepend {first rest : List UInt8} (filler : IsFiller first)
    (splits : Splits rest) : Splits (first ++ rest) := by
  cases splits with
  | between fills stops =>
    rw [← List.append_assoc]
    exact .between (.cons filler fills) stops
  | last fills =>
    cases fills with
    | whole fills => exact .last (.whole (.cons filler fills))
    | line fills onLine =>
      rw [← List.append_assoc]
      exact .last (.line (.cons filler fills) onLine)
    | block fills inside =>
      rw [← List.append_assoc]
      exact .last (.block (.cons filler fills) inside)

/-- A block comment that is closed somewhere is closed by the first closing. -/
theorem exists_first_closing {bytes : List UInt8} (closed : blockClosing <:+: bytes) :
    ∃ body rest, bytes = body ++ (blockClosing ++ rest) ∧ ¬ blockClosing <:+: body := by
  induction bytes with
  | nil => cases List.infix_nil.mp closed
  | cons b bytes ih =>
    -- the closing is here, or the first one in the rest is the first one
    by_cases here : blockClosing <+: b :: bytes
    · obtain ⟨rest, same⟩ := here
      exact ⟨[], rest, same.symm, fun empty => by cases List.infix_nil.mp empty⟩
    · obtain ⟨body, rest, rfl, inside⟩ := ih ((List.infix_cons_iff.mp closed).resolve_left here)
      refine ⟨b :: body, rest, rfl, ?_⟩
      intro found
      rcases List.infix_cons_iff.mp found with first | later
      · exact here (first.trans (List.prefix_append (b :: body) _))
      · exact inside later

/-- Bytes that begin with a blank or a comment begin with a whole one, or are a
comment without end. -/
theorem Begins.cases {bytes : List UInt8} (begins : Begins bytes) :
    (∃ first rest, IsFiller first ∧ bytes = first ++ rest) ∨
      ∃ unclosed, FillsLast bytes unclosed := by
  rcases begins with ⟨b, head, blank⟩ | ⟨tail, rfl⟩ | ⟨tail, rfl⟩
  · obtain ⟨rest, rfl⟩ := List.head?_eq_some_iff.mp head
    exact .inl ⟨[b], rest, .blank blank, rfl⟩
  · by_cases ended : newline ∈ tail
    · obtain ⟨body, rest, rfl, onLine⟩ := List.eq_append_cons_of_mem ended
      exact .inl ⟨_, rest, .line onLine, by simp⟩
    · exact .inr ⟨_, .line .nil ended⟩
  · by_cases closed : blockClosing <:+: tail
    · obtain ⟨body, rest, rfl, inside⟩ := exists_first_closing closed
      exact .inl ⟨_, rest, .block inside, by simp⟩
    · exact .inr ⟨_, .block .nil closed⟩

theorem splits (bytes : List UInt8) : Splits bytes := by
  induction length : bytes.length using Nat.strong_induction_on generalizing bytes with
  | h n ih =>
    by_cases begins : Begins bytes
    · rcases begins.cases with ⟨first, rest, filler, rfl⟩ | ⟨unclosed, fills⟩
      · have shorter : rest.length < n := by
          have taken := filler.length_pos
          rw [List.length_append] at length
          omega
        exact (ih rest.length shorter rest rfl).prepend filler
      · exact .last fills
    · exact .between .nil begins

end Gap

end MiniC
