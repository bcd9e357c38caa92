import MiniC.Check.Basic
import MiniC.Proofs.Token.Enclosed
import MiniC.Proofs.Token.Spelling
import Mathlib.Algebra.GroupWithZero.Nat

/-!
The grammar of quoted literals. Between its quotes a literal holds units, bytes
that stand for themselves and escapes, any number of them in a string and at most
one in a character literal. What does not keep to the grammar is read as units all
the same: every backslash takes the byte behind it, whatever that is, and only the
end of the line cuts a literal short.
-/

namespace MiniC

open Text (ascii newline)

namespace QuotedUnit

def bytes : QuotedUnit → List UInt8
  | .plain b => [b]
  | .escape b => [ascii '\\', b]
  | .cutEscape => [ascii '\\']

/-- A unit of the grammar, between two of these quotes. -/
def IsProper (quote : UInt8) : QuotedUnit → Prop
  | .plain b => b ≠ newline ∧ b ≠ ascii '\\' ∧ b ≠ quote
  | .escape b => b ∈ escapable
  | .cutEscape => False

instance (quote : UInt8) : (unit : QuotedUnit) → Decidable (unit.IsProper quote)
  | .plain b => inferInstanceAs (Decidable (b ≠ newline ∧ b ≠ ascii '\\' ∧ b ≠ quote))
  | .escape b => inferInstanceAs (Decidable (b ∈ escapable))
  | .cutEscape => inferInstanceAs (Decidable False)

/-- A backslash that does not begin an escape of the grammar. -/
def IsStray : QuotedUnit → Bool
  | .plain _ => false
  | .escape b => b ∉ escapable
  | .cutEscape => true

theorem length_bytes (unit : QuotedUnit) : unit.bytes.length = unit.length := by
  cases unit <;> rfl

theorem newline_not_escapable : newline ∉ escapable := by decide

end QuotedUnit

namespace Quoted

/-- The bytes behind the opening quote. -/
def bytes (quote : UInt8) (quoted : Quoted) : List UInt8 :=
  quoted.units.flatMap QuotedUnit.bytes ++ if quoted.isClosed then [quote] else []

/-- What a literal is read as in front of the bytes that follow it. -/
inductive Reads (quote : UInt8) : Quoted → List UInt8 → Prop where
  | closed (after : List UInt8) : Reads quote ⟨[], true⟩ after
  | cut {after : List UInt8} (ends : EndsLine after) : Reads quote ⟨[], false⟩ after
  | cutEscape {after : List UInt8} (ends : EndsLine after) :
    Reads quote ⟨[.cutEscape], false⟩ after
  | plain {b : UInt8} {units : List QuotedUnit} {isClosed : Bool} {after : List UInt8}
      (proper : (QuotedUnit.plain b).IsProper quote) (later : Reads quote ⟨units, isClosed⟩ after) :
    Reads quote ⟨.plain b :: units, isClosed⟩ after
  | escape {c : UInt8} {units : List QuotedUnit} {isClosed : Bool} {after : List UInt8}
      (onLine : c ≠ newline) (later : Reads quote ⟨units, isClosed⟩ after) :
    Reads quote ⟨.escape c :: units, isClosed⟩ after

/-- How far on the bytes behind stray backslashes are, with the first unit at `offset`. -/
def strays (offset : Nat) : List QuotedUnit → List Nat
  | [] => []
  | unit :: later =>
    (if unit.IsStray then [offset + 1] else []) ++ strays (offset + unit.bytes.length) later

variable {quote : UInt8}

theorem bytes_cons (unit : QuotedUnit) (units : List QuotedUnit) (isClosed : Bool) :
    bytes quote ⟨unit :: units, isClosed⟩ = unit.bytes ++ bytes quote ⟨units, isClosed⟩ := by
  unfold bytes
  rw [List.flatMap_cons, List.append_assoc]

theorem Reads.encloses {quoted : Quoted} {after : List UInt8} (reads : Reads quote quoted after) :
    Encloses quote (quoted.bytes quote) after := by
  induction reads with
  | closed after => exact .closed after
  | cut ends => exact .cut ends
  | cutEscape ends => exact .cutEscape ends
  | plain proper _ ih =>
    obtain ⟨onLine, unescaped, noQuote⟩ := proper
    rw [bytes_cons]
    exact .plain onLine noQuote unescaped ih
  | escape onLine _ ih =>
    rw [bytes_cons]
    exact .escape onLine ih

theorem Encloses.exists_reads {inside after : List UInt8} (encloses : Encloses quote inside after) :
    ∃ quoted, Reads quote quoted after ∧ inside = quoted.bytes quote := by
  induction encloses with
  | closed after => exact ⟨_, .closed after, rfl⟩
  | cut ends => exact ⟨_, .cut ends, rfl⟩
  | cutEscape ends => exact ⟨_, .cutEscape ends, rfl⟩
  | plain onLine noQuote unescaped _ ih =>
    obtain ⟨quoted, reads, rfl⟩ := ih
    exact ⟨_, .plain ⟨onLine, unescaped, noQuote⟩ reads, rfl⟩
  | escape onLine _ ih =>
    obtain ⟨quoted, reads, rfl⟩ := ih
    exact ⟨_, .escape onLine reads, rfl⟩

/-- Reading finds the units, and there is only one way to read. -/
theorem Reads.ofBytes {quoted : Quoted} {after : List UInt8} (reads : Reads quote quoted after)
    (noBreak : quote ≠ newline) (noEscape : quote ≠ ascii '\\') :
    Quoted.ofBytes quote (quoted.bytes quote ++ after) = quoted := by
  have breaks : ascii '\\' ≠ newline := by decide
  -- the way it is read tells which of the tests for the first byte succeeds
  induction reads with
  | closed after =>
    change Quoted.ofBytes quote (quote :: after) = _
    rw [ofBytes.eq_def]
    dsimp only
    rw [if_neg noBreak, if_pos rfl]
  | cut ends => exact ofBytes_cut ends
  | @cutEscape after ends =>
    change Quoted.ofBytes quote (ascii '\\' :: after) = _
    rw [ofBytes.eq_def]
    dsimp only
    rw [if_neg breaks, if_neg (Ne.symm noEscape), if_pos rfl]
    cases after with
    | nil => rfl
    | cons c tail => exact if_pos (ends c rfl)
  | plain proper _ ih =>
    obtain ⟨onLine, unescaped, noQuote⟩ := proper
    rw [bytes_cons, QuotedUnit.bytes, List.append_assoc, List.singleton_append, ofBytes.eq_def]
    dsimp only
    rw [if_neg onLine, if_neg noQuote, if_neg unescaped, ih]
    rfl
  | escape onLine _ ih =>
    rw [bytes_cons, QuotedUnit.bytes, List.append_assoc, List.cons_append, ofBytes.eq_def]
    dsimp only
    rw [if_neg breaks, if_neg (Ne.symm noEscape), if_pos rfl, List.singleton_append]
    dsimp only
    rw [if_neg onLine, ih]
    rfl

theorem Reads.proper {quoted : Quoted} {after : List UInt8} (reads : Reads quote quoted after)
    (noStray : ∀ unit ∈ quoted.units, unit.IsStray = false) :
    ∀ unit ∈ quoted.units, unit.IsProper quote := by
  induction reads with
  | closed | cut => exact List.forall_mem_nil _
  | cutEscape => cases noStray .cutEscape (List.mem_singleton_self _)
  | plain proper _ ih =>
    obtain ⟨_, others⟩ := List.forall_mem_cons.mp noStray
    exact List.forall_mem_cons.mpr ⟨proper, ih others⟩
  | @escape c _ _ _ _ _ ih =>
    obtain ⟨first, others⟩ := List.forall_mem_cons.mp noStray
    have known : ¬ c ∉ QuotedUnit.escapable := of_decide_eq_false first
    exact List.forall_mem_cons.mpr ⟨not_not.mp known, ih others⟩

theorem not_isStray_of_isProper {unit : QuotedUnit} (proper : unit.IsProper quote) :
    unit.IsStray = false := by
  cases unit with
  | plain _ => rfl
  | escape _ => exact decide_eq_false (not_not.mpr proper)
  | cutEscape => exact proper.elim

/-- What the grammar has is read unit by unit. -/
theorem reads_of_proper {units : List QuotedUnit} (proper : ∀ unit ∈ units, unit.IsProper quote)
    (after : List UInt8) : Reads quote ⟨units, true⟩ after := by
  induction units with
  | nil => exact .closed after
  | cons unit units ih =>
    obtain ⟨first, others⟩ := List.forall_mem_cons.mp proper
    cases unit with
    | plain b => exact .plain first (ih others)
    | escape c =>
      have onLine : c ≠ newline := fun same => QuotedUnit.newline_not_escapable (same ▸ first)
      exact .escape onLine (ih others)
    | cutEscape => exact first.elim

theorem count_eq (units : List QuotedUnit) : count units = Int32.ofNat units.length := by
  induction units with
  | nil => rfl
  | cons unit units ih =>
    rw [count, ih, List.length_cons, Int32.ofNat_add]
    rfl

/-- The count tells one unit from several, as long as it is no more than it can be. -/
theorem one_lt_count_iff {units : List QuotedUnit} (countable : units.length < 2 ^ 31) :
    1 < count units ↔ 1 < units.length := by
  rw [count_eq, Int32.lt_iff_toInt_lt, Int32.toInt_ofNat_of_lt countable]
  change (1 : Int) < units.length ↔ _
  omega

theorem strays_eq_nil {units : List QuotedUnit} {offset : Nat} :
    strays offset units = [] ↔ ∀ unit ∈ units, unit.IsStray = false := by
  induction units generalizing offset with
  | nil => exact ⟨fun _ => List.forall_mem_nil _, fun _ => rfl⟩
  | cons unit units ih =>
    rw [strays, List.append_eq_nil_iff, ih, List.forall_mem_cons]
    cases unit.IsStray <;> simp

/-- The faults of the units are those of the stray backslashes. -/
theorem unitFaults_strays (units : List QuotedUnit) (offset : Nat) :
    (unitFaults units).map (fun placed => (placed.fault.kind, offset + placed.offset)) =
      (strays offset units).map fun place => (.malformedEscape, place) := by
  induction units generalizing offset with
  | nil => rfl
  | cons unit units ih =>
    -- faults behind a unit are moved on by its length, as the offset is
    have shifted : (fun placed : PlacedFault => (placed.fault.kind, offset + placed.offset)) ∘
        PlacedFault.shift unit.length =
          fun placed => (placed.fault.kind, offset + unit.bytes.length + placed.offset) := by
      funext placed
      rw [QuotedUnit.length_bytes, Nat.add_assoc]
      rfl
    rw [unitFaults, strays, List.map_append, List.map_append, List.map_map, shifted, ih]
    congr 1
    cases unit with
    | plain _ | cutEscape => rfl
    | escape b => by_cases known : b ∈ QuotedUnit.escapable <;>
        simp [QuotedUnit.faults, QuotedUnit.IsStray, known, LexicalFault.kind]

end Quoted

namespace QuotedKind

def quote : QuotedKind → UInt8
  | .char => ascii '\''
  | .string => ascii '"'

def token : QuotedKind → TokenKind
  | .char => .charLit
  | .string => .strLit

/-- The units of a literal that keeps to the grammar. -/
def Accepts (kind : QuotedKind) (units : List QuotedUnit) : Prop :=
  (∀ unit ∈ units, unit.IsProper kind.quote) ∧ (kind = .char → units.length ≤ 1)

/-- The units of a literal that is scanned without a fault. -/
def Passes (kind : QuotedKind) (units : List QuotedUnit) : Prop :=
  (∀ unit ∈ units, unit.IsProper kind.quote) ∧ (kind = .char → ¬ 1 < Quoted.count units)

theorem Accepts.passes {kind : QuotedKind} {units : List QuotedUnit}
    (accepts : kind.Accepts units) : kind.Passes units := by
  refine ⟨accepts.1, fun isChar => ?_⟩
  have few := accepts.2 isChar
  rw [Quoted.one_lt_count_iff (by omega)]
  omega

theorem Passes.accepts {kind : QuotedKind} {units : List QuotedUnit} (passes : kind.Passes units)
    (countable : kind = .char → units.length < 2 ^ 31) : kind.Accepts units := by
  refine ⟨passes.1, fun isChar => ?_⟩
  have single := passes.2 isChar
  rw [Quoted.one_lt_count_iff (countable isChar)] at single
  omega

/-- A literal as it is written. -/
def literal (kind : QuotedKind) (units : List QuotedUnit) : List UInt8 :=
  kind.quote :: (units.flatMap QuotedUnit.bytes ++ [kind.quote])

theorem quote_mem (kind : QuotedKind) : kind.quote ∈ Piece.quotes := by
  cases kind <;> decide

end QuotedKind

end MiniC
