import MiniC.Source
import Mathlib.Data.List.Basic

/-!
Text as bytes. The bytes of a text may be cut on either side of an ASCII byte:
no longer character has one among its bytes, so both parts are texts. A run
that is a text is decoded to what it encodes.
-/

namespace MiniC.Text

/-- The bytes are the UTF-8 of some characters. -/
def IsEncoded (run : List UInt8) : Prop :=
  ∃ chars : List Char, chars.flatMap String.utf8EncodeChar = run

def IsAscii (b : UInt8) : Prop := b < 0x80

instance (b : UInt8) : Decidable (IsAscii b) := inferInstanceAs (Decidable (b < 0x80))

theorem toByteArray_flatMap (chars : List Char) :
    chars.utf8Encode = ⟨(chars.flatMap String.utf8EncodeChar).toArray⟩ := by
  apply ByteArray.ext
  rw [List.utf8Encode, List.data_toByteArray]

theorem isEncoded_bytes (text : String) : IsEncoded (bytes text) := by
  use text.toList
  unfold bytes
  rw [String.toUTF8_eq_toByteArray, ← String.utf8Encode_toList, toByteArray_flatMap]

theorem bytes_inj {left right : String} (same : bytes left = bytes right) : left = right :=
  String.toByteArray_inj.mp (ByteArray.ext (Array.toList_inj.mp same))

theorem isEncoded_iff (run : List UInt8) :
    IsEncoded run ↔ (⟨run.toArray⟩ : ByteArray).IsValidUTF8 := by
  constructor
  · rintro ⟨chars, rfl⟩
    exact ⟨chars, (toByteArray_flatMap chars).symm⟩
  · rintro ⟨chars, same⟩
    use chars
    rw [toByteArray_flatMap] at same
    exact (List.toArray_inj (congrArg ByteArray.data same)).symm

theorem bytes_decode {run : List UInt8} (encoded : IsEncoded run) : bytes (decode run) = run := by
  have valid := (isEncoded_iff run).mp encoded
  unfold decode decode? String.fromUTF8?
  rw [dif_pos valid]
  rfl

theorem decode_of_not_isEncoded {run : List UInt8} (stray : ¬ IsEncoded run) :
    decode run = "\uFFFD" := by
  have invalid := fun valid => stray ((isEncoded_iff run).mpr valid)
  unfold decode decode? String.fromUTF8?
  rw [dif_neg invalid]
  rfl

theorem not_isAscii_ofNat {n : Nat} (large : 128 ≤ n) (bound : n < 256) :
    ¬ IsAscii (UInt8.ofNat n) := by
  unfold IsAscii
  rw [UInt8.lt_iff_toNat_lt, UInt8.toNat_ofNat', Nat.mod_eq_of_lt bound]
  exact Nat.not_lt.mpr large

/-- A character is one ASCII byte or several others. -/
theorem encodeChar_shape (c : Char) : (∃ b, IsAscii b ∧ String.utf8EncodeChar c = [b]) ∨
    1 < (String.utf8EncodeChar c).length ∧ ∀ b ∈ String.utf8EncodeChar c, ¬ IsAscii b := by
  rw [String.utf8EncodeChar.eq_def]
  dsimp only
  by_cases short : c.val.toNat ≤ 127
  · left
    rw [if_pos short]
    refine ⟨_, ?_, rfl⟩
    unfold IsAscii
    rw [UInt8.lt_iff_toNat_lt, UInt8.toNat_ofNat', Nat.mod_eq_of_lt (by omega)]
    exact Nat.lt_succ_of_le short
  · right
    rw [if_neg short]
    split_ifs
    all_goals
      constructor
      · simp
      · intro b member
        simp only [List.mem_cons, List.not_mem_nil, or_false] at member
        rcases member with rfl | rfl | rfl | rfl <;> apply not_isAscii_ofNat <;> omega

/-- An ASCII byte is a character of its own. -/
theorem encodeChar_of_ascii {c : Char} {b : UInt8} (member : b ∈ String.utf8EncodeChar c)
    (small : IsAscii b) : String.utf8EncodeChar c = [b] := by
  rcases encodeChar_shape c with ⟨only, _, shape⟩ | ⟨_, large⟩
  · rw [shape] at member ⊢
    rw [List.mem_singleton.mp member]
  · exact absurd small (large b member)

theorem isEncoded_singleton {b : UInt8} (small : IsAscii b) : IsEncoded [b] := by
  have low : b.toNat < 128 := UInt8.lt_iff_toNat_lt.mp small
  have isChar : b.toNat.isValidChar := .inl (Nat.lt_trans low (by decide))
  have value : (byteChar b).val.toNat = b.toNat := by
    unfold byteChar
    rw [Char.ofNat, dif_pos isChar]
    rfl
  use [byteChar b]
  rw [List.flatMap_singleton, String.utf8EncodeChar.eq_def]
  dsimp only
  rw [value, if_pos (Nat.le_of_lt_succ low), UInt8.ofNat_toNat]

theorem IsEncoded.append {left right : List UInt8} (first : IsEncoded left)
    (second : IsEncoded right) : IsEncoded (left ++ right) := by
  obtain ⟨leftChars, rfl⟩ := first
  obtain ⟨rightChars, rfl⟩ := second
  exact ⟨leftChars ++ rightChars, List.flatMap_append⟩

theorem isEncoded_of_ascii {run : List UInt8} (small : ∀ b ∈ run, IsAscii b) : IsEncoded run := by
  induction run with
  | nil => exact ⟨[], rfl⟩
  | cons b rest ih =>
    obtain ⟨first, others⟩ := List.forall_mem_cons.mp small
    exact (isEncoded_singleton first).append (ih others)

/-- A text may be cut before and behind an ASCII byte. -/
theorem IsEncoded.split {before after : List UInt8} {b : UInt8} (small : IsAscii b)
    (whole : IsEncoded (before ++ b :: after)) : IsEncoded before ∧ IsEncoded after := by
  obtain ⟨chars, same⟩ := whole
  induction chars generalizing before with
  | nil =>
    have none := congrArg List.length same
    simp at none
  | cons c rest ih =>
    rw [List.flatMap_cons, List.append_eq_append_iff] at same
    -- the cut is behind the first character, or the character holds the byte
    rcases same with ⟨left, first, later⟩ | ⟨left, first, later⟩
    · obtain ⟨isBefore, isAfter⟩ := ih later
      rw [first]
      exact ⟨.append ⟨[c], List.flatMap_singleton _ _⟩ isBefore, isAfter⟩
    · cases left with
      | nil =>
        rw [List.append_nil] at first
        obtain ⟨_, isAfter⟩ := @ih [] later.symm
        exact ⟨⟨[c], first ▸ List.flatMap_singleton _ _⟩, isAfter⟩
      | cons d left =>
        obtain ⟨rfl, tail⟩ := List.cons_eq_cons.mp later
        have member : b ∈ before ++ b :: left := List.mem_append_right _ (List.mem_cons_self ..)
        have alone := encodeChar_of_ascii (first ▸ member) small
        rw [first] at alone
        obtain ⟨rfl, inner⟩ := List.append_eq_singleton_iff.mp alone |>.resolve_right nofun
        cases inner
        exact ⟨⟨[], rfl⟩, rest, tail.symm⟩

/-- A byte that is not ASCII is no text. -/
theorem not_isEncoded_stray {b : UInt8} (large : ¬ IsAscii b) : ¬ IsEncoded [b] := by
  rintro ⟨_ | ⟨c, rest⟩, same⟩
  · cases same
  · rw [List.flatMap_cons] at same
    rcases encodeChar_shape c with ⟨only, small, shape⟩ | ⟨several, _⟩
    · rw [shape] at same
      exact large (List.head_eq_of_cons_eq same ▸ small)
    · have short := congrArg List.length same
      rw [List.length_append, List.length_singleton] at short
      omega

theorem decode_stray {b : UInt8} (large : ¬ IsAscii b) : decode [b] = "\uFFFD" :=
  decode_of_not_isEncoded (not_isEncoded_stray large)

end MiniC.Text
