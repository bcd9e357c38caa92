import MiniC.Proofs.Source.Encoded

/-!
Texts of one line. Texts put together from such texts are of one line too, and a
listing that ends each of its lines with a newline is read back line by line as
what was listed.
-/

namespace MiniC.Text

def IsLine (text : String) : Prop := '\n' ∉ text.toList

instance (text : String) : Decidable (IsLine text) :=
  inferInstanceAs (Decidable ('\n' ∉ text.toList))

/-- The lines of a text without the newlines that end them, and what is left behind
the last newline. -/
def cut : List Char → List (List Char) × List Char
  | [] => ([], [])
  | c :: rest =>
    let (lines, left) := cut rest
    if c = '\n' then ([] :: lines, left)
    else
      match lines with
      | [] => ([], c :: left)
      | first :: others => ((c :: first) :: others, left)

def lines (text : String) : List String × String :=
  let (lines, left) := cut text.toList
  (lines.map String.ofList, String.ofList left)

section IsLine

variable {left right : String}

/-- A literal is told by its characters. -/
theorem isLine_ofList {chars : List Char} (onLine : '\n' ∉ chars) :
    IsLine (String.ofList chars) := by
  rwa [IsLine, String.toList_ofList]

theorem isLine_append : IsLine (left ++ right) ↔ IsLine left ∧ IsLine right := by
  unfold IsLine
  rw [String.toList_append, List.mem_append, not_or]

theorem IsLine.append (first : IsLine left) (second : IsLine right) : IsLine (left ++ right) :=
  isLine_append.mpr ⟨first, second⟩

theorem isLine_join {texts : List String} (each : ∀ text ∈ texts, IsLine text) :
    IsLine (String.join texts) := by
  unfold IsLine
  rw [String.toList_join, List.mem_flatMap]
  rintro ⟨text, member, isBreak⟩
  exact each text member isBreak

theorem isLine_toString (n : Nat) : IsLine (toString n) := by
  unfold IsLine
  rw [Nat.toString_eq_repr, Nat.toList_repr]
  intro isBreak
  have digit := Nat.isDigit_of_mem_toDigits (by decide) (by decide) isBreak
  exact absurd digit (by decide)

end IsLine

section Bytes

variable {text : String} {run : List UInt8} {b : UInt8}

theorem bytes_eq (text : String) : bytes text = text.toList.flatMap String.utf8EncodeChar := by
  unfold bytes
  rw [String.toUTF8_eq_toByteArray, ← String.utf8Encode_toList, toByteArray_flatMap]

/-- A text is of one line if there is no newline among its bytes. -/
theorem isLine_iff : IsLine text ↔ newline ∉ bytes text := by
  have encoded : String.utf8EncodeChar '\n' = [newline] := by decide
  rw [bytes_eq, List.mem_flatMap, IsLine, not_iff_not]
  constructor
  · intro isBreak
    exact ⟨_, isBreak, encoded ▸ List.mem_singleton_self _⟩
  · rintro ⟨c, member, inChar⟩
    -- no other character has this byte
    have alone : String.utf8EncodeChar c = [newline] :=
      encodeChar_of_ascii inChar (by decide)
    have same : bytes (String.ofList [c]) = bytes (String.ofList ['\n']) := by
      rw [bytes_eq, bytes_eq, String.toList_ofList, String.toList_ofList, List.flatMap_singleton,
        List.flatMap_singleton, alone, encoded]
    have isBreak := String.ofList_injective (bytes_inj same)
    rwa [(List.cons.inj isBreak).1] at member

/-- Bytes without a newline are decoded to one line, whether they are text or not. -/
theorem isLine_decode (onLine : newline ∉ run) : IsLine (decode run) := by
  by_cases encoded : IsEncoded run
  · rwa [isLine_iff, bytes_decode encoded]
  · rw [decode_of_not_isEncoded encoded]
    decide

theorem isLine_byteChar (onLine : b ≠ newline) : IsLine (byteChar b).toString := by
  have each : ∀ n : Fin 256, UInt8.ofNat n.val ≠ newline →
      IsLine (byteChar (UInt8.ofNat n.val)).toString := by decide +kernel
  have own := each ⟨b.toNat, b.toNat_lt⟩
  rw [UInt8.ofNat_toNat] at own
  exact own onLine

/-- A newline is shown escaped. -/
theorem isLine_quotedByte (b : UInt8) : IsLine (quotedByte b) := by
  have each : ∀ n : Fin 256, IsLine (quotedByte (UInt8.ofNat n.val)) := by decide +kernel
  have own := each ⟨b.toNat, b.toNat_lt⟩
  rwa [UInt8.ofNat_toNat] at own

end Bytes

theorem cut_append {line : List Char} (onLine : '\n' ∉ line) (rest : List Char) :
    cut (line ++ '\n' :: rest) = (line :: (cut rest).1, (cut rest).2) := by
  induction line with
  | nil => rfl
  | cons c line ih =>
    rw [List.mem_cons, not_or] at onLine
    obtain ⟨other, later⟩ := onLine
    rw [List.cons_append, cut, ih later]
    exact if_neg (Ne.symm other)

/-- A listing of lines is read back as these lines, with nothing left over. -/
theorem lines_join {listed : List String} (each : ∀ line ∈ listed, IsLine line) :
    lines (String.join (listed.map (· ++ "\n"))) = (listed, "") := by
  have whole : cut (String.join (listed.map (· ++ "\n"))).toList =
      (listed.map String.toList, []) := by
    rw [String.toList_join, List.flatMap_map]
    induction listed with
    | nil => rfl
    | cons line rest ih =>
      obtain ⟨onLine, later⟩ := List.forall_mem_cons.mp each
      have shape : (line ++ "\n").toList ++ rest.flatMap (fun text => (text ++ "\n").toList) =
          line.toList ++ '\n' :: rest.flatMap (fun text => (text ++ "\n").toList) := by
        rw [String.toList_append, List.append_assoc]
        rfl
      rw [List.flatMap_cons, shape, cut_append onLine, ih later]
      rfl
  unfold lines
  rw [whole]
  simp only [List.map_map, Function.comp_def, String.ofList_toList, List.map_id']

end MiniC.Text
