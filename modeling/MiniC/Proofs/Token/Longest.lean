import MiniC.Proofs.Token.Enclosed
import MiniC.Proofs.Token.Spelling

/-!
The longest token in front of what follows it, told without the reader. A name
or a number is not followed by a byte that extends it, a symbol takes the equals
sign behind it if it can, a quoted literal runs to its closing quote or to the
end of its line, and a byte that begins nothing else stands alone.
-/

namespace MiniC

open Text (ascii newline IsAscii IsEncoded)

namespace Piece

/-- The bytes of one token and the bytes that follow it. -/
inductive Longest : List UInt8 → List UInt8 → Prop where
  | word {b : UInt8} {run after : List UInt8} (first : isLetter b = true)
      (inside : ∀ c ∈ run, isWordByte c = true) (stops : ∀ c ∈ after.head?, isWordByte c = false) :
    Longest (b :: run) after
  | number {b : UInt8} {run after : List UInt8} (first : isDigit b = true)
      (inside : ∀ c ∈ run, isDigit c = true) (stops : ∀ c ∈ after.head?, isDigit c = false) :
    Longest (b :: run) after
  | quoted {quote : UInt8} {inside after : List UInt8} (isQuote : quote ∈ quotes)
      (encloses : Quoted.Encloses quote inside after) :
    Longest (quote :: inside) after
  | symbol {kind : TokenKind} {after : List UInt8} (listed : kind ∈ TokenKind.symbols)
      (alone : kind ∈ [.lt, .gt, .assign] → after.head? ≠ some (ascii '=')) :
    Longest (spelled kind) after
  | stray {b : UInt8} {after : List UInt8} (noLetter : isLetter b = false)
      (noDigit : isDigit b = false) (noQuote : b ∉ quotes)
      (noSymbol : ∀ kind ∈ TokenKind.symbols, ¬ spelled kind <+: b :: after) :
    Longest [b] after

theorem takeWhile_run {member : UInt8 → Bool} {run after : List UInt8}
    (inside : ∀ c ∈ run, member c = true) (stops : ∀ c ∈ after.head?, member c = false) :
    (run ++ after).takeWhile member = run := by
  rw [List.takeWhile_append_of_pos inside]
  cases after with
  | nil => rw [List.takeWhile_nil, List.append_nil]
  | cons c rest =>
    rw [List.takeWhile_cons_of_neg (by simp [stops c rfl]), List.append_nil]

theorem quote_facts {quote : UInt8} (isQuote : quote ∈ quotes) :
    IsAscii quote ∧ quote ≠ newline ∧ quote ≠ ascii '\\' ∧ isLetter quote = false ∧
      isDigit quote = false := by
  have each : ∀ quote ∈ quotes, IsAscii quote ∧ quote ≠ newline ∧ quote ≠ ascii '\\' ∧
      isLetter quote = false ∧ isDigit quote = false := by decide +kernel
  exact each quote isQuote

theorem ofBytes_letter {b : UInt8} {rest : List UInt8} (letter : isLetter b = true) :
    ofBytes (b :: rest) = word (b :: rest) := by
  rw [ofBytes, if_pos letter]

theorem ofBytes_digit {b : UInt8} {rest : List UInt8} (digit : isDigit b = true) :
    ofBytes (b :: rest) = number (b :: rest) := by
  rw [ofBytes, if_neg (Bool.eq_false_iff.mp (noLetter_of_isDigit digit)), if_pos digit]

theorem ofBytes_string (rest : List UInt8) : ofBytes (ascii '"' :: rest) = string rest := by
  rw [ofBytes]
  rfl

theorem ofBytes_char (rest : List UInt8) : ofBytes (ascii '\'' :: rest) = char rest := by
  rw [ofBytes]
  rfl

theorem ofBytes_quote_length {quote : UInt8} (isQuote : quote ∈ quotes) (rest : List UInt8) :
    (ofBytes (quote :: rest)).length = (Quoted.ofBytes quote rest).length + 1 := by
  rcases List.mem_pair.mp isQuote with rfl | rfl
  · rw [ofBytes_string]
    rfl
  · rw [ofBytes_char]
    rfl

theorem ofBytes_other {b : UInt8} (noLetter : isLetter b = false) (noDigit : isDigit b = false)
    (noQuote : b ∉ quotes) (rest : List UInt8) :
    ofBytes (b :: rest) =
      ((symbol? (b :: rest)).map fun kind => ⟨kind, (spelled kind).length, []⟩).getD
        ⟨.illegal, 1, [⟨0, .illegalByte b⟩]⟩ := by
  have noString : b ≠ ascii '"' := fun same => noQuote (same ▸ List.mem_cons_self ..)
  have noChar : b ≠ ascii '\'' := fun same => noQuote (same ▸ List.mem_of_mem_getLast? rfl)
  rw [ofBytes, if_neg (Bool.eq_false_iff.mp noLetter), if_neg (Bool.eq_false_iff.mp noDigit),
    if_neg noString, if_neg noChar]
  cases symbol? (b :: rest) <;> rfl

theorem ofBytes_symbol {bytes : List UInt8} {kind : TokenKind} (found : symbol? bytes = some kind) :
    ofBytes bytes = ⟨kind, (spelled kind).length, []⟩ := by
  obtain ⟨listed, fits⟩ := symbol?_some found
  have more := symbol?_length_pos found
  obtain ⟨b, run, shape⟩ := List.exists_cons_of_length_pos more
  rw [shape] at fits
  obtain ⟨after, rfl⟩ := fits
  obtain ⟨noLetter, noDigit, noQuote⟩ := symbol_first listed (congrArg List.head? shape)
  rw [List.cons_append] at found ⊢
  rw [ofBytes_other noLetter noDigit noQuote, found]
  rfl

theorem ofBytes_stray {b : UInt8} {rest : List UInt8} (noLetter : isLetter b = false)
    (noDigit : isDigit b = false) (noQuote : b ∉ quotes) (none : symbol? (b :: rest) = none) :
    ofBytes (b :: rest) = ⟨.illegal, 1, [⟨0, .illegalByte b⟩]⟩ := by
  rw [ofBytes_other noLetter noDigit noQuote, none]
  rfl

theorem isEncoded_of_isWordByte {run : List UInt8} (each : ∀ c ∈ run, isWordByte c = true) :
    IsEncoded run :=
  Text.isEncoded_of_ascii fun c member => isAscii_of_isWordByte (each c member)

namespace Longest

variable {piece after : List UInt8}

/-- A token is text, but for a stray byte that is none. -/
theorem encoded (longest : Longest piece after) {before : List UInt8}
    (whole : IsEncoded (before ++ (piece ++ after))) :
    IsEncoded piece ∨ ∃ b, ¬ IsAscii b ∧ piece = [b] := by
  cases longest with
  | @word b run _ first inside =>
    have each : ∀ c ∈ b :: run, isWordByte c = true :=
      List.forall_mem_cons.mpr ⟨isWordByte_of_isLetter first, inside⟩
    exact .inl (isEncoded_of_isWordByte each)
  | @number b run _ first inside =>
    have each : ∀ c ∈ b :: run, isDigit c = true := List.forall_mem_cons.mpr ⟨first, inside⟩
    exact .inl (isEncoded_of_isWordByte fun c member => isWordByte_of_isDigit (each c member))
  | quoted isQuote encloses =>
    obtain ⟨isAscii, _⟩ := quote_facts isQuote
    have opening := Text.isEncoded_singleton isAscii
    exact .inl (opening.append (encloses.encoded isAscii (whole.split isAscii).2))
  | symbol listed => exact .inl (Text.isEncoded_of_ascii (symbol_ascii listed))
  | @stray b =>
    by_cases small : IsAscii b
    · exact .inl (Text.isEncoded_singleton small)
    · exact .inr ⟨b, small, rfl⟩

theorem ofBytes_length (longest : Longest piece after) :
    (ofBytes (piece ++ after)).length = piece.length := by
  cases longest with
  | @word b run _ first inside stops =>
    have each : ∀ c ∈ b :: run, isWordByte c = true :=
      List.forall_mem_cons.mpr ⟨isWordByte_of_isLetter first, inside⟩
    rw [List.cons_append, ofBytes_letter first, ← List.cons_append, Piece.word,
      takeWhile_run each stops]
  | @number b run _ first inside stops =>
    have each : ∀ c ∈ b :: run, isDigit c = true := List.forall_mem_cons.mpr ⟨first, inside⟩
    rw [List.cons_append, ofBytes_digit first, ← List.cons_append,
      Piece.number, takeWhile_run each stops]
  | quoted isQuote encloses =>
    obtain ⟨_, noBreak, noEscape, _⟩ := quote_facts isQuote
    rw [List.cons_append, ofBytes_quote_length isQuote, encloses.ofBytes_length noBreak noEscape,
      List.length_cons]
  | symbol listed alone =>
    rw [ofBytes_symbol (symbol?_spelled listed alone)]
  | stray noLetter noDigit noQuote noSymbol =>
    rw [List.singleton_append, ofBytes_stray noLetter noDigit noQuote (symbol?_none.mpr noSymbol)]
    rfl

/-- The kind of a token is the one of its text. -/
theorem ofBytes_kind (longest : Longest piece after) {before : List UInt8}
    (whole : IsEncoded (before ++ (piece ++ after))) :
    (ofBytes (piece ++ after)).kind = .ofText (Text.decode piece) := by
  cases longest with
  | @word b run _ first inside stops =>
    have each : ∀ c ∈ b :: run, isWordByte c = true :=
      List.forall_mem_cons.mpr ⟨isWordByte_of_isLetter first, inside⟩
    rw [List.cons_append, ofBytes_letter first, ← List.cons_append, Piece.word,
      takeWhile_run each stops]
    exact (ofText_word first (Text.bytes_decode (isEncoded_of_isWordByte each))).symm
  | @number b run _ first inside stops =>
    have each : ∀ c ∈ b :: run, isDigit c = true := List.forall_mem_cons.mpr ⟨first, inside⟩
    have bytes := Text.bytes_decode
      (isEncoded_of_isWordByte fun c member => isWordByte_of_isDigit (each c member))
    rw [List.cons_append, ofBytes_digit first,
      ofText_literal bytes (noLetter_of_isDigit first) (.inl first)]
    exact (ofFirst_digit first).symm
  | @quoted quote run _ isQuote encloses =>
    obtain ⟨isAscii, _, _, noLetter, _⟩ := quote_facts isQuote
    have encoded := encloses.encoded isAscii (whole.split isAscii).2
    have bytes : Text.bytes (Text.decode (quote :: run)) = quote :: run :=
      Text.bytes_decode ((Text.isEncoded_singleton isAscii).append encoded)
    rw [List.cons_append, ofText_literal bytes noLetter (.inr isQuote)]
    rcases List.mem_pair.mp isQuote with rfl | rfl
    · rw [ofBytes_string]
      rfl
    · rw [ofBytes_char]
      rfl
  | symbol listed alone =>
    rw [ofBytes_symbol (symbol?_spelled listed alone)]
    exact (TokenKind.ofText_spelling (List.mem_append_right _ listed)
      (decode_spelled _ listed)).symm
  | @stray b _ noLetter noDigit noQuote noSymbol =>
    rw [List.singleton_append, ofBytes_stray noLetter noDigit noQuote (symbol?_none.mpr noSymbol)]
    by_cases small : IsAscii b
    · have bytes := Text.bytes_decode (Text.isEncoded_singleton small)
      have keywords : ∀ kind ∈ TokenKind.keywords, kind.spelling? ≠ some (Text.decode [b]) :=
        fun _ listed => keyword_ne listed bytes noLetter
      have symbols : ∀ kind ∈ TokenKind.symbols, kind.spelling? ≠ some (Text.decode [b]) := by
        intro kind listed spelling
        have shape := (TokenKind.spelled_of_spelling spelling).trans bytes
        exact noSymbol kind listed (shape ▸ List.prefix_append [b] _)
      rw [TokenKind.ofText_unspelled bytes keywords symbols]
      exact (ofFirst_other noLetter noDigit noQuote).symm
    -- a byte that is no text is shown by a character that spells nothing
    · have replaced : TokenKind.ofText "\uFFFD" = .illegal := by decide
      rw [Text.decode_stray small, replaced]

/-- The text of a token is its bytes, but for a stray byte that is no text. -/
theorem bytes_decode (longest : Longest piece after) {before : List UInt8}
    (whole : IsEncoded (before ++ (piece ++ after))) :
    Text.bytes (Text.decode piece) = piece ∨
      ∃ b, ¬ IsAscii b ∧ piece = [b] ∧ Text.decode piece = "\uFFFD" := by
  rcases longest.encoded whole with encoded | ⟨b, large, rfl⟩
  · exact .inl (Text.bytes_decode encoded)
  · exact .inr ⟨b, large, rfl, Text.decode_stray large⟩

theorem ne_nil (longest : Longest piece after) : piece ≠ [] := by
  cases longest with
  | word | number | quoted | stray => exact List.cons_ne_nil _ _
  | symbol listed => exact List.ne_nil_of_length_pos (spelled_length_pos _ listed)

end Longest

theorem exists_longest {bytes : List UInt8} (more : bytes ≠ []) :
    ∃ piece after, bytes = piece ++ after ∧ Longest piece after := by
  obtain ⟨b, rest, rfl⟩ := List.exists_cons_of_ne_nil more
  have split (member : UInt8 → Bool) : rest = rest.takeWhile member ++ rest.dropWhile member :=
    List.takeWhile_append_dropWhile.symm
  have inside (member : UInt8 → Bool) : ∀ c ∈ rest.takeWhile member, member c = true :=
    List.all_eq_true.mp List.all_takeWhile
  have stops (member : UInt8 → Bool) : ∀ c ∈ (rest.dropWhile member).head?, member c = false := by
    intro c first
    have fits := List.head?_dropWhile_not member rest
    rw [Option.mem_def.mp first] at fits
    exact fits
  by_cases letter : isLetter b = true
  · exact ⟨b :: rest.takeWhile isWordByte, rest.dropWhile isWordByte, congrArg (b :: ·) (split _),
      .word letter (inside _) (stops _)⟩
  by_cases digit : isDigit b = true
  · exact ⟨b :: rest.takeWhile isDigit, rest.dropWhile isDigit, congrArg (b :: ·) (split _),
      .number digit (inside _) (stops _)⟩
  by_cases quote : b ∈ quotes
  · obtain ⟨run, after, rfl, encloses⟩ := Quoted.exists_encloses b rest
    exact ⟨b :: run, after, rfl, .quoted quote encloses⟩
  cases found : symbol? (b :: rest) with
  | some kind =>
    obtain ⟨listed, after, same⟩ := symbol?_some found
    refine ⟨spelled kind, after, same.symm, .symbol listed ?_⟩
    -- were an equals sign behind it, the pair would have been found
    intro extensible equals
    obtain ⟨pair, isPair, shape⟩ := exists_pair extensible
    obtain ⟨tail, rfl⟩ := List.head?_eq_some_iff.mp equals
    have fits : spelled pair <+: b :: rest :=
      ⟨tail, by rw [shape, List.append_assoc, ← same]; rfl⟩
    have atMost := symbol?_longest found (mem_symbols.mpr (.inl isPair)) fits
    rw [shape, List.length_append] at atMost
    exact Nat.not_succ_le_self _ atMost
  | none =>
    have noLetter := Bool.eq_false_iff.mpr letter
    have noDigit := Bool.eq_false_iff.mpr digit
    exact ⟨[b], rest, rfl, .stray noLetter noDigit quote (symbol?_none.mp found)⟩

/-- The end of the source is found nowhere else. -/
theorem ofBytes_kind_ne_eof {bytes : List UInt8} (more : bytes ≠ []) :
    (ofBytes bytes).kind ≠ .eof := by
  obtain ⟨b, rest, rfl⟩ := List.exists_cons_of_ne_nil more
  by_cases letter : isLetter b = true
  · rw [ofBytes_letter letter, word]
    cases found : TokenKind.keyword? (Text.decode ((b :: rest).takeWhile isWordByte)) with
    | none => rintro ⟨⟩
    | some kind =>
      have noEnd : TokenKind.eof ∉ TokenKind.keywords := by decide
      exact fun isEnd => noEnd (isEnd ▸ List.mem_of_find?_eq_some found)
  by_cases digit : isDigit b = true
  · rw [ofBytes_digit digit]
    rintro ⟨⟩
  by_cases quote : b ∈ quotes
  · rcases List.mem_pair.mp quote with rfl | rfl
    · rw [ofBytes_string]
      rintro ⟨⟩
    · rw [ofBytes_char]
      rintro ⟨⟩
  cases found : symbol? (b :: rest) with
  | some kind =>
    have noEnd : TokenKind.eof ∉ TokenKind.symbols := by decide
    rw [ofBytes_symbol found]
    exact fun isEnd => noEnd (isEnd ▸ (symbol?_some found).1)
  | none =>
    rw [ofBytes_stray (Bool.eq_false_iff.mpr letter) (Bool.eq_false_iff.mpr digit) quote found]
    rintro ⟨⟩

/-- The faults of a token stand in it or right behind it, and one that says that
it is not closed stands at its start. -/
def FaultsWithin (piece : Piece) : Prop :=
  ∀ placed ∈ piece.faults, placed.offset ≤ piece.length ∧
    (placed.fault.kind = .unterminatedLiteral → placed.offset = 0)

theorem unitFaults_shift (quoted : Quoted) :
    ∀ placed ∈ (Quoted.unitFaults quoted.units).map (PlacedFault.shift 1),
      placed.offset ≤ quoted.length + 1 ∧
        (placed.fault.kind = .unterminatedLiteral → placed.offset = 0) := by
  intro placed member
  obtain ⟨inner, isInner, rfl⟩ := List.mem_map.mp member
  obtain ⟨bound, kind⟩ := Quoted.unitFaults_within quoted.units inner isInner
  constructor
  · rw [Nat.add_comm]
    exact Nat.add_le_add_left (Nat.le_add_right_of_le bound) 1
  · exact fun isUnclosed => absurd isUnclosed kind

theorem string_faultsWithin (inside : List UInt8) : (string inside).FaultsWithin := by
  intro placed member
  rcases List.mem_append.mp member with inner | isUnclosed
  · exact unitFaults_shift _ placed inner
  · split at isUnclosed
    · cases isUnclosed
    · rw [List.mem_singleton.mp isUnclosed]
      exact ⟨Nat.zero_le _, fun _ => rfl⟩

theorem char_faultsWithin (inside : List UInt8) : (char inside).FaultsWithin := by
  intro placed member
  rcases List.mem_append.mp member with first | crowded
  · rcases List.mem_append.mp first with inner | isUnclosed
    · exact unitFaults_shift _ placed inner
    · split at isUnclosed
      · cases isUnclosed
      · rw [List.mem_singleton.mp isUnclosed]
        exact ⟨Nat.zero_le _, fun _ => rfl⟩
  · split at crowded
    · rw [List.mem_singleton.mp crowded]
      exact ⟨Nat.zero_le _, fun _ => rfl⟩
    · cases crowded

theorem ofBytes_faultsWithin (bytes : List UInt8) : (ofBytes bytes).FaultsWithin := by
  cases bytes with
  | nil => rintro _ ⟨⟩
  | cons b rest =>
    rw [ofBytes]
    split
    · rintro _ ⟨⟩
    split
    · rintro _ ⟨⟩
    split
    · exact string_faultsWithin rest
    split
    · exact char_faultsWithin rest
    split
    · rintro _ ⟨⟩
    · exact List.forall_mem_singleton.mpr ⟨Nat.zero_le 1, fun _ => rfl⟩

end Piece

end MiniC
