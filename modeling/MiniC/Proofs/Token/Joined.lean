import MiniC.Proofs.Token.Literals

/-!
Tokens that are written one behind the other, with a blank and whatever else may
stand in a gap between two of them, are scanned as they were written. At the blank
every token ends, and what follows it is a gap up to the next token.
-/

namespace MiniC

open Text (ascii newline)

/-- The text is a way to write a token of the kind. -/
inductive TokenKind.IsWritten : TokenKind → String → Prop where
  | name {text : String} {b : UInt8} {run : List UInt8} (bytes : Text.bytes text = b :: run)
      (first : Piece.isLetter b = true) (inside : ∀ c ∈ run, Piece.isWordByte c = true)
      (noKeyword : ∀ kind ∈ keywords, kind.spelling? ≠ some text) :
    IsWritten .ident text
  | number {text : String} {b : UInt8} {run : List UInt8} (bytes : Text.bytes text = b :: run)
      (digits : ∀ c ∈ b :: run, Piece.isDigit c = true) :
    IsWritten .intLit text
  | quoted {text : String} {kind : QuotedKind} {units : List QuotedUnit}
      (bytes : Text.bytes text = kind.literal units) (passes : kind.Passes units) :
    IsWritten kind.token text
  | fixed {kind : TokenKind} {text : String} (listed : kind ∈ keywords ++ symbols)
      (spelling : kind.spelling? = some text) :
    IsWritten kind text

namespace Text

theorem decode_bytes (text : String) : decode (bytes text) = text :=
  bytes_inj (bytes_decode (isEncoded_bytes text))

theorem bytes_append (left right : String) : bytes (left ++ right) = bytes left ++ bytes right := by
  unfold bytes
  rw [String.toUTF8_eq_toByteArray, String.toByteArray_append, ByteArray.data_append,
    Array.toList_append]
  rfl

end Text

namespace Piece

theorem noBlank_of_isWordByte {b : UInt8} (word : isWordByte b = true) :
    Gap.isBlank b = false ∧ b ≠ ascii '/' := by
  simp [isWordByte, isLetter, isDigit, Gap.isBlank, ascii, Text.newline, UInt8.le_iff_toNat_le,
    ← UInt8.toNat_inj] at word ⊢
  omega

/-- No symbol begins like a gap, but for the slash. -/
theorem symbol_opening {kind : TokenKind} (listed : kind ∈ TokenKind.symbols) :
    spelled kind = [ascii '/'] ∨
      ∃ b ∈ (spelled kind).head?, Gap.isBlank b = false ∧ b ≠ ascii '/' := by
  revert kind
  decide

end Piece

namespace Gap

theorem not_begins {b : UInt8} (noBlank : isBlank b = false) (noSlash : b ≠ ascii '/')
    (after : List UInt8) : ¬ Begins (b :: after) := by
  rintro (⟨_, ⟨⟩, blank⟩ | opens | opens)
  · rw [noBlank] at blank
    cases blank
  · exact noSlash (List.cons_prefix_cons.mp opens).1.symm
  · exact noSlash (List.cons_prefix_cons.mp opens).1.symm

/-- The source ends here, or a blank stands here. -/
def Parts (after : List UInt8) : Prop := ∀ b ∈ after.head?, isBlank b = true

theorem Parts.stops {after : List UInt8} (parts : Parts after) :
    ∀ c ∈ after.head?, Piece.isWordByte c = false := by
  intro c first
  have blank := parts c first
  rw [← Bool.not_eq_true]
  intro word
  rw [(Piece.noBlank_of_isWordByte word).1] at blank
  cases blank

theorem Parts.stops_number {after : List UInt8} (parts : Parts after) :
    ∀ c ∈ after.head?, Piece.isDigit c = false := by
  intro c first
  rw [← Bool.not_eq_true]
  intro digit
  have word := Piece.isWordByte_of_isDigit digit
  rw [parts.stops c first] at word
  cases word

theorem Parts.ne_equals {after : List UInt8} (parts : Parts after) :
    after.head? ≠ some (ascii '=') :=
  fun same => absurd (parts _ same) (by decide)

/-- A slash in front of a blank begins no comment. -/
theorem Parts.not_begins_slash {after : List UInt8} (parts : Parts after) :
    ¬ Begins (ascii '/' :: after) := by
  have second {c : UInt8} (noBlank : isBlank c = false)
      (opens : [ascii '/', c] <+: ascii '/' :: after) : False := by
    obtain ⟨tail, same⟩ := (List.prefix_cons_inj _).mp opens
    have blank := parts c (same ▸ rfl)
    rw [noBlank] at blank
    cases blank
  rintro (⟨_, ⟨⟩, blank⟩ | opens | opens)
  · exact absurd blank (by decide)
  · exact second (by decide) opens
  · exact second (by decide) opens

end Gap

namespace TokenKind

open Gap (Parts)

theorem keyword_spelled {kind : TokenKind} (listed : kind ∈ keywords) :
    ∃ b run, Piece.spelled kind = b :: run ∧ Piece.isLetter b = true ∧
      ∀ c ∈ run, Piece.isWordByte c = true := by
  have each : ∀ kind ∈ keywords, Piece.spelled kind ≠ [] ∧
      ∀ c ∈ Piece.spelled kind, Piece.isLetter c = true := by decide +kernel
  obtain ⟨some, letters⟩ := each kind listed
  obtain ⟨b, run, shape⟩ := List.exists_cons_of_ne_nil some
  rw [shape] at letters
  obtain ⟨first, inside⟩ := List.forall_mem_cons.mp letters
  exact ⟨b, run, shape, first, fun c member => Piece.isWordByte_of_isLetter (inside c member)⟩

theorem keyword?_of_spelling {kind : TokenKind} (listed : kind ∈ keywords) {text : String}
    (spelling : kind.spelling? = some text) : keyword? text = some kind := by
  have each : ∀ kind ∈ keywords, ∀ text ∈ kind.spelling?, keyword? text = some kind := by decide
  exact each kind listed text spelling

end TokenKind

namespace Piece

open Gap (Parts)

variable {text : String} {after : List UInt8}

/-- A word in front of a blank is read as a whole. -/
theorem ofBytes_parted_word {b : UInt8} {run : List UInt8} (bytes : Text.bytes text = b :: run)
    (first : isLetter b = true) (inside : ∀ c ∈ run, isWordByte c = true) (parts : Parts after) :
    ofBytes (Text.bytes text ++ after) =
      ⟨(TokenKind.keyword? text).getD .ident, (Text.bytes text).length, []⟩ := by
  have each : ∀ c ∈ b :: run, isWordByte c = true :=
    List.forall_mem_cons.mpr ⟨isWordByte_of_isLetter first, inside⟩
  have same : Text.decode (b :: run) = text := by
    rw [← bytes]
    exact Text.bytes_inj (Text.bytes_decode (Text.isEncoded_bytes text))
  rw [bytes, List.cons_append, ofBytes_letter first, ← List.cons_append, word,
    takeWhile_run each parts.stops, same]

end Piece

namespace TokenKind.IsWritten

open Gap (Parts)

variable {kind : TokenKind} {text : String} {after : List UInt8}

/-- In front of a blank the text is the next token. -/
theorem longest (written : kind.IsWritten text) (parts : Parts after) :
    Piece.Longest (Text.bytes text) after := by
  cases written with
  | name bytes first inside =>
    rw [bytes]
    exact .word first inside parts.stops
  | number bytes digits =>
    obtain ⟨first, inside⟩ := List.forall_mem_cons.mp digits
    rw [bytes]
    exact .number first inside parts.stops_number
  | quoted bytes passes =>
    rw [bytes, QuotedKind.literal_eq]
    exact (passes.reads after).longest
  | fixed listed spelling =>
    rw [← TokenKind.spelled_of_spelling spelling]
    rcases List.mem_append.mp listed with keyword | symbol
    · obtain ⟨b, run, shape, first, inside⟩ := keyword_spelled keyword
      rw [shape]
      exact .word first inside parts.stops
    · exact .symbol symbol fun _ => parts.ne_equals

/-- It does not look like the beginning of a gap. -/
theorem not_begins (written : kind.IsWritten text) (parts : Parts after) :
    ¬ Gap.Begins (Text.bytes text ++ after) := by
  cases written with
  | name bytes first =>
    obtain ⟨noBlank, noSlash⟩ := Piece.noBlank_of_isWordByte (Piece.isWordByte_of_isLetter first)
    rw [bytes]
    exact Gap.not_begins noBlank noSlash _
  | number bytes digits =>
    have first := (List.forall_mem_cons.mp digits).1
    obtain ⟨noBlank, noSlash⟩ := Piece.noBlank_of_isWordByte (Piece.isWordByte_of_isDigit first)
    rw [bytes]
    exact Gap.not_begins noBlank noSlash _
  | @quoted _ quotedKind _ bytes =>
    rw [bytes]
    exact Gap.not_begins (by cases quotedKind <;> decide) (by cases quotedKind <;> decide) _
  | fixed listed spelling =>
    rw [← TokenKind.spelled_of_spelling spelling]
    rcases List.mem_append.mp listed with keyword | symbol
    · obtain ⟨b, run, shape, first, _⟩ := keyword_spelled keyword
      obtain ⟨noBlank, noSlash⟩ := Piece.noBlank_of_isWordByte (Piece.isWordByte_of_isLetter first)
      rw [shape]
      exact Gap.not_begins noBlank noSlash _
    · rcases Piece.symbol_opening symbol with isSlash | ⟨b, first, noBlank, noSlash⟩
      · rw [isSlash]
        exact parts.not_begins_slash
      · obtain ⟨run, shape⟩ := List.head?_eq_some_iff.mp first
        rw [shape]
        exact Gap.not_begins noBlank noSlash _

/-- It is read as a token of its kind, without a fault. -/
theorem ofBytes (written : kind.IsWritten text) (parts : Parts after) :
    Piece.ofBytes (Text.bytes text ++ after) = ⟨kind, (Text.bytes text).length, []⟩ := by
  cases written with
  | name bytes first inside noKeyword =>
    have none : keyword? text = none := by
      rw [keyword?, List.find?_eq_none]
      exact fun kind listed spells => noKeyword kind listed (beq_iff_eq.mp spells)
    rw [Piece.ofBytes_parted_word bytes first inside parts, none]
    rfl
  | number bytes digits =>
    rw [bytes, List.cons_append, Piece.ofBytes_digit (List.forall_mem_cons.mp digits).1,
      ← List.cons_append, Piece.number, Piece.takeWhile_run digits parts.stops_number]
  | @quoted _ quotedKind units bytes passes =>
    -- a literal ends itself, so what follows it does not matter
    have reads := passes.reads after
    have length := reads.longest.ofBytes_length
    have none : quotedKind.marks 0 ⟨units, true⟩ (1 < Quoted.count units) = [] :=
      (QuotedKind.marks_eq_nil reads).mpr ⟨rfl, passes⟩
    have marks := quotedKind.piece_marks 0 (Quoted.bytes quotedKind.quote ⟨units, true⟩ ++ after)
    rw [reads.ofBytes_quote, none, List.map_eq_nil_iff] at marks
    rw [bytes, QuotedKind.literal_eq]
    rw [List.cons_append, QuotedKind.ofBytes_quote] at length ⊢
    exact (Piece.mk.injEq ..).mpr ⟨quotedKind.piece_kind _, length, marks⟩
  | fixed listed spelling =>
    rcases List.mem_append.mp listed with keyword | symbol
    · obtain ⟨b, run, shape, first, inside⟩ := keyword_spelled keyword
      rw [TokenKind.spelled_of_spelling spelling] at shape
      rw [Piece.ofBytes_parted_word shape first inside parts,
        keyword?_of_spelling keyword spelling]
      rfl
    · rw [← TokenKind.spelled_of_spelling spelling,
        Piece.ofBytes_symbol (Piece.symbol?_spelled symbol fun _ => parts.ne_equals)]

theorem isTile (written : kind.IsWritten text) (parts : Parts after) {gap : List UInt8}
    (fills : Gap.Fills gap) : IsTile gap (Text.bytes text) after :=
  ⟨fills, written.not_begins parts, written.longest parts⟩

theorem ne_eof (written : kind.IsWritten text) : kind ≠ .eof := by
  cases written with
  | name | number => decide
  | @quoted _ quotedKind => cases quotedKind <;> decide
  | fixed listed =>
    rintro rfl
    exact absurd listed (by decide)

end TokenKind.IsWritten

/-- The scan of a token in front of a blank. -/
theorem Cursor.scan_written {cursor : Cursor} {gap after : List UInt8} {kind : TokenKind}
    {text : String} (written : kind.IsWritten text) (fills : Gap.Fills gap)
    (parts : Gap.Parts after) (rest : cursor.rest = gap ++ (Text.bytes text ++ after)) :
    cursor.scan.2.rest = after ∧ cursor.scan.1.token.kind = kind ∧
      cursor.scan.1.token.text = text ∧ cursor.scan.1.faults = [] := by
  have cut := scan_isCut rest (written.isTile parts fills)
  have read := written.ofBytes parts
  constructor
  · rw [scan_rest, rest, Gap.ofBytes_between fills (written.not_begins parts), List.drop_left,
      read, List.drop_left]
  constructor
  · rw [cut.kind, read]
  constructor
  · exact cut.text.trans (Text.decode_bytes text)
  · rw [cut.faults, read]
    rfl

/-- The scan of what is left behind the last token. -/
theorem Cursor.scanAll_gap {cursor : Cursor} (fills : Gap.Fills cursor.rest) :
    cursor.scanAll.tokens.map (fun token => (token.kind, token.text)) = [(.eof, "")] ∧
      cursor.scanAll.faults = [] := by
  have measured := Gap.ofBytes_last (.whole fills)
  obtain ⟨startRest, _⟩ := advance_append (List.append_nil cursor.rest).symm
  have isEnd : cursor.scan.1.token.kind = .eof := by
    rw [scan_kind, measured, List.drop_length]
    rfl
  rw [scanAll, dif_pos isEnd]
  unfold scan
  rw [measured]
  dsimp only
  rw [startRest]
  exact ⟨rfl, rfl⟩

/-- A blank, and whatever else may stand between two tokens. -/
def Gap.IsSeparator (separator : String) : Prop :=
  ∃ b gap, Text.bytes separator = b :: gap ∧ isBlank b = true ∧ Fills gap

/-- The tokens are written one behind the other, with separators between them. -/
inductive Renders : List (TokenKind × String) → String → Prop where
  | nil : Renders [] ""
  | single {kind : TokenKind} {text : String} (written : kind.IsWritten text) :
    Renders [(kind, text)] text
  | cons {kind : TokenKind} {text separator source : String} {next : TokenKind × String}
      {later : List (TokenKind × String)} (written : kind.IsWritten text)
      (separates : Gap.IsSeparator separator) (renders : Renders (next :: later) source) :
    Renders ((kind, text) :: next :: later) (text ++ (separator ++ source))

theorem Gap.IsSeparator.fills {separator : String} (separates : IsSeparator separator) :
    Fills (Text.bytes separator) := by
  obtain ⟨b, gap, bytes, blank, fills⟩ := separates
  rw [bytes]
  exact .cons (.blank blank) fills

theorem Gap.IsSeparator.parts {separator : String} (separates : IsSeparator separator)
    (after : List UInt8) : Parts (Text.bytes separator ++ after) := by
  obtain ⟨b, gap, bytes, blank, _⟩ := separates
  rw [bytes]
  rintro _ ⟨⟩
  exact blank

namespace Cursor

variable {cursor : Cursor} {gap : List UInt8}

/-- The first token in front of a blank, and all that is scanned behind it. -/
theorem scanAll_written {after : List UInt8} {kind : TokenKind} {text : String}
    (written : kind.IsWritten text) (fills : Gap.Fills gap) (parts : Gap.Parts after)
    (rest : cursor.rest = gap ++ (Text.bytes text ++ after)) :
    cursor.scan.2.rest = after ∧
      cursor.scanAll.tokens.map (fun token => (token.kind, token.text)) =
        (kind, text) :: cursor.scan.2.scanAll.tokens.map (fun token => (token.kind, token.text)) ∧
      cursor.scanAll.faults = cursor.scan.2.scanAll.faults := by
  obtain ⟨behind, sameKind, sameText, none⟩ := scan_written written fills parts rest
  have found : cursor.scan.1.token.kind ≠ .eof := sameKind ▸ written.ne_eof
  constructor
  · exact behind
  rw [scanAll.eq_def cursor, dif_neg found]
  constructor
  · rw [← sameKind, ← sameText]
    rfl
  · change cursor.scan.1.faults ++ cursor.scan.2.scanAll.faults = _
    rw [none, List.nil_append]

theorem scanAll_rendered {tokens : List (TokenKind × String)} {source : String}
    (renders : Renders tokens source) (fills : Gap.Fills gap)
    (rest : cursor.rest = gap ++ Text.bytes source) :
    cursor.scanAll.tokens.map (fun token => (token.kind, token.text)) = tokens ++ [(.eof, "")] ∧
      cursor.scanAll.faults = [] := by
  -- the gap in front is empty at first, and the last separator from then on
  induction renders generalizing cursor gap with
  | nil =>
    have ended : cursor.rest = gap := rest.trans (List.append_nil gap)
    exact scanAll_gap (ended ▸ fills)
  | @single kind text written =>
    rw [← List.append_nil (Text.bytes text)] at rest
    have parts : Gap.Parts [] := by rintro _ ⟨⟩
    obtain ⟨behind, tokens, faults⟩ := scanAll_written written fills parts rest
    have none : Gap.Fills cursor.scan.2.rest := by
      rw [behind]
      exact .nil
    obtain ⟨ending, silent⟩ := scanAll_gap none
    rw [tokens, faults, ending, silent]
    exact ⟨rfl, rfl⟩
  | cons written separates _ ih =>
    rw [Text.bytes_append, Text.bytes_append] at rest
    obtain ⟨behind, tokens, faults⟩ :=
      scanAll_written written fills (separates.parts _) rest
    obtain ⟨later, silent⟩ := ih separates.fills behind
    rw [tokens, faults, later, silent]
    exact ⟨rfl, rfl⟩

end Cursor

/-- Scanning gives back the tokens that a source was written from, and finds nothing
wrong with them. -/
theorem scan_renders (name : String) {tokens : List (TokenKind × String)} {source : String}
    (renders : Renders tokens source) :
    let scanned := Scanned.ofSource name source
    scanned.tokens.map (fun token => (token.kind, token.text)) = tokens ++ [(.eof, "")] ∧
      scanned.faults = [] :=
  Cursor.scanAll_rendered renders .nil rfl

/-- Operators around a line comment, and a comment opening in a string. -/
theorem scan_renders_comments :
    Renders [(.lt, "<"), (.assign, "="), (.strLit, "\"/*\"")] "< //=\n= \"/*\"" ∧
      (Scanned.ofSource "m.c" "< //=\n= \"/*\"").faults = [] := by
  have onLine : newline ∉ [ascii '='] := by decide
  have slashes : Gap.IsSeparator " //=\n" :=
    ⟨ascii ' ', _, rfl, by decide, .cons (.line onLine) .nil⟩
  have blank : Gap.IsSeparator " " := ⟨ascii ' ', [], by decide, by decide, .nil⟩
  have passes : QuotedKind.Passes .string [.plain (ascii '/'), .plain (ascii '*')] :=
    ⟨by decide, nofun⟩
  have string : TokenKind.strLit.IsWritten "\"/*\"" := .quoted (by decide) passes
  have renders : Renders [(.lt, "<"), (.assign, "="), (.strLit, "\"/*\"")]
      "< //=\n= \"/*\"" :=
    .cons (.fixed (by decide) rfl) slashes
      (.cons (.fixed (by decide) rfl) blank (.single string))
  exact ⟨renders, (scan_renders "m.c" renders).2⟩

end MiniC
