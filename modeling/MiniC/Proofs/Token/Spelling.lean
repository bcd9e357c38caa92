import MiniC.Proofs.Source.Encoded
import MiniC.Proofs.Token.Exact

/-!
Which kind a text is, and which symbol some bytes begin with. Keywords and symbols
are told apart by their spelling, the rest by the first byte; of the symbols that
fit, one of two characters is taken first.
-/

namespace MiniC

open Text (ascii IsAscii)

namespace TokenKind

/-- The kind of a text that is no keyword and no symbol. -/
def ofFirst (b : UInt8) : TokenKind :=
  if Piece.isLetter b then .ident
  else if Piece.isDigit b then .intLit
  else if b = ascii '"' then .strLit
  else if b = ascii '\'' then .charLit
  else .illegal

/-- The kind of a text, whatever stands around it. -/
def ofText (text : String) : TokenKind :=
  ((keywords ++ symbols).find? (·.spelling? == some text)).getD
    (((Text.bytes text).head?.map ofFirst).getD .eof)

theorem ofText_spelling {kind : TokenKind} (listed : kind ∈ keywords ++ symbols) {text : String}
    (spelling : kind.spelling? = some text) : ofText text = kind := by
  have each : ∀ kind ∈ keywords ++ symbols, ∀ text ∈ kind.spelling?, ofText text = kind := by
    decide
  exact each kind listed text spelling

theorem spelled_of_spelling {kind : TokenKind} {text : String}
    (spelling : kind.spelling? = some text) : Piece.spelled kind = Text.bytes text := by
  rw [Piece.spelled, spelling, Option.getD_some]

theorem ofText_unspelled {text : String} {b : UInt8} {run : List UInt8}
    (bytes : Text.bytes text = b :: run)
    (noKeyword : ∀ kind ∈ keywords, kind.spelling? ≠ some text)
    (noSymbol : ∀ kind ∈ symbols, kind.spelling? ≠ some text) : ofText text = ofFirst b := by
  have none : (keywords ++ symbols).find? (·.spelling? == some text) = none := by
    rw [List.find?_eq_none]
    intro kind listed spells
    rcases List.mem_append.mp listed with keyword | symbol
    · exact noKeyword kind keyword (beq_iff_eq.mp spells)
    · exact noSymbol kind symbol (beq_iff_eq.mp spells)
  unfold ofText
  rw [none, bytes]
  rfl

theorem keyword?_eq_none {text : String} (none : keyword? text = none) :
    ∀ kind ∈ keywords, kind.spelling? ≠ some text := by
  intro kind listed spelling
  exact List.find?_eq_none.mp none kind listed (beq_iff_eq.mpr spelling)

end TokenKind

namespace Piece

/-- The bytes that quoted literals begin and end with. -/
def quotes : List UInt8 := [ascii '"', ascii '\'']

theorem isAscii_of_isWordByte {b : UInt8} (word : isWordByte b = true) : IsAscii b := by
  unfold IsAscii
  simp [isWordByte, isLetter, isDigit, ascii, UInt8.le_iff_toNat_le, UInt8.lt_iff_toNat_lt,
    ← UInt8.toNat_inj] at word ⊢
  omega

theorem noLetter_of_isDigit {b : UInt8} (digit : isDigit b = true) : isLetter b = false := by
  rw [← Bool.not_eq_true]
  simp [isLetter, isDigit, ascii, UInt8.le_iff_toNat_le, ← UInt8.toNat_inj] at digit ⊢
  omega

theorem isWordByte_of_isLetter {b : UInt8} (letter : isLetter b = true) : isWordByte b = true := by
  rw [isWordByte, letter, Bool.true_or]

theorem isWordByte_of_isDigit {b : UInt8} (digit : isDigit b = true) : isWordByte b = true := by
  rw [isWordByte, digit, Bool.or_true]

/-- Keywords begin with a letter. -/
theorem keyword_first {kind : TokenKind} (listed : kind ∈ TokenKind.keywords) {b : UInt8}
    (first : (spelled kind).head? = some b) : isLetter b = true := by
  have each : ∀ kind ∈ TokenKind.keywords, ∀ b ∈ (spelled kind).head?, isLetter b = true := by
    decide +kernel
  exact each kind listed b first

/-- Symbols begin with none of the bytes that names and literals begin with. -/
theorem symbol_first {kind : TokenKind} (listed : kind ∈ TokenKind.symbols) {b : UInt8}
    (first : (spelled kind).head? = some b) :
    isLetter b = false ∧ isDigit b = false ∧ b ∉ quotes := by
  have each : ∀ kind ∈ TokenKind.symbols, ∀ b ∈ (spelled kind).head?,
      isLetter b = false ∧ isDigit b = false ∧ b ∉ quotes := by
    decide +kernel
  exact each kind listed b first

theorem symbol_ascii {kind : TokenKind} (listed : kind ∈ TokenKind.symbols) :
    ∀ b ∈ spelled kind, IsAscii b := by
  revert kind
  decide +kernel

theorem keyword_ne {kind : TokenKind} (listed : kind ∈ TokenKind.keywords) {text : String}
    {b : UInt8} {run : List UInt8} (bytes : Text.bytes text = b :: run)
    (noLetter : isLetter b = false) : kind.spelling? ≠ some text := by
  intro spelling
  have shape := (TokenKind.spelled_of_spelling spelling).trans bytes
  have letter := keyword_first listed (congrArg List.head? shape)
  rw [noLetter] at letter
  cases letter

theorem symbol_ne {kind : TokenKind} (listed : kind ∈ TokenKind.symbols) {text : String}
    {b : UInt8} {run : List UInt8} (bytes : Text.bytes text = b :: run)
    (other : isLetter b = true ∨ isDigit b = true ∨ b ∈ quotes) : kind.spelling? ≠ some text := by
  intro spelling
  have shape := (TokenKind.spelled_of_spelling spelling).trans bytes
  obtain ⟨noLetter, noDigit, noQuote⟩ := symbol_first listed (congrArg List.head? shape)
  rcases other with letter | digit | quote
  · rw [noLetter] at letter
    cases letter
  · rw [noDigit] at digit
    cases digit
  · exact noQuote quote

theorem ofFirst_digit {b : UInt8} (digit : isDigit b = true) : TokenKind.ofFirst b = .intLit := by
  rw [TokenKind.ofFirst, if_neg (Bool.eq_false_iff.mp (noLetter_of_isDigit digit)), if_pos digit]

theorem ofFirst_other {b : UInt8} (noLetter : isLetter b = false) (noDigit : isDigit b = false)
    (noQuote : b ∉ quotes) : TokenKind.ofFirst b = .illegal := by
  have noString : b ≠ ascii '"' := fun same => noQuote (same ▸ List.mem_cons_self ..)
  have noChar : b ≠ ascii '\'' := fun same => noQuote (same ▸ List.mem_of_mem_getLast? rfl)
  rw [TokenKind.ofFirst, if_neg (Bool.eq_false_iff.mp noLetter),
    if_neg (Bool.eq_false_iff.mp noDigit), if_neg noString, if_neg noChar]

/-- A literal is known by its first byte. -/
theorem ofText_literal {text : String} {b : UInt8} {run : List UInt8}
    (bytes : Text.bytes text = b :: run) (noLetter : isLetter b = false)
    (first : isDigit b = true ∨ b ∈ quotes) : TokenKind.ofText text = .ofFirst b :=
  TokenKind.ofText_unspelled bytes (fun _ listed => keyword_ne listed bytes noLetter)
    fun _ listed => symbol_ne listed bytes (.inr first)

/-- A word is the keyword it spells, or else a name. -/
theorem ofText_word {text : String} {b : UInt8} {run : List UInt8} (letter : isLetter b = true)
    (bytes : Text.bytes text = b :: run) :
    TokenKind.ofText text = (TokenKind.keyword? text).getD .ident := by
  cases found : TokenKind.keyword? text with
  | some kind =>
    have listed : kind ∈ TokenKind.keywords := List.mem_of_find?_eq_some found
    exact TokenKind.ofText_spelling (List.mem_append_left _ listed)
      (TokenKind.keyword?_spelling found)
  | none =>
    rw [TokenKind.ofText_unspelled bytes (TokenKind.keyword?_eq_none found)
      fun kind listed => symbol_ne listed bytes (.inl letter)]
    exact if_pos letter

/-- Symbols of two characters. -/
def pairs : List TokenKind := [.le, .ge, .eqEq, .notEq]

def singles : List TokenKind :=
  [.plus, .minus, .star, .slash, .lt, .gt, .colon, .assign, .semicolon, .comma,
   .lParen, .rParen, .lBracket, .rBracket, .lBrace, .rBrace]

theorem pair_length {kind : TokenKind} (listed : kind ∈ pairs) : (spelled kind).length = 2 := by
  revert kind
  decide

theorem single_length {kind : TokenKind} (listed : kind ∈ singles) :
    (spelled kind).length = 1 := by
  revert kind
  decide

theorem mem_symbols {kind : TokenKind} : kind ∈ TokenKind.symbols ↔ kind ∈ pairs ∨ kind ∈ singles :=
  List.mem_append (s := pairs) (t := singles)

theorem symbol_length_le {kind : TokenKind} (listed : kind ∈ TokenKind.symbols) :
    (spelled kind).length ≤ 2 := by
  rcases mem_symbols.mp listed with pair | single
  · exact Nat.le_of_eq (pair_length pair)
  · rw [single_length single]
    exact Nat.le_succ 1

theorem spelled_inj {left right : TokenKind} (isLeft : left ∈ TokenKind.symbols)
    (isRight : right ∈ TokenKind.symbols) (same : spelled left = spelled right) : left = right := by
  have leftText := decode_spelled left isLeft
  rw [same] at leftText
  rw [← TokenKind.ofText_spelling (List.mem_append_right _ isLeft) leftText]
  exact TokenKind.ofText_spelling (List.mem_append_right _ isRight) (decode_spelled right isRight)

/-- Only an equals sign makes two characters of one. -/
theorem pair_of_single {pair single : TokenKind} (isPair : pair ∈ pairs)
    (isSingle : single ∈ singles) (opens : spelled single <+: spelled pair) :
    single ∈ [.lt, .gt, .assign] ∧ spelled pair = spelled single ++ [ascii '='] := by
  have each : ∀ pair ∈ pairs, ∀ single ∈ singles, spelled single <+: spelled pair →
      single ∈ [.lt, .gt, .assign] ∧ spelled pair = spelled single ++ [ascii '='] := by
    decide
  exact each pair isPair single isSingle opens

theorem exists_pair {single : TokenKind} (extensible : single ∈ [.lt, .gt, .assign]) :
    ∃ pair ∈ pairs, spelled pair = spelled single ++ [ascii '='] := by
  revert single
  decide

theorem symbol?_some {bytes : List UInt8} {kind : TokenKind} (found : symbol? bytes = some kind) :
    kind ∈ TokenKind.symbols ∧ spelled kind <+: bytes := by
  constructor
  · exact List.mem_of_find?_eq_some found
  · have fits := List.find?_some (p := fun kind => (spelled kind).isPrefixOf bytes) found
    exact List.isPrefixOf_iff_prefix.mp fits

theorem symbol?_none {bytes : List UInt8} :
    symbol? bytes = none ↔ ∀ kind ∈ TokenKind.symbols, ¬ spelled kind <+: bytes := by
  unfold symbol?
  rw [List.find?_eq_none]
  simp only [List.isPrefixOf_iff_prefix]

/-- The symbol that is found is as long as any that fits. -/
theorem symbol?_longest {bytes : List UInt8} {kind other : TokenKind}
    (found : symbol? bytes = some kind) (listed : other ∈ TokenKind.symbols)
    (fits : spelled other <+: bytes) : (spelled other).length ≤ (spelled kind).length := by
  -- symbols of two characters are tried before those of one
  have shape : symbol? bytes = (pairs.find? fun kind => (spelled kind).isPrefixOf bytes).or
      (singles.find? fun kind => (spelled kind).isPrefixOf bytes) := by
    have parts : TokenKind.symbols = pairs ++ singles := rfl
    rw [symbol?, parts, List.find?_append]
  cases first : pairs.find? fun kind => (spelled kind).isPrefixOf bytes with
  | some pair =>
    rw [first, found] at shape
    cases shape
    rw [pair_length (List.mem_of_find?_eq_some first)]
    exact symbol_length_le listed
  | none =>
    have noPair : other ∉ pairs := fun pair =>
      List.find?_eq_none.mp first other pair (List.isPrefixOf_iff_prefix.mpr fits)
    rw [single_length ((mem_symbols.mp listed).resolve_left noPair)]
    exact symbol?_length_pos found

theorem symbol?_spelled {kind : TokenKind} {after : List UInt8} (listed : kind ∈ TokenKind.symbols)
    (alone : kind ∈ [.lt, .gt, .assign] → after.head? ≠ some (ascii '=')) :
    symbol? (spelled kind ++ after) = some kind := by
  have here : spelled kind <+: spelled kind ++ after := List.prefix_append _ _
  cases found : symbol? (spelled kind ++ after) with
  | none => exact absurd here (symbol?_none.mp found kind listed)
  | some other =>
    obtain ⟨isSymbol, fits⟩ := symbol?_some found
    have atMost := symbol?_longest found listed here
    have opens : spelled kind <+: spelled other := List.prefix_of_prefix_length_le here fits atMost
    rcases mem_symbols.mp listed with pair | single
    · have same : (spelled kind).length = (spelled other).length := by
        have bound := symbol_length_le isSymbol
        rw [pair_length pair] at atMost ⊢
        omega
      rw [spelled_inj listed isSymbol (opens.eq_of_length same)]
    · rcases mem_symbols.mp isSymbol with otherPair | otherSingle
      · obtain ⟨extensible, shape⟩ := pair_of_single otherPair single opens
        rw [shape, List.prefix_append_right_inj] at fits
        obtain ⟨tail, rfl⟩ := fits
        exact absurd rfl (alone extensible)
      · have same : (spelled kind).length = (spelled other).length := by
          rw [single_length single, single_length otherSingle]
        rw [spelled_inj listed isSymbol (opens.eq_of_length same)]

end Piece

end MiniC
