import MiniC.Proofs.Syntax.Spelled
import MiniC.Proofs.Token.Joined

/-!
Words with a blank behind each of them are scanned word by word: a name, a number
and a symbol end at the blank, and none of them begins a comment there. So every
list of tokens that are written as such words has a source.
-/

namespace MiniC

open Text (ascii)

namespace Text

/-- A name, a number, a keyword or a symbol. -/
def isWord (text : String) : Bool :=
  match bytes text with
  | [] => false
  | b :: run =>
    (Piece.isLetter b && run.all Piece.isWordByte) || (Piece.isDigit b && run.all Piece.isDigit) ||
      TokenKind.symbols.any (·.spelling? = some text)

/-- The words with a blank behind each. -/
def spaced (words : List String) : String := String.join (words.map (· ++ " "))

theorem bytes_spaced_cons (word : String) (later : List String) :
    bytes (spaced (word :: later)) = bytes word ++ ascii ' ' :: bytes (spaced later) := by
  have blank : bytes " " = [ascii ' '] := by decide
  unfold spaced
  rw [List.map_cons, String.join_cons, bytes_append, bytes_append, blank, List.append_assoc]
  rfl

/-- A word is written as its kind. -/
theorem isWritten_of_isWord {text : String} (word : isWord text = true) :
    (TokenKind.ofText text).IsWritten text := by
  unfold isWord at word
  cases shape : bytes text with
  | nil =>
    rw [shape] at word
    cases word
  | cons b run =>
    rw [shape] at word
    rw [Bool.or_eq_true, Bool.or_eq_true, Bool.and_eq_true, Bool.and_eq_true, List.all_eq_true,
      List.all_eq_true, List.any_eq_true] at word
    rcases word with (⟨letter, inside⟩ | ⟨digit, inside⟩) | ⟨kind, listed, spelling⟩
    · rw [Piece.ofText_word letter shape]
      cases found : TokenKind.keyword? text with
      | some kind =>
        have listed : kind ∈ TokenKind.keywords := List.mem_of_find?_eq_some found
        exact .fixed (List.mem_append_left _ listed) (TokenKind.keyword?_spelling found)
      | none => exact .name shape letter inside (TokenKind.keyword?_eq_none found)
    · rw [Piece.ofText_literal shape (Piece.noLetter_of_isDigit digit) (.inl digit),
        Piece.ofFirst_digit digit]
      exact .number shape (List.forall_mem_cons.mpr ⟨digit, inside⟩)
    · have spells := of_decide_eq_true spelling
      rw [TokenKind.ofText_spelling (List.mem_append_right _ listed) spells]
      exact .fixed (List.mem_append_right _ listed) spells

end Text

open Text (isWord spaced)

/-- The words are what the tokens are written as. -/
def Written.AreWords : List Written → List String → Prop :=
  List.Forall₂ fun written word =>
    isWord word = true ∧ written.Spells ⟨.ofText word, word, .unknown⟩

instance (text : List Written) (words : List String) : Decidable (Written.AreWords text words) :=
  inferInstanceAs (Decidable (List.Forall₂ _ text words))

theorem Written.AreWords.append {text more : List Written} {words others : List String}
    (sooner : Written.AreWords text words) (later : Written.AreWords more others) :
    Written.AreWords (text ++ more) (words ++ others) :=
  List.rel_append sooner later

/-- It does not matter where a token stands. -/
theorem Written.Spells.anywhere {written : Written} {kind : TokenKind} {text : String}
    {pos other : Position} (spells : written.Spells ⟨kind, text, pos⟩) :
    written.Spells ⟨kind, text, other⟩ := by
  cases written <;> exact spells

namespace Cursor

theorem scanAll_spaced {text : List Written} {words : List String}
    (areWords : Written.AreWords text words) {cursor : Cursor} {gap : List UInt8}
    (fills : Gap.Fills gap) (rest : cursor.rest = gap ++ Text.bytes (spaced words)) :
    Spelled text cursor.scanAll.lexemes [] := by
  induction areWords generalizing cursor gap with
  | nil =>
    have ended : cursor.rest = gap := rest.trans (List.append_nil gap)
    have isEnd : cursor.scan.1.token.kind = .eof := by
      rw [scan_kind, ended, Gap.ofBytes_last (.whole fills), List.drop_length]
      rfl
    rw [scanAll, dif_pos isEnd]
    exact .nil []
  | @cons written word text later isWritten areWords ih =>
    obtain ⟨fits, spells⟩ := isWritten
    have isBlank : Gap.isBlank (ascii ' ') = true := by decide
    have parts : Gap.Parts (ascii ' ' :: Text.bytes (spaced later)) := by
      rintro _ ⟨⟩
      exact isBlank
    rw [Text.bytes_spaced_cons] at rest
    have wordWritten := Text.isWritten_of_isWord fits
    obtain ⟨behind, kind, same, _⟩ := scan_written wordWritten fills parts rest
    have found : cursor.scan.1.token.kind ≠ .eof := kind ▸ wordWritten.ne_eof
    rw [scanAll, dif_neg found]
    refine .cons ?_ (ih (.cons (.blank isBlank) .nil) behind)
    have token : cursor.scan.1.token = ⟨.ofText word, word, cursor.scan.1.token.pos⟩ :=
      (Token.mk.injEq ..).mpr ⟨kind, same, rfl⟩
    rw [token]
    exact spells.anywhere

end Cursor

/-- What is written in words can be read. -/
theorem Scanned.ofSource_spaced {text : List Written} {words : List String}
    (areWords : Written.AreWords text words) (name : String) :
    Spelled text (Scanned.ofSource name (spaced words)).lexemes [] :=
  Cursor.scanAll_spaced areWords .nil rfl

end MiniC
