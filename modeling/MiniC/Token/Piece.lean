import MiniC.Token.Basic
import MiniC.Token.Quoted

/-!
What a run of bytes begins with. Between tokens stand gaps: blanks, comments to
the end of the line, and block comments. A block comment ends at the first star
and slash after its two opening bytes; one that never ends takes the rest of the
source with it.

Where no gap stands in front, there is a token, the longest that fits. Names and
numbers extend as far as they can, a symbol of two characters wins over its
first half, and a byte that begins no token is a token of its own, so that
reading always gets on.
-/

namespace MiniC

structure Gap where
  length : Nat
  /-- Where a block comment starts that has no end, if there is one. -/
  unclosed : Option Nat
deriving DecidableEq

namespace Gap

open Text (ascii newline)

def isBlank (b : UInt8) : Bool :=
  b = ascii ' ' || b = ascii '\t' || b = newline || b = ascii '\r'

/-- What the bytes read so far leave the reader in. -/
inductive Place where
  | between
  | lineComment
  | blockComment (start : Nat)

/-- Measures the gap that the bytes begin with, `read` bytes into it. -/
def measure (read : Nat) : Place → List UInt8 → Gap
  | .between, [] => ⟨read, none⟩
  | .between, b :: rest =>
    if isBlank b then measure (read + 1) .between rest
    else if b = ascii '/' then
      match rest with
      | [] => ⟨read, none⟩
      | c :: tail =>
        if c = ascii '/' then measure (read + 2) .lineComment tail
        else if c = ascii '*' then measure (read + 2) (.blockComment read) tail
        else ⟨read, none⟩
    else ⟨read, none⟩
  | .lineComment, [] => ⟨read, none⟩
  | .lineComment, b :: rest =>
    if b = newline then measure (read + 1) .between rest
    else measure (read + 1) .lineComment rest
  | .blockComment start, [] => ⟨read, some start⟩
  | .blockComment start, b :: rest =>
    if b = ascii '*' then
      match rest with
      | [] => ⟨read + 1, some start⟩
      | c :: tail =>
        if c = ascii '/' then measure (read + 2) .between tail
        else measure (read + 1) (.blockComment start) (c :: tail)
    else measure (read + 1) (.blockComment start) rest

def ofBytes (bytes : List UInt8) : Gap := measure 0 .between bytes

end Gap

structure Piece where
  kind : TokenKind
  length : Nat
  faults : List PlacedFault
deriving DecidableEq

namespace Piece

open Text (ascii)

def isLetter (b : UInt8) : Bool :=
  (ascii 'a' ≤ b && b ≤ ascii 'z') || (ascii 'A' ≤ b && b ≤ ascii 'Z') || b = ascii '_'

def isDigit (b : UInt8) : Bool := ascii '0' ≤ b && b ≤ ascii '9'

def isWordByte (b : UInt8) : Bool := isLetter b || isDigit b

def word (bytes : List UInt8) : Piece :=
  let run := bytes.takeWhile isWordByte
  ⟨(TokenKind.keyword? (Text.decode run)).getD .ident, run.length, []⟩

def number (bytes : List UInt8) : Piece :=
  ⟨.intLit, (bytes.takeWhile isDigit).length, []⟩

/-- A string literal, from what follows its opening quote. -/
def string (inside : List UInt8) : Piece :=
  let quoted := Quoted.ofBytes (ascii '"') inside
  { kind := .strLit
    length := quoted.length + 1
    faults := (Quoted.unitFaults quoted.units).map (PlacedFault.shift 1) ++
      (if quoted.isClosed then [] else [⟨0, .unclosedString⟩]) }

/-- A character literal, from what follows its opening quote. An empty one is
a token without fault. -/
def char (inside : List UInt8) : Piece :=
  let quoted := Quoted.ofBytes (ascii '\'') inside
  { kind := .charLit
    length := quoted.length + 1
    faults := (Quoted.unitFaults quoted.units).map (PlacedFault.shift 1) ++
      (if quoted.isClosed then [] else [⟨0, .unclosedChar⟩]) ++
      (if 1 < Quoted.count quoted.units then [⟨0, .crowdedChar⟩] else []) }

/-- The bytes of a kind with one spelling; none for the other kinds. -/
def spelled (kind : TokenKind) : List UInt8 := Text.bytes (kind.spelling?.getD "")

def symbol? (bytes : List UInt8) : Option TokenKind :=
  TokenKind.symbols.find? fun kind => (spelled kind).isPrefixOf bytes

/-- The end of the source is a token of no length. -/
def ofBytes : List UInt8 → Piece
  | [] => ⟨.eof, 0, []⟩
  | b :: rest =>
    if isLetter b then word (b :: rest)
    else if isDigit b then number (b :: rest)
    else if b = ascii '"' then string rest
    else if b = ascii '\'' then char rest
    else
      match symbol? (b :: rest) with
      | some kind => ⟨kind, (spelled kind).length, []⟩
      | none => ⟨.illegal, 1, [⟨0, .illegalByte b⟩]⟩

theorem takeWhile_length_pos {b : UInt8} {rest : List UInt8} {member : UInt8 → Bool}
    (first : member b = true) : 0 < ((b :: rest).takeWhile member).length := by
  simp [first]

theorem spelled_length_pos (kind : TokenKind) (listed : kind ∈ TokenKind.symbols) :
    0 < (spelled kind).length := by
  revert kind
  decide

theorem symbol?_length_pos {bytes : List UInt8} {kind : TokenKind}
    (found : symbol? bytes = some kind) : 0 < (spelled kind).length :=
  spelled_length_pos kind (List.mem_of_find?_eq_some found)

/-- A token takes at least one byte, as long as there is one. -/
theorem ofBytes_length_pos (bytes : List UInt8) (more : bytes ≠ []) :
    0 < (ofBytes bytes).length := by
  cases bytes with
  | nil => contradiction
  | cons b rest =>
    simp only [ofBytes]
    split
    · next letter => exact takeWhile_length_pos (by simp [isWordByte, letter])
    split
    · next digit => exact takeWhile_length_pos digit
    split
    · exact Nat.succ_pos _
    split
    · exact Nat.succ_pos _
    split
    · next found => exact symbol?_length_pos found
    · exact Nat.one_pos

end Piece

end MiniC
