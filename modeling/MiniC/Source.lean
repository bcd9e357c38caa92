/-!
Source text and the places in it. Text is read as its UTF-8 bytes: a run of
bytes is decoded back into text, and a single byte is shown as the character
with that code point, raw or quoted with escapes.

A place is a byte offset from 0 with a line and a column from 1. Line 0 marks a
place that is not known. Places are ordered by line and column first; offset and
file name only break ties.

The lines of a file are learnt while it is scanned. The first line starts at
offset 0; a later start is kept only if it lies past the last one and before the
end of the file, so the starts grow and a newline that ends the file opens no
line. A place is resolved against the last start at or before it.
-/

namespace MiniC

namespace Text

def ascii (c : Char) : UInt8 := UInt8.ofNat c.toNat

def newline : UInt8 := ascii '\n'

def bytes (text : String) : List UInt8 := text.toUTF8.data.toList

def decode? (run : List UInt8) : Option String := String.fromUTF8? ⟨run.toArray⟩

/-- The text that a run of bytes stands for. Bytes that are no UTF-8, such as
one byte cut out of a longer character, are shown as U+FFFD. -/
def decode (run : List UInt8) : String := (decode? run).getD "\uFFFD"

/-- The character whose code point is the value of the byte. -/
def byteChar (b : UInt8) : Char := Char.ofNat b.toNat

/-- Control characters, the no-break space and the soft hyphen have no shape
of their own. -/
def isShown (b : UInt8) : Bool :=
  (0x20 ≤ b && b < 0x7F) || (0xA0 < b && b != 0xAD)

def escaped (b : UInt8) : String :=
  if b = 0 then "\\0"
  else if b = ascii '\t' then "\\t"
  else if b = ascii '\r' then "\\r"
  else if b = ascii '\n' then "\\n"
  else if b = ascii '\'' then "\\'"
  else if b = ascii '\\' then "\\\\"
  else if isShown b then (byteChar b).toString
  else "\\u\x7b" ++ String.ofList (Nat.toDigits 16 b.toNat) ++ "\x7d"

/-- A byte as a quoted character: escapes for the quote, the backslash and
what has no shape of its own. -/
def quotedByte (b : UInt8) : String := "'" ++ escaped b ++ "'"

/-- The number that a run of decimal digits writes. -/
def decimal (digits : String) : Nat :=
  digits.toList.foldl (fun value c => 10 * value + (c.toNat - '0'.toNat)) 0

/-- Strips `quote` from the front, if it stands there. -/
def dropOpening {α : Type} [DecidableEq α] (quote : α) : List α → List α
  | [] => []
  | c :: rest => if c = quote then rest else c :: rest

/-- Strips `quote` from the end, if it stands there. -/
def dropClosing {α : Type} [DecidableEq α] (quote : α) (text : List α) : List α :=
  if text.getLast? = some quote then text.dropLast else text

/-- What stands between the quotes of a literal. A literal without its closing
quote keeps all that follows the opening one. -/
def unquote {α : Type} [DecidableEq α] (quote : α) (text : List α) : List α :=
  dropClosing quote (dropOpening quote text)

/-- Whether `quote` opens the text and another `quote` closes it. -/
def isQuoted {α : Type} [DecidableEq α] (quote : α) : List α → Bool
  | [] => false
  | c :: rest => c = quote && rest.getLast? = some quote

end Text

structure Position where
  file : String
  offset : Nat
  line : Nat
  column : Nat
deriving DecidableEq

namespace Position

def unknown : Position := ⟨"", 0, 0, 0⟩

def isValid (place : Position) : Bool := 0 < place.line

def display (place : Position) : String :=
  if place.isValid then s!"({place.line}, {place.column})" else "(unknown)"

/-- Order by line and column alone. -/
def compareSpot (left right : Position) : Ordering :=
  (compare left.line right.line).then (compare left.column right.column)

instance : Ord Position where
  compare left right :=
    (left.compareSpot right).then <|
    (compare left.offset right.offset).then <|
    compare left.file right.file

def precedes (left right : Position) : Bool := (compare left right).isLE

def sorted (places : List Position) : List Position := places.mergeSort precedes

end Position

structure LineIndex where
  file : String
  size : Nat
  /-- Starts of the lines after the first, last line first. -/
  later : List Nat
deriving DecidableEq

namespace LineIndex

def ofSize (file : String) (size : Nat) : LineIndex := ⟨file, size, []⟩

def lastStart (lines : LineIndex) : Nat := lines.later.headD 0

def count (lines : LineIndex) : Nat := lines.later.length + 1

def add (lines : LineIndex) (start : Nat) : LineIndex :=
  if lines.lastStart < start ∧ start < lines.size then
    { lines with later := start :: lines.later }
  else lines

/-- The index as it stood when `offset` lay on its last line. -/
def upTo (lines : LineIndex) (offset : Nat) : LineIndex :=
  { lines with later := lines.later.dropWhile (offset < ·) }

def position (lines : LineIndex) (offset : Nat) : Position :=
  let seen := lines.upTo offset
  { file := lines.file
    offset
    line := seen.count
    column := offset - seen.lastStart + 1 }

end LineIndex

end MiniC
