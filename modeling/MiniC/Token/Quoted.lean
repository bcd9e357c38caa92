import MiniC.Diagnostic

/-!
Faults of single tokens, and the inside of a string or character literal after
its opening quote. It is a run of units, each a plain byte or an escape, up to
the closing quote or up to a newline or the end of the source, which it never
takes in. A bad escape is a unit as well, so reading goes on behind it.
-/

namespace MiniC

inductive LexicalFault where
  | illegalByte (b : UInt8)
  | unclosedComment
  | unclosedString
  | unclosedChar
  /-- A backslash before a newline or the end of the source. -/
  | unfinishedEscape
  | unknownEscape (b : UInt8)
  | crowdedChar
deriving DecidableEq

namespace LexicalFault

def kind : LexicalFault → DiagnosticKind
  | .illegalByte _ => .illegalCharacter
  | .unclosedComment | .unclosedString | .unclosedChar => .unterminatedLiteral
  | .unfinishedEscape | .unknownEscape _ => .malformedEscape
  | .crowdedChar => .multiCharLiteral

def message : LexicalFault → String
  | .illegalByte b =>
    if b = Text.ascii '!' then "unexpected '!', expected '!='"
    else if b = 0 then "illegal character NUL"
    else "illegal character " ++ Text.quotedByte b
  | .unclosedComment => "block comment not terminated"
  | .unclosedString => "string literal not terminated"
  | .unclosedChar => "char literal not terminated"
  | .unfinishedEscape => "escape sequence not terminated"
  | .unknownEscape b => "unknown escape sequence \\" ++ (Text.byteChar b).toString
  | .crowdedChar => "char literal must hold exactly one character"

def diagnose (fault : LexicalFault) (pos : Position) : Diagnostic :=
  ⟨pos, fault.kind, fault.message⟩

end LexicalFault

/-- A fault and its distance from the first byte of the run it was found in. -/
structure PlacedFault where
  offset : Nat
  fault : LexicalFault
deriving DecidableEq

def PlacedFault.shift (distance : Nat) (placed : PlacedFault) : PlacedFault :=
  { placed with offset := distance + placed.offset }

inductive QuotedUnit where
  | plain (b : UInt8)
  /-- A backslash and the byte after it. -/
  | escape (b : UInt8)
  /-- A backslash with nothing left on its line to escape. -/
  | cutEscape
deriving DecidableEq

namespace QuotedUnit

open Text (ascii)

def escapable : List UInt8 :=
  [ascii 'n', ascii 't', ascii 'r', ascii '\\', ascii '0', ascii '\'', ascii '"']

def length : QuotedUnit → Nat
  | .plain _ | .cutEscape => 1
  | .escape _ => 2

/-- The fault of a unit stands at the byte after its backslash. -/
def faults : QuotedUnit → List PlacedFault
  | .plain _ => []
  | .escape b => if b ∈ escapable then [] else [⟨1, .unknownEscape b⟩]
  | .cutEscape => [⟨1, .unfinishedEscape⟩]

end QuotedUnit

structure Quoted where
  units : List QuotedUnit
  isClosed : Bool
deriving DecidableEq

namespace Quoted

open Text (ascii newline)

def prepend (unit : QuotedUnit) (quoted : Quoted) : Quoted :=
  { quoted with units := unit :: quoted.units }

def ofBytes (quote : UInt8) : List UInt8 → Quoted
  | [] => ⟨[], false⟩
  | b :: rest =>
    if b = newline then ⟨[], false⟩
    else if b = quote then ⟨[], true⟩
    else if b = ascii '\\' then
      match rest with
      | [] => ⟨[.cutEscape], false⟩
      | c :: tail =>
        if c = newline then ⟨[.cutEscape], false⟩
        else (ofBytes quote tail).prepend (.escape c)
    else (ofBytes quote rest).prepend (.plain b)

/-- The number of units, counted in 32 bits: behind the greatest count comes the least. -/
def count : List QuotedUnit → Int32
  | [] => 0
  | _ :: rest => count rest + 1

def unitsLength : List QuotedUnit → Nat
  | [] => 0
  | unit :: rest => unit.length + unitsLength rest

/-- Bytes taken, the closing quote among them. -/
def length (quoted : Quoted) : Nat :=
  unitsLength quoted.units + (if quoted.isClosed then 1 else 0)

def unitFaults : List QuotedUnit → List PlacedFault
  | [] => []
  | unit :: rest =>
    unit.faults ++ (unitFaults rest).map (PlacedFault.shift unit.length)

end Quoted

end MiniC
