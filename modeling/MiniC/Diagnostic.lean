import MiniC.Source

/-!
Diagnostics. Each has a kind, which belongs to a phase: scanning and reading
together make up the syntax of a file; the other kinds come from checking. A
diagnostic is one remark about the source: where it applies, what kind it is,
and its words.

All diagnostics of one compilation make up its report. At one line and column
the latest remark replaces the ones before it, so a cascade on one token leaves
one line of output; remarks without a known place are all kept, after the placed
ones. The full history stays available in the order in which it was raised.
-/

namespace MiniC

inductive Phase where
  | scanning | reading | checking
deriving DecidableEq

inductive DiagnosticKind where
  | expected | semicolonExpected | rParenExpected | rBrackExpected
  | illegalCharacter | unterminatedLiteral | malformedEscape | multiCharLiteral
  | nestingTooDeep
  | redefine | compositeLitSizeError | emptyCharOrStringLit | missingMain
  | undefine | argNumberNotMatched | argTypeNotMatched | indexTypeNotAllowed
  | typeMismatch | relationalNotAllowed | condValueNotMatched
  | returnValueNotAllowed | returnValueRequired | updateConstValue
  | switchTypeError | defaultExpected | duplicateDefault
deriving DecidableEq

namespace DiagnosticKind

def all : List DiagnosticKind :=
  [.expected, .semicolonExpected, .rParenExpected, .rBrackExpected,
   .illegalCharacter, .unterminatedLiteral, .malformedEscape, .multiCharLiteral,
   .nestingTooDeep,
   .redefine, .compositeLitSizeError, .emptyCharOrStringLit, .missingMain,
   .undefine, .argNumberNotMatched, .argTypeNotMatched, .indexTypeNotAllowed,
   .typeMismatch, .relationalNotAllowed, .condValueNotMatched,
   .returnValueNotAllowed, .returnValueRequired, .updateConstValue,
   .switchTypeError, .defaultExpected, .duplicateDefault]

def phase : DiagnosticKind → Phase
  | .illegalCharacter | .unterminatedLiteral | .malformedEscape
  | .multiCharLiteral => .scanning
  | .expected | .semicolonExpected | .rParenExpected | .rBrackExpected
  | .nestingTooDeep => .reading
  | _ => .checking

def isSyntactic (kind : DiagnosticKind) : Bool := kind.phase != .checking

def name : DiagnosticKind → String
  | .expected => "Expected"
  | .semicolonExpected => "SemicolonExpected"
  | .rParenExpected => "RParenExpected"
  | .rBrackExpected => "RBrackExpected"
  | .illegalCharacter => "IllegalCharacter"
  | .unterminatedLiteral => "UnterminatedLiteral"
  | .malformedEscape => "MalformedEscape"
  | .multiCharLiteral => "MultiCharLiteral"
  | .nestingTooDeep => "NestingTooDeep"
  | .redefine => "Redefine"
  | .compositeLitSizeError => "CompositeLitSizeError"
  | .emptyCharOrStringLit => "EmptyCharOrStringLit"
  | .missingMain => "MissingMain"
  | .undefine => "Undefine"
  | .argNumberNotMatched => "ArgNumberNotMatched"
  | .argTypeNotMatched => "ArgTypeNotMatched"
  | .indexTypeNotAllowed => "IndexTypeNotAllowed"
  | .typeMismatch => "TypeMismatch"
  | .relationalNotAllowed => "RelationalNotAllowed"
  | .condValueNotMatched => "CondValueNotMatched"
  | .returnValueNotAllowed => "ReturnValueNotAllowed"
  | .returnValueRequired => "ReturnValueRequired"
  | .updateConstValue => "UpdateConstValue"
  | .switchTypeError => "SwitchTypeError"
  | .defaultExpected => "DefaultExpected"
  | .duplicateDefault => "DuplicateDefault"

def ofName? (text : String) : Option DiagnosticKind :=
  all.find? (·.name == text)

end DiagnosticKind

structure Diagnostic where
  pos : Position
  kind : DiagnosticKind
  message : String
deriving DecidableEq

namespace Diagnostic

def display (d : Diagnostic) : String := d.pos.display ++ " :: " ++ d.message

def line (d : Diagnostic) : String := d.display ++ "\n"

end Diagnostic

structure Report where
  /-- One remark per line and column, against source order: most remarks come
  later in the source than those before them. -/
  placed : List Diagnostic
  /-- Remarks without a known place, in order of addition. -/
  unplaced : List Diagnostic
  /-- Everything ever added, latest first. -/
  history : List Diagnostic
deriving DecidableEq

namespace Report

def empty : Report := ⟨[], [], []⟩

/-- Enters a remark at its place, instead of one at the same line and column. -/
def enter (d : Diagnostic) : List Diagnostic → List Diagnostic
  | [] => [d]
  | e :: rest =>
    match d.pos.compareSpot e.pos with
    | .gt => d :: e :: rest
    | .eq => d :: rest
    | .lt => e :: enter d rest

def add (report : Report) (d : Diagnostic) : Report :=
  if d.pos.isValid then
    { report with placed := enter d report.placed, history := d :: report.history }
  else
    { report with unplaced := report.unplaced ++ [d], history := d :: report.history }

def addAll (report : Report) (raised : List Diagnostic) : Report :=
  raised.foldl add report

def ofRaised (raised : List Diagnostic) : Report := empty.addAll raised

def raised (report : Report) : List Diagnostic := report.history.reverse

/-- In source order, those without a place last. -/
def toList (report : Report) : List Diagnostic := report.placed.reverse ++ report.unplaced

def size (report : Report) : Nat := report.toList.length

def isEmpty (report : Report) : Bool := report.size == 0

def kinds (report : Report) : List DiagnosticKind := report.toList.map (·.kind)

def countOf (report : Report) (kind : DiagnosticKind) : Nat :=
  report.toList.countP (·.kind == kind)

def syntacticCount (report : Report) : Nat :=
  report.toList.countP (·.kind.isSyntactic)

def render (report : Report) : String :=
  String.join (report.toList.map Diagnostic.line)

end Report

end MiniC
