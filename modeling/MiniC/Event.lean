import MiniC.Syntax

/-!
What happens while a file is compiled, in order. The log is the one record of
a compilation: the diagnostics raised are the problems in it. Each entry has a
level, a message and named fields, so that a reader can choose how much to see.
-/

namespace MiniC

inductive Event where
  | token (token : Token)
  | problem (diagnostic : Diagnostic)
  | parsedFunction (name : String) (params : Nat) (pos : Position)
  | parsedFile (file : String) (decls lines : Nat)
  | checkFunction (name : String) (returns : Ty) (params : Nat)
  | openBlock (depth : Nat)
  | closeBlock (depth : Nat)
  | addSymbol (name : String) (id : Nat) (isConst : Bool) (depth : Nat)
  | compiled (file : String) (lines syntactic total : Nat)
deriving DecidableEq

abbrev Log := List Event

/-- How much a reader wants to see, from the least to the most. -/
inductive LogLevel where
  | info | debug | trace
deriving DecidableEq

namespace LogLevel

def rank : LogLevel → Nat
  | .info => 0
  | .debug => 1
  | .trace => 2

def name : LogLevel → String
  | .info => "INFO"
  | .debug => "DEBUG"
  | .trace => "TRACE"

end LogLevel

inductive FieldValue where
  | number (n : Nat)
  | flag (b : Bool)
  | text (s : String)
deriving DecidableEq

namespace Event

def diagnostic? : Event → Option Diagnostic
  | .problem d => some d
  | _ => none

def level : Event → LogLevel
  | .token _ | .problem _ => .trace
  | .compiled .. => .info
  | _ => .debug

def message : Event → String
  | .token _ => "next token"
  | .problem _ => "diagnostic"
  | .parsedFunction .. => "parsed function declaration"
  | .parsedFile .. => "parsed file"
  | .checkFunction .. => "check function"
  | .openBlock _ => "create code block"
  | .closeBlock _ => "destroy code block"
  | .addSymbol .. => "add symbol"
  | .compiled .. => "compiled"

def fields : Event → List (String × FieldValue)
  | .token t =>
    [("token", .text t.kind.code), ("lit", .text t.text), ("pos", .text t.pos.display)]
  | .problem d => [("kind", .text d.kind.name), ("pos", .text d.pos.display)]
  | .parsedFunction name params pos =>
    [("name", .text name), ("params", .number params), ("pos", .text pos.display)]
  | .parsedFile file decls lines =>
    [("file", .text file), ("decls", .number decls), ("lines", .number lines)]
  | .checkFunction name returns params =>
    [("name", .text name), ("return_ty", .text returns.display), ("params", .number params)]
  | .openBlock depth => [("depth", .number depth)]
  | .closeBlock depth => [("depth", .number depth)]
  | .addSymbol name id isConst depth =>
    [("name", .text name), ("unique_id", .number id), ("is_const", .flag isConst),
     ("depth", .number depth)]
  | .compiled file lines syntactic total =>
    [("file", .text file), ("lines", .number lines), ("syntax_errors", .number syntactic),
     ("total_errors", .number total)]

end Event

namespace Log

/-- The diagnostics in the order in which they were raised. -/
def raised (log : Log) : List Diagnostic := log.filterMap Event.diagnostic?

def report (log : Log) : Report := Report.ofRaised log.raised

def upTo (limit : LogLevel) (log : Log) : Log :=
  log.filter (·.level.rank ≤ limit.rank)

end Log

end MiniC
