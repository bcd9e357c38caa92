import MiniC.Compilation

/-!
The command line, as a function of what the file system answers: the contents
of the input, and whether the output could be created. A run ends with code 0
for a clean file, 1 when something was reported, and 2 when a file could not be
used. Messages go to the error stream, and the listing too, unless an output
file is named.
-/

namespace MiniC

inductive Emit where
  | tokens | diagnostics
deriving DecidableEq

structure Command where
  input : String
  output : Option String := none
  emit : Emit := .diagnostics
  /-- Whether diagnostics are shown as soon as they are raised. -/
  stream : Bool := false
  verbosity : Nat := 0
deriving DecidableEq

/-- Why a file could not be used. -/
inductive FileFault where
  | missing | denied | isDirectory
  /-- The contents are no UTF-8. -/
  | noText
  | other (reason : String)
deriving DecidableEq

def FileFault.reason : FileFault → String
  | .missing => "No such file or directory (os error 2)"
  | .denied => "Permission denied (os error 13)"
  | .isDirectory => "Is a directory (os error 21)"
  | .noText => "stream did not contain valid UTF-8"
  | .other reason => reason

inductive CommandError where
  | unreadable (path : String) (fault : FileFault)
  | unwritable (fault : FileFault)
  | reported (count : Nat)
deriving DecidableEq

namespace CommandError

def exitCode : CommandError → Nat
  | .reported _ => 1
  | .unreadable _ _ | .unwritable _ => 2

def message : CommandError → String
  | .unreadable path fault => "failed to read " ++ path ++ ": " ++ fault.reason
  | .unwritable fault => "failed to write output: " ++ fault.reason
  | .reported count => toString count ++ " diagnostic(s) reported"

def line (error : CommandError) : String := "error: " ++ error.message ++ "\n"

end CommandError

/-- What goes to the error stream. -/
inductive Printed where
  | log (line : String)
  | text (s : String)
deriving DecidableEq

/-- All that a run leaves behind. -/
structure Transcript where
  printed : List Printed
  /-- What the output file holds, if one was written. -/
  output : Option String
  exitCode : Nat
deriving DecidableEq

namespace Transcript

def messages (transcript : Transcript) : String :=
  String.join (transcript.printed.map fun
    | .text s => s
    | .log _ => "")

def failed (error : CommandError) : Transcript := ⟨[.text error.line], none, error.exitCode⟩

end Transcript

namespace FieldValue

def display : FieldValue → String
  | number n => toString n
  | flag b => if b then "true" else "false"
  | text s => s

end FieldValue

def Event.line (event : Event) : String :=
  event.level.name ++ " " ++ event.message ++
    String.join (event.fields.map fun (name, value) => " " ++ name ++ "=" ++ value.display) ++ "\n"

/-- The quote around a literal of the kind. -/
def TokenKind.quote? : TokenKind → Option Char
  | .charLit => some '\''
  | .strLit => some '"'
  | _ => none

/-- The text of a token, without the quotes of a literal that has both. -/
def Token.content (token : Token) : String :=
  match token.kind.quote? with
  | none => token.text
  | some quote =>
    let chars := token.text.toList
    if Text.isQuoted quote chars then String.ofList chars.tail.dropLast else token.text

def Token.listing (token : Token) : String := token.kind.code ++ " " ++ token.content ++ "\n"

/-- One line per token, the end left out. -/
def listing (tokens : List Token) : String :=
  String.join ((tokens.filter (·.kind ≠ .eof)).map Token.listing)

/-- What a source comes to: the text asked for, the report, and the log. -/
structure Product where
  text : String
  report : Report
  log : Log

namespace Command

def product (command : Command) (source : String) : Product :=
  match command.emit with
  | .tokens =>
    let (tokens, report) := tokenize command.input source
    ⟨listing tokens ++ report.render, report, report.raised.map .problem⟩
  | .diagnostics =>
    let compilation := compile command.input source
    ⟨compilation.report.render, compilation.report, compilation.log⟩

def streams (command : Command) : Bool := command.stream && command.emit = .diagnostics

def logLevel (command : Command) : LogLevel :=
  match command.verbosity with
  | 0 => .info
  | 1 => .debug
  | _ => .trace

/-- What is printed the moment an event happens. -/
def printedAt (command : Command) (event : Event) : List Printed :=
  let logged := if event.level.rank ≤ command.logLevel.rank then [.log event.line] else []
  match event with
  | .problem d => if command.streams then logged ++ [.text d.line] else logged
  | _ => logged

/-- Streamed diagnostics are not printed a second time. -/
def finalText (command : Command) (product : Product) : List Printed :=
  if command.output.isNone && !command.streams then [.text product.text] else []

def verdict (report : Report) : Option CommandError :=
  if report.isEmpty then none else some (.reported report.size)

def process (command : Command) (source : String) : Transcript :=
  let product := command.product source
  let error := verdict product.report
  { printed := product.log.flatMap command.printedAt ++ command.finalText product ++
      (error.map fun e => .text e.line).toList
    output := command.output.map fun _ => product.text
    exitCode := (error.map CommandError.exitCode).getD 0 }

/-- The source in a file, if the file can be read and holds text. -/
def source (contents : Except FileFault (List UInt8)) : Except FileFault String := do
  match Text.decode? (← contents) with
  | some source => pure source
  | none => throw .noText

/-- The whole run. The input is read before the output is created, so only the
first of two failures shows. -/
def run (command : Command) (contents : Except FileFault (List UInt8))
    (created : Except FileFault Unit) : Transcript :=
  match source contents, created with
  | .error fault, _ => .failed (.unreadable command.input fault)
  | .ok _, .error fault => .failed (.unwritable fault)
  | .ok source, .ok () => command.process source

end Command

/-- Arguments as far as they were read; the input may still be missing. -/
structure Arguments where
  input : Option String := none
  output : Option String := none
  emit : Emit := .diagnostics
  stream : Bool := false
  verbosity : Nat := 0

namespace Arguments

def emit? : String → Option Emit
  | "tokens" => some .tokens
  | "diagnostics" => some .diagnostics
  | _ => none

/-- How often `-v`, `-vv` and so on ask for more. -/
def verbosity? (argument : String) : Option Nat :=
  match argument.toList with
  | '-' :: 'v' :: more => if more.all (· = 'v') then some (more.length + 1) else none
  | _ => none

def read (sofar : Arguments) : List String → Option Arguments
  | [] => some sofar
  | "--stream" :: rest => read { sofar with stream := true } rest
  | "--verbose" :: rest => read { sofar with verbosity := sofar.verbosity + 1 } rest
  | "--output" :: path :: rest | "-o" :: path :: rest => read { sofar with output := some path } rest
  | "--emit" :: what :: rest => do
    let emit ← emit? what
    read { sofar with emit } rest
  | argument :: rest =>
    match verbosity? argument with
    | some more => read { sofar with verbosity := sofar.verbosity + more } rest
    | none =>
      if sofar.input.isSome || "-".isPrefixOf argument then none
      else read { sofar with input := some argument } rest

/-- An option and its value may be one argument with an equals sign. -/
def split (argument : String) : List String :=
  let chars := argument.toList
  if "--".isPrefixOf argument && chars.contains '=' then
    [String.ofList (chars.takeWhile (· ≠ '=')), String.ofList (chars.dropWhile (· ≠ '=')).tail]
  else [argument]

def command? (arguments : Arguments) : Option Command :=
  arguments.input.map fun input =>
    { input
      output := arguments.output
      emit := arguments.emit
      stream := arguments.stream
      verbosity := arguments.verbosity }

end Arguments

def Command.ofArguments? (arguments : List String) : Option Command := do
  (← Arguments.read {} (arguments.flatMap Arguments.split)).command?

def Command.usage : String :=
  "usage: minic [--emit tokens|diagnostics] [--stream] [--output FILE] [-v] FILE\n"

end MiniC
