import MiniC.Token.Cursor
import MiniC.Event

/-!
Parsers. The tokens still to be read make up a stream. The end of the source is
no token of its list; it is what the stream shows once the list is used up, and
it stays there.

A parser reads tokens from the front of a stream and always gives a value; what
it finds wrong with their order goes into its log. The log also tells the way
from the stream to what is left of it: each token that is reached is logged,
after the faults found on the way to it. A parser carries the proof that it logs
just that, so it can neither drop a token nor make one up, and leaves a rest of
its stream.
-/

namespace MiniC

/-- What a production looks for. -/
inductive Wanted where
  | token (kind : TokenKind)
  | declaration | parameterType | arraySize
  | itemAfterComma | commaOrBrace | signedItem | compositeItem
  | statement | clause | operand
deriving DecidableEq

def Wanted.description : Wanted → String
  | .token kind => kind.description
  | .declaration => "declaration"
  | .parameterType => "parameter type"
  | .arraySize => "array size"
  | .itemAfterComma => "literal after ','"
  | .commaOrBrace => "',' or '\x7d' in composite literal"
  | .signedItem => "literal or identifier after sign"
  | .compositeItem => "literal in composite literal"
  | .statement => "statement"
  | .clause => "'case' or 'default'"
  | .operand => "operand"

/-- Levels of nested statements and expressions that are read. -/
def maxNesting : Nat := 100

inductive GrammarProblem where
  | missing (wanted : Wanted) (found : Token)
  | tooDeep
  | constFunction
  | nestedFunction
  | voidVariable
  | hugeArraySize (digits : String)
deriving DecidableEq

namespace GrammarProblem

def kind : GrammarProblem → DiagnosticKind
  | .missing (.token .semicolon) _ => .semicolonExpected
  | .missing (.token .rParen) _ => .rParenExpected
  | .missing (.token .rBracket) _ => .rBrackExpected
  | .tooDeep => .nestingTooDeep
  | _ => .expected

def message : GrammarProblem → String
  | .missing wanted found => "expected " ++ wanted.description ++ ", found " ++ found.shown
  | .tooDeep => "nesting exceeds " ++ toString maxNesting ++ " levels"
  | .constFunction => "function declaration cannot be const"
  | .nestedFunction => "function declared inside a code block"
  | .voidVariable => "variable cannot be declared void"
  | .hugeArraySize digits => "array size " ++ digits ++ " out of range"

def diagnose (problem : GrammarProblem) (pos : Position) : Diagnostic :=
  ⟨pos, problem.kind, problem.message⟩

end GrammarProblem

structure Stream where
  upcoming : List Lexeme
  endPos : Position
  /-- Faults found between the last token and the end. -/
  endFaults : List Diagnostic
  /-- The number of tokens, counted once. -/
  remaining : Nat := upcoming.length
  remaining_eq : remaining = upcoming.length := by rfl

namespace Stream

def ofScanned (scanned : Scanned) : Stream :=
  { upcoming := scanned.lexemes
    endPos := scanned.ending.token.pos
    endFaults := scanned.ending.faults }

def ending (stream : Stream) : Lexeme := ⟨⟨.eof, "", stream.endPos⟩, stream.endFaults⟩

def current (stream : Stream) : Lexeme := stream.upcoming.headD stream.ending

def token (stream : Stream) : Token := stream.current.token

def kinds (stream : Stream) : List TokenKind := stream.upcoming.map (·.token.kind)

def tail (stream : Stream) : Stream :=
  { stream with
    upcoming := stream.upcoming.tail
    remaining := stream.remaining - 1
    remaining_eq := by rw [List.length_tail, stream.remaining_eq] }

theorem ext_tokens {left right : Stream} (upcoming : left.upcoming = right.upcoming)
    (endPos : left.endPos = right.endPos) (endFaults : left.endFaults = right.endFaults) :
    left = right := by
  have count : left.remaining = right.remaining := by
    rw [left.remaining_eq, right.remaining_eq, upcoming]
  cases left
  cases right
  simp_all

/-- What is left of a stream after some of its tokens were read. -/
structure IsRest (rest stream : Stream) : Prop where
  suffix : rest.upcoming <:+ stream.upcoming
  endPos : rest.endPos = stream.endPos
  endFaults : rest.endFaults = stream.endFaults

namespace IsRest

theorem refl (stream : Stream) : stream.IsRest stream :=
  ⟨List.suffix_rfl, rfl, rfl⟩

theorem trans {last middle first : Stream} (later : last.IsRest middle)
    (sooner : middle.IsRest first) : last.IsRest first :=
  ⟨later.suffix.trans sooner.suffix, later.endPos.trans sooner.endPos,
    later.endFaults.trans sooner.endFaults⟩

theorem tail (stream : Stream) : stream.tail.IsRest stream :=
  ⟨List.tail_suffix _, rfl, rfl⟩

theorem remaining_le {rest stream : Stream} (isRest : rest.IsRest stream) :
    rest.remaining ≤ stream.remaining := by
  rw [rest.remaining_eq, stream.remaining_eq]
  exact isRest.suffix.length_le

/-- A rest with as many tokens as its stream is the whole stream. -/
theorem eq_of_remaining {rest stream : Stream} (isRest : rest.IsRest stream)
    (same : stream.remaining ≤ rest.remaining) : rest = stream := by
  rw [rest.remaining_eq, stream.remaining_eq] at same
  exact ext_tokens (isRest.suffix.eq_of_length_le same) isRest.endPos isRest.endFaults

end IsRest

end Stream

/-- What reaching the current token of a stream logs. -/
def Stream.arrival (stream : Stream) : Log :=
  stream.current.faults.map .problem ++ [.token stream.token]

/-- What a parser has to say besides the tokens it reaches. -/
inductive Remark where
  | problem (pos : Position) (cause : GrammarProblem)
  | parsedFunction (name : String) (params : Nat) (pos : Position)
  | parsedFile (file : String) (decls lines : Nat)

def Remark.event : Remark → Event
  | problem pos cause => .problem (cause.diagnose pos)
  | parsedFunction name params pos => .parsedFunction name params pos
  | parsedFile file decls lines => .parsedFile file decls lines

/-- How a log leads from a stream to one of its rests. At the end of the source
the end is reached again, without its faults. -/
inductive Passage : Stream → Log → Stream → Prop where
  | stay (stream : Stream) : Passage stream [] stream
  | remark {stream rest : Stream} {log : Log} (remark : Remark) :
      Passage stream log rest → Passage stream (remark.event :: log) rest
  | pass {stream rest : Stream} {log : Log} (more : stream.upcoming ≠ []) :
      Passage stream.tail log rest → Passage stream (stream.tail.arrival ++ log) rest
  | linger {stream rest : Stream} {log : Log} (done : stream.upcoming = []) :
      Passage stream log rest → Passage stream (.token stream.token :: log) rest

namespace Passage

theorem append {first middle last : Stream} {sooner later : Log}
    (before : Passage first sooner middle) (after : Passage middle later last) :
    Passage first (sooner ++ later) last := by
  induction before with
  | stay => exact after
  | remark remark _ ih => exact .remark remark (ih after)
  | pass more _ ih =>
    rw [List.append_assoc]
    exact .pass more (ih after)
  | linger done _ ih => exact .linger done (ih after)

theorem isRest {stream rest : Stream} {log : Log} (passage : Passage stream log rest) :
    rest.IsRest stream := by
  induction passage with
  | stay stream => exact .refl stream
  | remark _ _ ih => exact ih
  | pass _ _ ih => exact ih.trans (.tail _)
  | linger _ _ ih => exact ih

end Passage

structure Outcome (α : Type) where
  value : α
  rest : Stream
  log : Log

structure Parser (α : Type) where
  run : Stream → Outcome α
  passage (stream : Stream) : Passage stream (run stream).log (run stream).rest

namespace Parser

variable {α β : Type}

theorem isRest (parser : Parser α) (stream : Stream) : (parser.run stream).rest.IsRest stream :=
  (parser.passage stream).isRest

protected def pure (a : α) : Parser α where
  run stream := ⟨a, stream, []⟩
  passage := .stay

protected def bind (first : Parser α) (next : α → Parser β) : Parser β where
  run stream :=
    let before := first.run stream
    let after := (next before.value).run before.rest
    { after with log := before.log ++ after.log }
  passage stream := (first.passage stream).append ((next _).passage _)

instance : Monad Parser where
  pure := Parser.pure
  bind := Parser.bind

/-- The current token, without passing it. -/
def peek : Parser Token where
  run stream := ⟨stream.token, stream, []⟩
  passage := .stay

def peekKind : Parser TokenKind := return (← peek).kind

def position : Parser Position := return (← peek).pos

def remark (remark : Remark) : Parser Unit where
  run stream := ⟨(), stream, [remark.event]⟩
  passage stream := .remark remark (.stay stream)

theorem arrival_passage {stream : Stream} (more : stream.upcoming ≠ []) :
    Passage stream stream.tail.arrival stream.tail := by
  have way := Passage.pass more (.stay stream.tail)
  rwa [List.append_nil] at way

/-- Passes the current token. The end cannot be passed; it is reached again. -/
def advance : Parser Unit where
  run stream :=
    if stream.upcoming.isEmpty then ⟨(), stream, [.token stream.token]⟩
    else ⟨(), stream.tail, stream.tail.arrival⟩
  passage stream := by
    split
    · next none => exact .linger (List.isEmpty_iff.mp none) (.stay stream)
    · next more => exact arrival_passage (fun none => more (List.isEmpty_iff.mpr none))

def advanceMany : Nat → Parser Unit
  | 0 => pure ()
  | n + 1 => do
    advance
    advanceMany n

def report (pos : Position) (problem : GrammarProblem) : Parser Unit :=
  remark (.problem pos problem)

/-- Reports the current token, which is not what is wanted there. -/
def missing (wanted : Wanted) : Parser Unit := do
  let found ← peek
  report found.pos (.missing wanted found)

/-- Passes the current token if it is of the given kind. -/
def accept (kind : TokenKind) : Parser Bool := do
  if (← peekKind) = kind then
    advance
    pure true
  else pure false

/-- Passes the current token, and reports it if it is not of the given kind. -/
def require (kind : TokenKind) : Parser Unit := do
  if (← peekKind) ≠ kind then missing (.token kind)
  advance

def isOpening : TokenKind → Bool
  | .lParen | .lBracket | .lBrace => true
  | _ => false

def isClosing : TokenKind → Bool
  | .rParen | .rBracket | .rBrace => true
  | _ => false

/-- Tokens up to the semicolon or closing bracket that belongs to an enclosing
production, when `opened` brackets have been opened since. -/
def nestedLength : Nat → List TokenKind → Nat
  | _, [] => 0
  | opened, kind :: rest =>
    if isOpening kind then nestedLength (opened + 1) rest + 1
    else if isClosing kind then
      match opened with
      | 0 => 0
      | outer + 1 => nestedLength outer rest + 1
    else if kind = .semicolon && opened = 0 then 0
    else nestedLength opened rest + 1

def skipNested : Parser Unit where
  run stream := (advanceMany (nestedLength 0 stream.kinds)).run stream
  passage stream := (advanceMany _).passage stream

/-- Refuses to go one level deeper, and passes what stands there. -/
def refuseDepth : Parser Unit := do
  report (← position) .tooDeep
  skipNested

end Parser

end MiniC
