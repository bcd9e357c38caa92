import MiniC.Parser.Basic

/-!
Repetition. A loop goes on while the current token is one it takes; a round
that stands still is moved on by one token, so every loop ends with the tokens.

Productions are written once, for all readers that can run a parser and repeat
what they read themselves. Parsers are such readers, and so is a parser that
keeps an account of its own.
-/

namespace MiniC.Parser

variable {α σ : Type}

/-- Runs the parser, then passes a token if it passed none. -/
def moving (parser : Parser α) : Parser α where
  run stream :=
    let first := parser.run stream
    if first.rest.remaining < stream.remaining then first
    else
      let moved := advance.run first.rest
      ⟨first.value, moved.rest, first.log ++ moved.log⟩
  passage stream := by
    dsimp only
    split
    · exact parser.passage stream
    · exact (parser.passage stream).append (advance.passage _)

theorem advance_remaining (stream : Stream) :
    (advance.run stream).rest.remaining = stream.remaining - 1 := by
  simp only [advance]
  split
  · next none => simp [stream.remaining_eq, List.isEmpty_iff.mp none]
  · rfl

theorem moving_shortens (parser : Parser α) (stream : Stream) (more : 0 < stream.remaining) :
    ((moving parser).run stream).rest.remaining < stream.remaining := by
  simp only [moving]
  split
  · assumption
  · have bound := (parser.isRest stream).remaining_le
    have moved := advance_remaining (parser.run stream).rest
    simp only [moved]
    omega

/-- Whether there is a current token and the loop takes it. -/
def takes (more : TokenKind → Bool) (stream : Stream) : Bool :=
  0 < stream.remaining && more stream.token.kind

theorem remaining_pos_of_takes {more : TokenKind → Bool} {stream : Stream}
    (taken : takes more stream = true) : 0 < stream.remaining := by
  simp only [takes, Bool.and_eq_true, decide_eq_true_eq] at taken
  exact taken.1

def manyRun (more : TokenKind → Bool) (item : Parser α) (stream : Stream) : Outcome (List α) :=
  if _ : takes more stream then
    let first := (moving item).run stream
    let later := manyRun more item first.rest
    ⟨first.value :: later.value, later.rest, first.log ++ later.log⟩
  else ⟨[], stream, []⟩
termination_by stream.remaining
decreasing_by exact moving_shortens item stream (remaining_pos_of_takes (by assumption))

theorem manyRun_passage (more : TokenKind → Bool) (item : Parser α) (stream : Stream) :
    Passage stream (manyRun more item stream).log (manyRun more item stream).rest := by
  fun_induction manyRun more item stream with
  | case1 stream _ first _ ih => exact ((moving item).passage stream).append ih
  | case2 stream => exact .stay stream

/-- Items as long as the current token is one to go on with. -/
def manyWhile (more : TokenKind → Bool) (item : Parser α) : Parser (List α) :=
  ⟨manyRun more item, manyRun_passage more item⟩

def foldRun (more : σ → TokenKind → Bool) (step : σ → Parser σ) (state : σ) (stream : Stream) :
    Outcome σ :=
  if _ : takes (more state) stream then
    let first := (moving (step state)).run stream
    let later := foldRun more step first.value first.rest
    { later with log := first.log ++ later.log }
  else ⟨state, stream, []⟩
termination_by stream.remaining
decreasing_by exact moving_shortens (step state) stream (remaining_pos_of_takes (by assumption))

theorem foldRun_passage (more : σ → TokenKind → Bool) (step : σ → Parser σ) (state : σ)
    (stream : Stream) :
    Passage stream (foldRun more step state stream).log (foldRun more step state stream).rest := by
  fun_induction foldRun more step state stream with
  | case1 state stream _ first _ ih => exact ((moving (step state)).passage stream).append ih
  | case2 _ stream => exact .stay stream

/-- Steps from state to state as long as the state goes on with the current
token. -/
def foldWhile (more : σ → TokenKind → Bool) (step : σ → Parser σ) (start : σ) : Parser σ :=
  ⟨foldRun more step start, foldRun_passage more step start⟩

end MiniC.Parser

namespace MiniC

/-- The loops of readers, as parsers have them. -/
class Loops (m : Type → Type) where
  manyWhile {α : Type} (more : TokenKind → Bool) (item : m α) : m (List α)
  foldWhile {σ : Type} (more : σ → TokenKind → Bool) (step : σ → m σ) (start : σ) : m σ

instance : Loops Parser where
  manyWhile := Parser.manyWhile
  foldWhile := Parser.foldWhile

namespace Parser

variable {m : Type → Type} [Monad m] [MonadLiftT Parser m] [Loops m] {α : Type}

/-- To read as a parser, a parser is left as it is. -/
@[simp]
theorem lift_self (parser : Parser α) : (liftM parser : Parser α) = parser := rfl

/-- One or more items with commas between them. -/
def commaSeparated (item : m α) : m (List α) := do
  let first ← item
  let later ← Loops.manyWhile (· = .comma) do
    advance
    item
  pure (first :: later)

/-- Items with commas between them, or nothing in front of the closing token. -/
def commaList (close : TokenKind) (item : m α) : m (List α) := do
  if (← peekKind) = close then pure [] else commaSeparated item

end Parser

end MiniC
