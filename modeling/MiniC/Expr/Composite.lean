import MiniC.Parser.Loop

/-!
Reading a composite literal. The literals still open are kept as a stack of
frames, so a slip inside one of them stays there. A semicolon, a keyword that
starts a declaration, or the end of the source cuts the literal short: every
open frame is closed, and the token is left to the declaration.
-/

namespace MiniC

def TokenKind.litKind? : TokenKind → Option LitKind
  | .intLit => some .int
  | .charLit => some .char
  | .strLit => some .string
  | _ => none

namespace Composite

/-- A literal whose closing brace has not come yet. -/
structure Frame where
  pos : Position
  /-- Its items so far, the last one first. -/
  items : List Expr

def Frame.add (frame : Frame) (item : Expr) : Frame :=
  { frame with items := item :: frame.items }

def Frame.literal (frame : Frame) : Expr := .composite frame.pos frame.items.reverse

/-- The innermost open literal and those around it, from the inside out. -/
structure Frames where
  inner : Frame
  outer : List Frame

namespace Frames

def start (pos : Position) : Frames := ⟨⟨pos, []⟩, []⟩

def add (frames : Frames) (item : Expr) : Frames :=
  { frames with inner := frames.inner.add item }

def opened (frames : Frames) (pos : Position) : Frames :=
  ⟨⟨pos, []⟩, frames.inner :: frames.outer⟩

/-- Closes all that is open, from the inside out. -/
def closeAll (frames : Frames) : Expr :=
  frames.outer.foldl (fun literal frame => (frame.add literal).literal) frames.inner.literal

end Frames

/-- How far the reading has come. -/
inductive State where
  /-- The innermost literal may go on with an item. -/
  | beforeItem (frames : Frames)
  | afterItem (frames : Frames)
  | finished (literal : Expr)

/-- Closes the innermost literal and makes it an item of the one around it. -/
def State.closed (frames : Frames) : State :=
  match frames.outer with
  | [] => .finished frames.inner.literal
  | around :: outer => .afterItem ⟨around.add frames.inner.literal, outer⟩

/-- Tokens that no composite literal holds. -/
def isBoundary : TokenKind → Bool
  | .semicolon | .constKw | .intKw | .charKw | .voidKw | .eof => true
  | _ => false

open MiniC.Parser

/-- Passes a token that is no item and puts a bad item in its place. -/
def badItem (wanted : Wanted) : Parser Expr := do
  let found ← peek
  missing wanted
  if !isBoundary found.kind then advance
  pure (.bad found.pos)

/-- A name or a literal; signs go only before names, numbers and characters. -/
def plainItem (isSigned : Bool) : Parser Expr := do
  let token ← peek
  match token.kind.litKind? with
  | some kind =>
    if isSigned && kind = .string then badItem .signedItem
    else
      advance
      pure (.lit token.pos kind token.text)
  | none =>
    if token.kind = .ident then
      advance
      pure (.ident token.pos token.text)
    else badItem (if isSigned then .signedItem else .compositeItem)

def item : Parser Expr := do
  let token ← peek
  match token.kind.sign? with
  | some sign =>
    advance
    let operand ← plainItem true
    pure (.unary token.pos sign operand)
  | none => plainItem false

def step : State → Parser State
  | .beforeItem frames => do
    let token ← peek
    match token.kind with
    | .lBrace =>
      advance
      pure (.beforeItem (frames.opened token.pos))
    | .rBrace =>
      advance
      pure (.closed frames)
    | _ =>
      let item ← item
      pure (.afterItem (frames.add item))
  | .afterItem frames => do
    match ← peekKind with
    | .rBrace =>
      advance
      pure (.closed frames)
    | .comma =>
      advance
      if (← peekKind) = .rBrace then
        missing .itemAfterComma
        pure (.afterItem frames)
      else pure (.beforeItem frames)
    | _ =>
      missing .commaOrBrace
      advance
      pure (.beforeItem frames)
  | .finished literal => pure (.finished literal)

def goesOn (state : State) (kind : TokenKind) : Bool :=
  match state with
  | .finished _ => false
  | .beforeItem _ | .afterItem _ => !isBoundary kind

/-- The literal read, if its last brace came; else what there is of it. -/
def conclude : State → Parser Expr
  | .finished literal => pure literal
  | .beforeItem frames | .afterItem frames => do
    missing (.token .rBrace)
    pure frames.closeAll

end Composite

open MiniC.Parser in
/-- A composite literal, from its opening brace. -/
def compositeLiteral : Parser Expr := do
  let pos ← position
  require .lBrace
  let state ← foldWhile Composite.goesOn Composite.step (.beforeItem (.start pos))
  Composite.conclude state

end MiniC
