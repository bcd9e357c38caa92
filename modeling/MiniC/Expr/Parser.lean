import MiniC.Expr.Composite

/-!
Reading expressions. Binary operators are read by precedence and group to the
left; signs bind tighter, calls and subscripts tightest. The parsers come in
levels: each sign, parenthesis, argument and operator hands what it contains to
the level below, an operator also the rest of its chain, and the lowest level
refuses to go on.
-/

namespace MiniC

open MiniC.Parser

/-- Tokens that end an expression and belong to what is around it. -/
def endsOperand : TokenKind → Bool
  | .semicolon | .comma | .rParen | .rBracket | .rBrace | .eof => true
  | _ => false

section Operands

variable {m : Type → Type} [Monad m] [MonadLiftT Parser m] [Loops m]

/-- A name, a literal, or a parenthesised expression. -/
def operand (inner : m Expr) : m Expr := do
  let token ← peek
  match token.kind.litKind? with
  | some kind =>
    advance
    pure (.lit token.pos kind token.text)
  | none =>
    match token.kind with
    | .ident | .mainKw =>
      advance
      pure (.ident token.pos token.text)
    | .lParen =>
      advance
      let e ← inner
      require .rParen
      pure (.paren token.pos e)
    | kind =>
      missing .operand
      if !endsOperand kind then advance
      pure (.bad token.pos)

/-- One call or subscript behind an expression. -/
def suffix (inner : m Expr) (e : Expr) : m Expr := do
  if (← peekKind) = .lParen then
    require .lParen
    let args ← commaList .rParen inner
    require .rParen
    pure (.call e.pos e args)
  else
    require .lBracket
    let subscript ← inner
    require .rBracket
    pure (.index e.pos e subscript)

def startsSuffix (kind : TokenKind) : Bool := kind = .lParen || kind = .lBracket

def primary (inner : m Expr) : m Expr := do
  let first ← operand inner
  Loops.foldWhile (fun _ => startsSuffix) (suffix inner) first

/-- An operand behind a sign, or a primary expression. -/
def signed (unary inner : m Expr) : m Expr := do
  let token ← peek
  match token.kind.sign? with
  | some sign =>
    advance
    let operand ← unary
    pure (.unary token.pos sign operand)
  | none => primary inner

end Operands

/-- The parsers of one nesting level. -/
structure ExprParsers where
  unary : Parser Expr
  /-- Goes on from a left operand with operators of at least some precedence. -/
  operators : Nat → Expr → Parser Expr

namespace ExprParsers

/-- An expression whose operators have at least the given precedence. -/
def binary (level : ExprParsers) (least : Nat) : Parser Expr := do
  let left ← level.unary
  level.operators least left

def expr (level : ExprParsers) : Parser Expr := level.binary 1

end ExprParsers

/-- The operator that a token is, if it binds tightly enough. -/
def bindingOp? (least : Nat) (kind : TokenKind) : Option BinOp :=
  kind.binOp?.filter (least ≤ ·.precedence)

/-- On the lowest level an operator has no right operand. -/
def refusedOperator (least : Nat) (left : Expr) : Parser Expr := do
  match bindingOp? least (← peekKind) with
  | some op =>
    advance
    refuseDepth
    let pos ← position
    pure (.binary left.pos op left (.bad pos))
  | none => pure left

def lowestLevel : ExprParsers where
  unary := do
    let pos ← position
    refuseDepth
    pure (.bad pos)
  operators least := foldWhile (fun _ kind => (bindingOp? least kind).isSome) (refusedOperator least)

def levelAbove (below : ExprParsers) : ExprParsers where
  unary := signed below.unary below.expr
  operators least left := do
    match bindingOp? least (← peekKind) with
    | some op =>
      advance
      let right ← below.binary (op.precedence + 1)
      below.operators least (.binary left.pos op left right)
    | none => pure left

/-- The parsers that may go `levels` deep. -/
def exprParsers : Nat → ExprParsers
  | 0 => lowestLevel
  | levels + 1 => levelAbove (exprParsers levels)

def expression (levels : Nat) : Parser Expr := (exprParsers levels).expr

end MiniC
