import MiniC.Decl.Parser

/-!
Reading statements. The first token tells what kind of statement comes; a token
that starts none is reported and passed, but the brace that closes the block is
left to the block. Statements nest by levels like expressions.
-/

namespace MiniC

open MiniC.Parser

/-- The readers that the productions of statements build on. -/
structure StmtContext (m : Type → Type) where
  expr : m Expr
  stmt : m Stmt

namespace StmtContext

variable {m : Type → Type} [Monad m] [MonadLiftT Parser m] [Loops m] (inner : StmtContext m)

def simple : m Simple := do
  let pos ← position
  let target ← inner.expr
  if ← accept .assign then
    let value ← inner.expr
    pure (.assign pos target value)
  else pure (.expr pos target)

/-- A part of a loop header, missing in front of its closing token. -/
def header (close : TokenKind) : m (Option Simple) := do
  if (← peekKind) = close then pure none else some <$> inner.simple

/-- An expression in parentheses after a keyword. -/
def condition : m Expr := do
  require .lParen
  let cond ← inner.expr
  require .rParen
  pure cond

def declStmt (pos : Position) : m Stmt := do
  let decl ← declaration inner.expr inner.stmt false
  pure (.decl pos decl.vars?)

def simpleStmt : m Stmt := do
  let s ← inner.simple
  require .semicolon
  pure (.simple s)

def block (pos : Position) : m Stmt := do
  let body ← braced inner.stmt
  pure ((body.map (Stmt.block pos)).getD (.bad pos))

def branch (pos : Position) : m Stmt := do
  require .ifKw
  let cond ← inner.condition
  let yes ← inner.stmt
  if ← accept .elseKw then
    let no ← inner.stmt
    pure (.branch pos cond yes (some no))
  else pure (.branch pos cond yes none)

def whileLoop (pos : Position) : m Stmt := do
  require .whileKw
  let cond ← inner.condition
  let body ← inner.stmt
  pure (.whileLoop pos cond body)

def forLoop (pos : Position) : m Stmt := do
  require .forKw
  require .lParen
  let init ← inner.header .semicolon
  require .semicolon
  let cond ← inner.header .semicolon
  require .semicolon
  let next ← inner.header .rParen
  require .rParen
  let body ← inner.stmt
  pure (.forLoop pos init cond next body)

def endsClause : TokenKind → Bool
  | .caseKw | .defaultKw | .rBrace | .eof => true
  | _ => false

def label : m (Option Expr) := do
  if ← accept .defaultKw then pure none
  else
    require .caseKw
    some <$> inner.expr

def clause : m Stmt := do
  let pos ← position
  let label ← inner.label
  require .colon
  let body ← Loops.manyWhile (!endsClause ·) inner.stmt
  pure (.clause pos label body)

/-- A clause of a switch; anything else there is reported and passed. -/
def clause? : m (Option Stmt) := do
  match ← peekKind with
  | .caseKw | .defaultKw => some <$> inner.clause
  | _ =>
    missing .clause
    advance
    pure none

def switch (pos : Position) : m Stmt := do
  require .switchKw
  let subject ← inner.condition
  require .lBrace
  let clauses ← Loops.manyWhile (· ≠ .rBrace) inner.clause?
  require .rBrace
  pure (.switch pos subject (clauses.filterMap id))

def print (pos : Position) : m Stmt := do
  require .printfKw
  require .lParen
  let args ← commaList .rParen inner.expr
  require .rParen
  require .semicolon
  pure (.print pos args)

def scan (pos : Position) : m Stmt := do
  require .scanfKw
  let target ← inner.condition
  require .semicolon
  pure (.scan pos target)

def ret (pos : Position) : m Stmt := do
  require .returnKw
  let value ← if (← peekKind) = .semicolon then pure none else some <$> inner.expr
  require .semicolon
  pure (.ret pos value)

def any : m Stmt := do
  let token ← peek
  let pos := token.pos
  match token.kind with
  | .constKw | .intKw | .charKw | .voidKw => inner.declStmt pos
  | .ident | .mainKw | .intLit | .charLit | .strLit | .lParen | .plus | .minus => inner.simpleStmt
  | .ifKw => inner.branch pos
  | .whileKw => inner.whileLoop pos
  | .forKw => inner.forLoop pos
  | .switchKw => inner.switch pos
  | .lBrace => inner.block pos
  | .printfKw => inner.print pos
  | .scanfKw => inner.scan pos
  | .returnKw => inner.ret pos
  | .semicolon =>
    advance
    pure (.empty pos)
  | .rBrace | .eof =>
    missing .statement
    pure (.bad pos)
  | _ =>
    missing .statement
    advance
    pure (.bad pos)

end StmtContext

/-- Statements that may nest `levels` deep. -/
def statement : Nat → Parser Stmt
  | 0 => do
    let pos ← position
    refuseDepth
    pure (.bad pos)
  | levels + 1 => StmtContext.any ⟨expression levels, statement levels⟩

/-- A declaration of the file, with all nesting levels before it. -/
def topLevelDecl : Parser Decl :=
  declaration (expression maxNesting) (statement maxNesting) true

/-- All declarations up to the end of the source. -/
def fileParser (name : String) (lineCount : Nat) : Parser File := do
  let decls ← manyWhile (fun _ => true) topLevelDecl
  remark (.parsedFile name decls.length lineCount)
  pure ⟨name, decls⟩

end MiniC
