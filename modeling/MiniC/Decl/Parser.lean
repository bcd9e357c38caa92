import MiniC.Expr.Parser

/-!
Reading declarations. What begins with a type and a name is a function if a
parenthesis follows, and else a list of variables. A declaration that its place
does not allow is read to its end all the same, and then replaced by a bad one.
-/

namespace MiniC

open MiniC.Parser

def TokenKind.baseType? : TokenKind → Option Ty
  | .intKw => some .int
  | .charKw => some .char
  | .voidKw => some .void
  | _ => none

/-- Array sizes have to stay below this. -/
def sizeLimit : Nat := UInt64.size

/-- A name; `main` is one too. Any other token is reported and passed. -/
def identifier : Parser Name := do
  let token ← peek
  if token.kind = .ident || token.kind = .mainKw then
    advance
    pure ⟨token.text, token.pos⟩
  else
    missing (.token .ident)
    advance
    pure ⟨"_", token.pos⟩

def parameterType : Parser Ty := do
  match (← peekKind).baseType? with
  | some .int => pure .int
  | some .char => pure .char
  | _ =>
    missing .parameterType
    pure .invalid

/-- A parameter. In front of the closing parenthesis nothing is passed. -/
def parameter : Parser Param := do
  let token ← peek
  let ty ← parameterType
  if token.kind = .rParen then pure ⟨token.pos, ty, ⟨"_", token.pos⟩⟩
  else
    advance
    let name ← identifier
    pure ⟨token.pos, ty, name⟩

def parameterList : Parser ParamList := do
  let pos ← position
  require .lParen
  let params ← commaList .rParen parameter
  require .rParen
  pure ⟨pos, params⟩

/-- A size in brackets; 0 where there is none that can be used. -/
def arraySize : Parser Nat := do
  let token ← peek
  if token.kind = .intLit then
    let size := Text.decimal token.text
    if size < sizeLimit then
      advance
      pure size
    else
      report token.pos (.hugeArraySize token.text)
      advance
      pure 0
  else
    missing .arraySize
    if token.kind ≠ .rBracket then advance
    pure 0

def dimension : Parser Nat := do
  require .lBracket
  let size ← arraySize
  require .rBracket
  pure size

section Productions

variable {m : Type → Type} [Monad m] [MonadLiftT Parser m] [Loops m]

def initializer (expr : m Expr) : m (Option Expr) := do
  if ← accept .assign then
    if (← peekKind) = .lBrace then some <$> (compositeLiteral : m Expr) else some <$> expr
  else pure none

/-- The rest of a declarator behind its name. -/
def declarator (expr : m Expr) (name : Name) : m Declarator := do
  let sizes ← Parser.manyWhile (· = .lBracket) dimension
  let init ← initializer expr
  pure ⟨name, sizes, init⟩

/-- Declarators from behind the first name to the semicolon. -/
def declarators (expr : m Expr) (first : Name) : m (List Declarator) := do
  let head ← declarator expr first
  let later ← Loops.manyWhile (· = .comma) do
    advance
    let name ← identifier
    declarator expr name
  require .semicolon
  pure (head :: later)

/-- Statements in braces; none if the source ends before the closing brace. -/
def braced (stmt : m Stmt) : m (Option (List Stmt)) := do
  require .lBrace
  let body ← Loops.manyWhile (· ≠ .rBrace) stmt
  if (← peekKind) = .eof then
    missing (.token .rBrace)
    pure none
  else
    advance
    pure (some body)

/-- A function from behind its name; none if its body has no end. -/
def function (stmt : m Stmt) (returns : Ty) (returnsPos : Position) (name : Name) :
    m (Option FuncDecl) := do
  let params ← parameterList
  let bodyPos ← position
  let body ← braced stmt
  remark (.parsedFunction name.text params.params.length name.pos)
  pure (body.map fun stmts => ⟨returns, returnsPos, name, params, bodyPos, stmts⟩)

/-- A declaration; functions are allowed at the top level only, and are never
const. -/
def declaration (expr : m Expr) (stmt : m Stmt) (isTopLevel : Bool) : m Decl := do
  let start ← position
  let isConst ← accept .constKw
  let head ← peek
  match head.kind.baseType? with
  | none =>
    missing .declaration
    advance
    pure (.bad start)
  | some base =>
    advance
    let name ← identifier
    if (← peekKind) = .lParen then
      let func ← function stmt base head.pos name
      if isConst then
        report start .constFunction
        pure (.bad start)
      else if !isTopLevel then
        report start .nestedFunction
        pure (.bad start)
      else pure ((func.map (Decl.func start)).getD (.bad start))
    else
      let list ← declarators expr name
      if base = .void then
        report start .voidVariable
        pure (.bad start)
      else pure (.vars start ⟨isConst, base, head.pos, list⟩)

end Productions

end MiniC
