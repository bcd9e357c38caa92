import MiniC.Decl.Parser
import MiniC.Proofs.Expr.Counted
import MiniC.Stmt.Parser

/-!
Declarations, statements and files read with one counter. Declarations go no deeper
themselves, so they come back to the depth they start at if the expressions and
statements they hold do. A statement goes one step deeper and comes back, whatever is
in it, and so the file is at depth zero in front of each of its declarations.
-/

namespace MiniC

open MiniC.Parser (peek peekKind position advance missing require accept remark report)

namespace Counted

section Declarations

variable {depth : Nat} {expr : Counted Expr} {stmt : Counted Stmt} {exprs : Parser Expr}
  {stmts : Parser Stmt}

theorem initializer_keeps (onExpr : Keeps depth expr exprs) :
    Keeps depth (initializer expr) (initializer exprs) := by
  have literal : Keeps depth (some <$> (compositeLiteral : Counted Expr))
      (some <$> compositeLiteral) :=
    Keeps.map some (Keeps.lift compositeLiteral)
  apply Keeps.after
  intro isGiven
  apply Keeps.ite
  · apply Keeps.after
    intro kind
    exact Keeps.ite literal (Keeps.map some onExpr)
  · exact Keeps.pure none

theorem declarator_keeps (onExpr : Keeps depth expr exprs) (name : Name) :
    Keeps depth (declarator expr name) (declarator exprs name) := by
  apply Keeps.after
  intro sizes
  apply (initializer_keeps onExpr).bind
  intro init
  exact Keeps.pure _

theorem declarators_keeps (onExpr : Keeps depth expr exprs) (first : Name) :
    Keeps depth (declarators expr first) (declarators exprs first) := by
  have another : Keeps depth (do advance; let name ← identifier; declarator expr name)
      (do advance; let name ← identifier; declarator exprs name) := by
    apply Keeps.after
    intro _
    exact Keeps.after fun name => declarator_keeps onExpr name
  apply (declarator_keeps onExpr first).bind
  intro head
  apply (Keeps.manyWhile _ another).bind
  intro later
  exact Keeps.last _

theorem braced_keeps (onStmt : Keeps depth stmt stmts) :
    Keeps depth (braced stmt) (braced stmts) := by
  have inside := Keeps.manyWhile (· ≠ .rBrace) onStmt
  apply Keeps.after
  intro _
  apply inside.bind
  intro body
  apply Keeps.after
  intro kind
  apply Keeps.ite
  · exact Keeps.last _
  · exact Keeps.last _

theorem function_keeps (onStmt : Keeps depth stmt stmts) (returns : Ty) (returnsPos : Position)
    (name : Name) : Keeps depth (function stmt returns returnsPos name)
      (function stmts returns returnsPos name) := by
  apply Keeps.after
  intro params
  apply Keeps.after
  intro bodyPos
  apply (braced_keeps onStmt).bind
  intro body
  exact Keeps.last _

theorem declaration_keeps (onExpr : Keeps depth expr exprs) (onStmt : Keeps depth stmt stmts)
    (isTopLevel : Bool) : Keeps depth (declaration expr stmt isTopLevel)
      (declaration exprs stmts isTopLevel) := by
  apply Keeps.after
  intro start
  -- one that cannot be used is reported, and nothing more is read
  have refused (parser : Parser Unit) : Keeps depth
      (do parser; pure (.bad start) : Counted Decl) (do parser; pure (.bad start)) :=
    Keeps.last _
  apply Keeps.after
  intro isConst
  apply Keeps.after
  rintro ⟨kind, text, pos⟩
  dsimp only
  cases kind.baseType? with
  | none =>
    apply Keeps.after
    intro _
    exact refused advance
  | some base =>
    apply Keeps.after
    intro _
    apply Keeps.after
    intro name
    apply Keeps.after
    intro next
    apply Keeps.ite
    · apply (function_keeps onStmt base pos name).bind
      intro func
      exact Keeps.ite (refused _) (Keeps.ite (refused _) (Keeps.pure _))
    · apply (declarators_keeps onExpr name).bind
      intro list
      exact Keeps.ite (refused _) (Keeps.pure _)

end Declarations

/-- Statements, with a bound on how often they are called within one another. -/
def statement : Nat → Counted Stmt
  | 0 => giveUp (.bad .unknown)
  | bound + 1 => nested .bad (StmtContext.any ⟨(exprParsers bound).expr, statement bound⟩)

/-- The readers keep to those of a level. -/
structure KeepContext (depth : Nat) (inner : StmtContext Counted) (level : StmtContext Parser) :
    Prop where
  expr : Keeps depth inner.expr level.expr
  stmt : Keeps depth inner.stmt level.stmt

namespace KeepContext

variable {depth : Nat} {inner : StmtContext Counted} {level : StmtContext Parser}
  (keep : KeepContext depth inner level) (pos : Position)

include keep

theorem simple : Keeps depth inner.simple level.simple := by
  apply Keeps.after
  intro pos
  apply keep.expr.bind
  intro target
  apply Keeps.after
  intro isAssigned
  apply Keeps.ite
  · apply keep.expr.bind
    intro value
    exact Keeps.pure _
  · exact Keeps.pure _

theorem header (close : TokenKind) : Keeps depth (inner.header close) (level.header close) := by
  apply Keeps.after
  intro kind
  exact Keeps.ite (Keeps.pure none) (Keeps.map some keep.simple)

theorem condition : Keeps depth inner.condition level.condition := by
  apply Keeps.after
  intro _
  apply keep.expr.bind
  intro cond
  exact Keeps.last _

theorem declStmt : Keeps depth (inner.declStmt pos) (level.declStmt pos) := by
  apply (declaration_keeps keep.expr keep.stmt false).bind
  intro decl
  exact Keeps.pure _

theorem simpleStmt : Keeps depth inner.simpleStmt level.simpleStmt := by
  apply keep.simple.bind
  intro s
  exact Keeps.last _

theorem block : Keeps depth (inner.block pos) (level.block pos) := by
  apply (braced_keeps keep.stmt).bind
  intro body
  exact Keeps.pure _

theorem branch : Keeps depth (inner.branch pos) (level.branch pos) := by
  apply Keeps.after
  intro _
  apply keep.condition.bind
  intro cond
  apply keep.stmt.bind
  intro yes
  apply Keeps.after
  intro hasElse
  apply Keeps.ite
  · apply keep.stmt.bind
    intro no
    exact Keeps.pure _
  · exact Keeps.pure _

theorem whileLoop : Keeps depth (inner.whileLoop pos) (level.whileLoop pos) := by
  apply Keeps.after
  intro _
  apply keep.condition.bind
  intro cond
  apply keep.stmt.bind
  intro body
  exact Keeps.pure _

theorem forLoop : Keeps depth (inner.forLoop pos) (level.forLoop pos) := by
  apply Keeps.after
  intro _
  apply Keeps.after
  intro _
  apply (keep.header .semicolon).bind
  intro init
  apply Keeps.after
  intro _
  apply (keep.header .semicolon).bind
  intro cond
  apply Keeps.after
  intro _
  apply (keep.header .rParen).bind
  intro next
  apply Keeps.after
  intro _
  apply keep.stmt.bind
  intro body
  exact Keeps.pure _

theorem label : Keeps depth inner.label level.label := by
  apply Keeps.after
  intro isDefault
  apply Keeps.ite
  · exact Keeps.pure none
  · exact Keeps.after fun _ => Keeps.map some keep.expr

theorem clause : Keeps depth inner.clause level.clause := by
  have statements := Keeps.manyWhile (!StmtContext.endsClause ·) keep.stmt
  apply Keeps.after
  intro pos
  apply keep.label.bind
  intro label
  apply Keeps.after
  intro _
  apply statements.bind
  intro body
  exact Keeps.pure _

theorem clause? : Keeps depth inner.clause? level.clause? := by
  apply Keeps.after
  intro kind
  cases kind with
  | caseKw | defaultKw => exact Keeps.map some keep.clause
  | _ =>
    apply Keeps.after
    intro _
    exact Keeps.last _

theorem switch : Keeps depth (inner.switch pos) (level.switch pos) := by
  have clauses := Keeps.manyWhile (· ≠ .rBrace) keep.clause?
  apply Keeps.after
  intro _
  apply keep.condition.bind
  intro subject
  apply Keeps.after
  intro _
  apply clauses.bind
  intro list
  exact Keeps.last _

theorem print : Keeps depth (inner.print pos) (level.print pos) := by
  have args := Keeps.commaList .rParen keep.expr
  apply Keeps.after
  intro _
  apply Keeps.after
  intro _
  apply args.bind
  intro list
  apply Keeps.after
  intro _
  exact Keeps.last _

theorem scan : Keeps depth (inner.scan pos) (level.scan pos) := by
  apply Keeps.after
  intro _
  apply keep.condition.bind
  intro target
  exact Keeps.last _

theorem ret : Keeps depth (inner.ret pos) (level.ret pos) := by
  have ending (value : Option Expr) : Keeps depth
      (do require .semicolon; pure (.ret pos value) : Counted Stmt)
      (do require .semicolon; pure (.ret pos value)) :=
    Keeps.last _
  apply Keeps.after
  intro _
  apply Keeps.after
  intro kind
  apply Keeps.ite
  · exact (Keeps.pure none).bind ending
  · exact (Keeps.map some keep.expr).bind ending

theorem any : Keeps depth inner.any level.any := by
  apply Keeps.after
  rintro ⟨kind, text, pos⟩
  dsimp only
  cases kind with
  | constKw | intKw | charKw | voidKw => exact keep.declStmt pos
  | ident | mainKw | intLit | charLit | strLit | lParen | plus | minus => exact keep.simpleStmt
  | ifKw => exact keep.branch pos
  | whileKw => exact keep.whileLoop pos
  | forKw => exact keep.forLoop pos
  | switchKw => exact keep.switch pos
  | lBrace => exact keep.block pos
  | printfKw => exact keep.print pos
  | scanfKw => exact keep.scan pos
  | returnKw => exact keep.ret pos
  | semicolon | rBrace | eof => exact Keeps.last _
  | _ =>
    apply Keeps.after
    intro _
    exact Keeps.last _

end KeepContext

theorem statement_keeps {bound level : Nat} (enough : level < bound)
    (allowed : level ≤ maxNesting) :
    Keeps (maxNesting - level) (statement bound) (MiniC.statement level) := by
  induction level generalizing bound with
  | zero =>
    cases bound with
    | zero => cases enough
    | succ bound => exact .refused _
  | succ level ih =>
    cases bound with
    | zero => cases enough
    | succ bound =>
      have fewer := Nat.lt_of_succ_lt_succ enough
      have below := Nat.le_of_succ_le allowed
      have deeper : maxNesting - (level + 1) + 1 = maxNesting - level := by omega
      refine .nested (by omega) ?_
      rw [deeper]
      exact KeepContext.any ⟨expression_keeps fewer below, ih fewer below⟩

end Counted

end MiniC
