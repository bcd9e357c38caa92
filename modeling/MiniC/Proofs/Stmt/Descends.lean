import MiniC.Compilation
import MiniC.Proofs.Expr.Descends

/-!
Reading declarations and statements comes to an end with the tokens. A
declaration passes a token before it calls anything; a statement may begin with
an expression, but it passes a token before it calls another statement. The
rounds of a block and of a clause may stand still, and are moved on.
-/

namespace MiniC

open MiniC.Parser

section Loops

theorem dimension_advances : Advances (· = .lBracket) dimension :=
  fun _ taken => Shortens.before (require_shortens .lBracket (remaining_pos_of_takes taken))

/-- A declaration passes a token, whatever stands there. -/
theorem declaration_shortens (expr : Parser Expr) (stmt : Parser Stmt) (isTopLevel : Bool)
    {s : Stream} (more : 0 < s.remaining) : Shortens (declaration expr stmt isTopLevel) s := by
  apply Shortens.behind
  by_cases isConst : s.token.kind = .constKw
  · exact Shortens.before (accept_shortens isConst more)
  · apply Shortens.behind
    change Shortens _ ((accept .constKw).run s).rest
    rw [accept_run_other isConst]
    apply Shortens.behind
    dsimp only [peek]
    split
    · apply Shortens.behind
      exact Shortens.before (advance_shortens more)
    · exact Shortens.before (advance_shortens more)

theorem topLevelDecl_advances : Advances (fun _ => true) topLevelDecl :=
  fun _ taken => declaration_shortens _ _ true (remaining_pos_of_takes taken)

namespace StmtContext

variable (inner : StmtContext Parser)

theorem label_shortens {s : Stream} (more : 0 < s.remaining) : Shortens inner.label s := by
  by_cases isDefault : s.token.kind = .defaultKw
  · exact Shortens.before (accept_shortens isDefault more)
  · apply Shortens.behind
    rw [lift_self, accept_run_other isDefault]
    exact Shortens.before (require_shortens .caseKw more)

theorem clause?_advances : Advances (· ≠ .rBrace) inner.clause? := by
  intro s taken
  have more := remaining_pos_of_takes taken
  have clause : Shortens inner.clause s := by
    apply Shortens.behind
    exact Shortens.before (inner.label_shortens more)
  apply Shortens.behind
  dsimp only [peekKind]
  split
  · exact Shortens.map clause
  · exact Shortens.map clause
  · apply Shortens.behind
    exact Shortens.before (advance_shortens more)

end StmtContext

end Loops

section Declarations

variable {n : Nat} {expr expr' : Parser Expr} {stmt stmt' : Parser Stmt}

theorem declarator_agree (exprs : Agree n expr expr') (name : Name) :
    Agree n (declarator expr name) (declarator expr' name) := by
  apply Agree.after
  intro sizes
  apply Agree.before
  apply Agree.after
  intro isAssigned
  apply Agree.ite
  · apply Agree.after
    intro kind
    exact Agree.ite (Agree.refl _) exprs.map
  · exact Agree.refl _

theorem declarators_agree (exprs : Agree n expr expr') (first : Name) :
    Agree n (declarators expr first) (declarators expr' first) := by
  apply Agree.bind (declarator_agree exprs first)
  intro head
  apply Agree.before
  apply Agree.manyWhile
  intro s bound _
  exact Agree.after (fun _ => Agree.after (declarator_agree exprs)) s bound

theorem body_agree (stmts : Agree n stmt stmt') (more : TokenKind → Bool) :
    Agree n (manyWhile more stmt) (manyWhile more stmt') :=
  Agree.manyWhile fun s bound _ => stmts s bound

theorem function_agree (stmts : Agree n stmt stmt') (returns : Ty) (returnsPos : Position)
    (name : Name) :
    Agree n (function stmt returns returnsPos name) (function stmt' returns returnsPos name) := by
  apply Agree.after
  intro params
  apply Agree.after
  intro bodyPos
  apply Agree.before
  apply Agree.after
  intro _
  exact (body_agree stmts _).before

/-- Behind its first tokens a declaration calls the parsers it is built on. -/
theorem declaration_descends (exprs : Agree n expr expr') (stmts : Agree n stmt stmt')
    (isTopLevel : Bool) :
    Agree (n + 1) (declaration expr stmt isTopLevel) (declaration expr' stmt' isTopLevel) := by
  intro s bound
  apply AgreeAt.after
  apply AgreeAt.after
  -- a `const` may be passed or not; the stream behind it is no longer
  have shorter := ((accept .constKw).isRest s).remaining_le
  change AgreeAt _ _ ((accept .constKw).run s).rest
  generalize (accept .constKw).run s = accepted at shorter
  obtain ⟨isConst, rest, log⟩ := accepted
  dsimp only at shorter ⊢
  apply AgreeAt.peek
  rintro ⟨kind, text, pos⟩ present
  cases isBase : kind.baseType? with
  | none => rfl
  | some base =>
    have isToken : kind ≠ .eof := by
      rintro rfl
      cases isBase
    apply AgreeAt.pass (advance_shortens (present isToken)) (Nat.lt_of_le_of_lt shorter bound)
    intro _
    apply Agree.after
    intro name
    apply Agree.after
    intro kind
    apply Agree.ite
    · exact (function_agree stmts base pos name).before
    · exact (declarators_agree exprs name).before

end Declarations

namespace StmtContext

variable {n : Nat} {inner other : StmtContext Parser}

section Exprs

variable (exprs : Agree n inner.expr other.expr)

include exprs

theorem simple_agree : Agree n inner.simple other.simple := by
  apply Agree.after
  intro pos
  apply Agree.bind exprs
  intro target
  apply Agree.after
  intro isAssigned
  exact Agree.ite exprs.before (Agree.refl _)

theorem header_agree (close : TokenKind) : Agree n (inner.header close) (other.header close) :=
  Agree.after fun _ => Agree.ite (Agree.refl _) (simple_agree exprs).map

theorem condition_agree : Agree n inner.condition other.condition :=
  Agree.after fun _ => exprs.before

theorem label_agree : Agree n inner.label other.label :=
  Agree.after fun _ => Agree.ite (Agree.refl _) (Agree.after fun _ => exprs.map)

end Exprs

section Keywords

variable {s : Stream} (exprs : Agree n inner.expr other.expr)
  (stmts : Agree n inner.stmt other.stmt) (more : 0 < s.remaining) (bound : s.remaining < n + 1)

include more bound

include stmts in
theorem block_descends (pos : Position) : AgreeAt (inner.block pos) (other.block pos) s := by
  have body : AgreeAt (braced inner.stmt) (braced other.stmt) s :=
    AgreeAt.pass (require_shortens .lBrace more) bound fun _ => (body_agree stmts _).before
  exact body.bind rfl

include exprs

theorem print_descends (pos : Position) : AgreeAt (inner.print pos) (other.print pos) s := by
  apply AgreeAt.pass (require_shortens .printfKw more) bound
  intro _
  apply Agree.after
  intro _
  exact (exprs.commaList .rParen).before

theorem scan_descends (pos : Position) : AgreeAt (inner.scan pos) (other.scan pos) s := by
  apply AgreeAt.pass (require_shortens .scanfKw more) bound
  exact fun _ => (condition_agree exprs).before

theorem ret_descends (pos : Position) : AgreeAt (inner.ret pos) (other.ret pos) s := by
  apply AgreeAt.pass (require_shortens .returnKw more) bound
  intro _
  apply Agree.after
  intro kind
  exact Agree.ite (Agree.refl _) (Agree.before exprs.map)

include stmts

theorem branch_descends (pos : Position) : AgreeAt (inner.branch pos) (other.branch pos) s := by
  apply AgreeAt.pass (require_shortens .ifKw more) bound
  intro _
  apply Agree.bind (condition_agree exprs)
  intro cond
  apply Agree.bind stmts
  intro yes
  apply Agree.after
  intro isElse
  exact Agree.ite stmts.before (Agree.refl _)

theorem whileLoop_descends (pos : Position) :
    AgreeAt (inner.whileLoop pos) (other.whileLoop pos) s := by
  apply AgreeAt.pass (require_shortens .whileKw more) bound
  intro _
  apply Agree.bind (condition_agree exprs)
  exact fun cond => stmts.before

theorem forLoop_descends (pos : Position) : AgreeAt (inner.forLoop pos) (other.forLoop pos) s := by
  apply AgreeAt.pass (require_shortens .forKw more) bound
  intro _
  apply Agree.after
  intro _
  apply Agree.bind (header_agree exprs _)
  intro init
  apply Agree.after
  intro _
  apply Agree.bind (header_agree exprs _)
  intro cond
  apply Agree.after
  intro _
  apply Agree.bind (header_agree exprs _)
  intro next
  apply Agree.after
  exact fun _ => stmts.before

theorem switch_descends (pos : Position) : AgreeAt (inner.switch pos) (other.switch pos) s := by
  have clause : Agree n inner.clause other.clause := by
    apply Agree.after
    intro pos
    apply Agree.bind (label_agree exprs)
    intro label
    apply Agree.after
    exact fun _ => (body_agree stmts _).before
  have clauses : Agree n inner.clause? other.clause? := by
    apply Agree.after
    intro kind
    cases kind with
    | caseKw | defaultKw => exact clause.map
    | _ => exact Agree.refl _
  apply AgreeAt.pass (require_shortens .switchKw more) bound
  intro _
  apply Agree.bind (condition_agree exprs)
  intro subject
  apply Agree.after
  intro _
  apply Agree.before
  exact Agree.manyWhile fun s bound _ => clauses s bound

end Keywords

/-- A statement may begin with an expression, but not with another statement. -/
theorem any_descends (exprs : Agree (n + 1) inner.expr other.expr)
    (stmts : Agree n inner.stmt other.stmt) : Agree (n + 1) inner.any other.any := by
  intro s bound
  have shorter : Agree n inner.expr other.expr := exprs.mono (Nat.le_succ n)
  -- the only call in place
  have simple : AgreeAt inner.simpleStmt other.simpleStmt s := (simple_agree exprs).before s bound
  have decl (pos : Position) : AgreeAt (inner.declStmt pos) (other.declStmt pos) s :=
    (declaration_descends shorter stmts false).before s bound
  apply AgreeAt.peek
  rintro ⟨kind, text, pos⟩ present
  cases kind with
  | constKw | intKw | charKw | voidKw => exact decl pos
  | ident | mainKw | intLit | charLit | strLit | lParen | plus | minus => exact simple
  | ifKw => exact branch_descends shorter stmts (present nofun) bound pos
  | whileKw => exact whileLoop_descends shorter stmts (present nofun) bound pos
  | forKw => exact forLoop_descends shorter stmts (present nofun) bound pos
  | switchKw => exact switch_descends shorter stmts (present nofun) bound pos
  | lBrace => exact block_descends stmts (present nofun) bound pos
  | printfKw => exact print_descends shorter (present nofun) bound pos
  | scanfKw => exact scan_descends shorter (present nofun) bound pos
  | returnKw => exact ret_descends shorter (present nofun) bound pos
  | _ => rfl

end StmtContext

/-- Levels beyond the number of tokens change nothing. -/
theorem statement_agree {n left right : Nat} (enoughLeft : n ≤ left) (enoughRight : n ≤ right) :
    Agree n (statement (left + 1)) (statement (right + 1)) := by
  induction n generalizing left right with
  | zero => exact fun s none => absurd none (Nat.not_lt_zero _)
  | succ n ih =>
    have exprs : Agree (n + 1) (expression left) (expression right) :=
      expression_agree enoughLeft enoughRight
    obtain ⟨left, rfl⟩ := Nat.exists_eq_add_of_lt enoughLeft
    obtain ⟨right, rfl⟩ := Nat.exists_eq_add_of_lt enoughRight
    exact StmtContext.any_descends exprs (ih (Nat.le_add_right _ _) (Nat.le_add_right _ _))

end MiniC
