import MiniC.Proofs.Syntax.Shaped
import MiniC.Stmt.Check

/-!
Statements that the check passes over: a clause where a statement is wanted, and
what is no clause in a switch. The check with an arm of its own for these is the
check itself if the arm does nothing; and on a tree that has its shape, whatever
the arm does, it is never taken.
-/

namespace MiniC

open Walking (judge)

/-- A checker that comes upon stray statements with an arm of its own. -/
structure Straying (arm : Stmt → Checker Unit) (α : Type) where
  checker : Checker α

namespace Straying

variable {α β : Type} {arm : Stmt → Checker Unit}

instance : Monad (Straying arm) where
  pure a := ⟨pure a⟩
  bind first next := ⟨first.checker >>= fun a => (next a).checker⟩

instance : MonadLift Checker (Straying arm) := ⟨Straying.mk⟩

instance : Walking (Straying arm) Verdict where
  judge _ look := ⟨Checker.judge look⟩
  stray s := ⟨arm s⟩

@[simp]
theorem checker_pure (a : α) : (pure a : Straying arm α).checker = pure a := rfl

@[simp]
theorem checker_bind (first : Straying arm α) (next : α → Straying arm β) :
    (first >>= next).checker = first.checker >>= fun a => (next a).checker :=
  rfl

@[simp]
theorem checker_lift (checker : Checker α) : (liftM checker : Straying arm α).checker = checker :=
  rfl

@[simp]
theorem checker_judge (exprs : List Expr) (look : Scope → Verdict α) :
    (judge exprs look : Straying arm α).checker = Checker.judge look :=
  rfl

@[simp]
theorem checker_stray (s : Stmt) : (Walking.stray s : Straying arm Unit).checker = arm s := rfl

@[simp]
theorem checker_ite {p : Prop} [Decidable p] (yes no : Straying arm α) :
    (if p then yes else no).checker = if p then yes.checker else no.checker :=
  apply_ite _ _ _ _

end Straying

section Apart

variable {arm : Stmt → Checker Unit}

/-- Declarations hold no statement. -/
@[simp]
theorem VarDecl.straying_check (vars : VarDecl) :
    (vars.check : Straying arm Unit).checker = vars.check := by
  have declarator (d : Declarator) :
      (vars.checkDeclarator d : Straying arm Unit).checker = vars.checkDeclarator d := by
    unfold checkDeclarator checkEntered
    cases d.init <;> simp
  unfold check
  induction vars.declarators with
  | nil => rfl
  | cons d rest ih => simp [checkAll, declarator, ih]

end Apart

namespace FunctionContext

variable (context : FunctionContext) (arm : Stmt → Checker Unit)

/-- The check of statements that leaves stray ones to an arm. -/
def checkStmtsOr (stmts : List Stmt) : Checker Unit :=
  (context.checkStmts stmts : Straying arm Unit).checker

variable {context arm} {expr initial : Expr → Prop}

@[simp]
theorem straying_checkReturn (pos : Position) (value : Option Expr) :
    (context.checkReturn pos value : Straying arm Unit).checker = context.checkReturn pos value := by
  cases value <;> simp [checkReturn]

@[simp]
theorem straying_checkHeader (look : Scope → Simple → Verdict Unit) (header : Option Simple) :
    (checkHeader look header : Straying arm Unit).checker = checkHeader look header :=
  rfl

/-- Nothing is done about stray statements, or the tree has none. -/
def Ignores (arm : Stmt → Checker Unit) (shaped : Prop) : Prop :=
  (∀ s, arm s = pure ()) ∨ shaped

mutual

theorem straying_checkStmt : (s : Stmt) → Ignores arm (s.IsShaped expr initial) →
    (context.checkStmt s : Straying arm Unit).checker = context.checkStmt s
  | .clause _ _ _, ignores => ignores.elim (fun nothing => nothing _) False.elim
  | .bad _, _ | .empty _, _ | .decl _ none, _ => rfl
  | .decl _ (some _), _ | .simple _, _ | .ret _ _, _ | .scan _ _, _ | .print _ _, _ => by
    simp [checkStmt]
  | .block _ body, ignores => by simp [checkStmt, straying_checkStmts body ignores]
  | .branch _ _ yes none, ignores => by
    simp [checkStmt, straying_checkStmt yes (ignores.imp_right And.right)]
  | .branch _ _ yes (some no), ignores => by
    simp [checkStmt, straying_checkStmt yes (ignores.imp_right fun shaped => shaped.2.1),
      straying_checkStmt no (ignores.imp_right fun shaped => shaped.2.2)]
  | .whileLoop _ _ body, ignores => by
    simp [checkStmt, straying_checkStmt body (ignores.imp_right And.right)]
  | .forLoop _ _ _ _ body, ignores => by
    simp [checkStmt, straying_checkStmt body (ignores.imp_right fun shaped => shaped.2.2.2)]
  | .switch pos _ clauses, ignores => by
    simp [checkStmt, straying_checkClauses pos _ false clauses (ignores.imp_right And.right)]

theorem straying_checkStmts : (stmts : List Stmt) →
    Ignores arm (Stmt.AllShaped expr initial stmts) →
    (context.checkStmts stmts : Straying arm Unit).checker = context.checkStmts stmts
  | [], _ => rfl
  | s :: rest, ignores => by
    simp [checkStmts, straying_checkStmt s (ignores.imp_right And.left),
      straying_checkStmts rest (ignores.imp_right And.right)]

theorem straying_checkClauses (pos : Position) (subject : Ty) (hasDefault : Bool) :
    (clauses : List Stmt) → Ignores arm (Stmt.AreShapedClauses expr initial clauses) →
    (context.checkClauses pos subject hasDefault clauses : Straying arm Unit).checker =
      context.checkClauses pos subject hasDefault clauses
  | [], _ => by simp [checkClauses]
  | .clause _ (some _) body :: rest, ignores => by
    have onBody := straying_checkStmts body (ignores.imp_right fun shaped => shaped.2.1)
    have later := straying_checkClauses pos subject hasDefault rest
      (ignores.imp_right fun shaped => shaped.2.2)
    simp [checkClauses, onBody, later]
  | .clause _ none body :: rest, ignores => by
    have onBody := straying_checkStmts body (ignores.imp_right fun shaped => shaped.2.1)
    have later := straying_checkClauses pos subject true rest
      (ignores.imp_right fun shaped => shaped.2.2)
    simp [checkClauses, onBody, later]
  | .bad _ :: rest, ignores | .empty _ :: rest, ignores | .decl _ _ :: rest, ignores
  | .simple _ :: rest, ignores | .ret _ _ :: rest, ignores | .block _ _ :: rest, ignores
  | .branch _ _ _ _ :: rest, ignores | .switch _ _ _ :: rest, ignores
  | .forLoop _ _ _ _ _ :: rest, ignores | .whileLoop _ _ _ :: rest, ignores
  | .scan _ _ :: rest, ignores | .print _ _ :: rest, ignores => by
    rcases ignores with nothing | none
    · simp [checkClauses, nothing, straying_checkClauses pos subject hasDefault rest (.inl nothing)]
    · exact none.elim

end

variable {stmts : List Stmt}

/-- The check with an arm that does nothing is the check. -/
theorem checkStmtsOr_nothing :
    context.checkStmtsOr (fun _ => pure ()) stmts = context.checkStmts stmts :=
  straying_checkStmts stmts
    (show Ignores _ (Stmt.AllShaped (fun _ => True) (fun _ => True) stmts) from .inl fun _ => rfl)

/-- On statements that have their shape the arm is never taken. -/
theorem checkStmtsOr_of_shaped (shaped : Stmt.AllShaped expr initial stmts) :
    context.checkStmtsOr arm stmts = context.checkStmts stmts :=
  straying_checkStmts stmts (.inr shaped)

end FunctionContext

end MiniC
