import MiniC.Proofs.Check.Traced

/-!
The walk of the checker, watched. Beside what the checker does, it is listed which
expressions it looks at, each with the scope it looks at them in, and which nodes of
them the checks go to. Taking the lists away leaves the checker as it is.
-/

namespace MiniC

open Walking (judge stray)

structure Watched (α : Type) where
  checker : Checker α
  /-- What is looked at from a state on, in order. -/
  seen : CheckState → List (Expr × Scope)
  /-- The nodes that are gone to from a state on, in order. -/
  visited : CheckState → List Expr

namespace Watched

variable {α β : Type}

protected def pure (a : α) : Watched α := ⟨Checker.pure a, fun _ => [], fun _ => []⟩

protected def bind (first : Watched α) (next : α → Watched β) : Watched β where
  checker := first.checker.bind fun a => (next a).checker
  seen state :=
    let before := first.checker.run state
    first.seen state ++ (next before.value).seen before.state
  visited state :=
    let before := first.checker.run state
    first.visited state ++ (next before.value).visited before.state

instance : Monad Watched where
  pure := Watched.pure
  bind := Watched.bind

/-- A step that looks at no expression. -/
def blind (checker : Checker α) : Watched α := ⟨checker, fun _ => [], fun _ => []⟩

instance : MonadLift Checker Watched := ⟨blind⟩

instance : Walking Watched Traced where
  judge exprs look :=
    { checker := Checker.judge fun scope => (look scope).verdict
      seen state := exprs.map (·, state.scope)
      visited state := (look state.scope).visited }
  stray _ := pure ()

@[simp]
theorem checker_pure (a : α) : (pure a : Watched α).checker = pure a := rfl

@[simp]
theorem checker_bind (first : Watched α) (next : α → Watched β) :
    (first >>= next).checker = first.checker >>= fun a => (next a).checker :=
  rfl

@[simp]
theorem checker_lift (checker : Checker α) : (liftM checker : Watched α).checker = checker := rfl

@[simp]
theorem checker_judge (exprs : List Expr) (look : Scope → Traced α) :
    (judge exprs look : Watched α).checker = Checker.judge fun scope => (look scope).verdict :=
  rfl

@[simp]
theorem checker_stray (s : Stmt) : (stray s : Watched Unit).checker = pure () := rfl

@[simp]
theorem checker_ite {p : Prop} [Decidable p] (yes no : Watched α) :
    (if p then yes else no).checker = if p then yes.checker else no.checker :=
  apply_ite _ _ _ _

end Watched

namespace VarDecl

variable (vars : VarDecl)

@[simp]
theorem checker_checkEntered (d : Declarator) (isEntered : Bool) :
    (vars.checkEntered d isEntered : Watched Unit).checker = vars.checkEntered d isEntered := by
  unfold checkEntered
  cases d.init <;> simp

@[simp]
theorem checker_checkDeclarator (d : Declarator) :
    (vars.checkDeclarator d : Watched Unit).checker = vars.checkDeclarator d := by
  simp [checkDeclarator]

@[simp]
theorem checker_check : (vars.check : Watched Unit).checker = vars.check := by
  unfold check
  induction vars.declarators with
  | nil => rfl
  | cons d rest ih => simp [checkAll, ih]

end VarDecl

/-- A part of a loop header, when what is looked for in it is found alike. -/
theorem checker_checkHeader {look : Scope → Simple → Traced Unit}
    {check : Scope → Simple → Verdict Unit}
    (same : ∀ scope s, (look scope s).verdict = check scope s) (header : Option Simple) :
    (checkHeader look header : Watched Unit).checker = checkHeader check header := by
  cases header <;> simp [checkHeader, same]

namespace FunctionContext

variable (context : FunctionContext)

@[simp]
theorem checker_checkReturn (pos : Position) (value : Option Expr) :
    (context.checkReturn pos value : Watched Unit).checker = context.checkReturn pos value := by
  cases value <;> simp [checkReturn]

mutual

theorem checker_checkStmt : (s : Stmt) →
    (context.checkStmt s : Watched Unit).checker = context.checkStmt s
  | .bad _ | .empty _ | .decl _ none | .clause _ _ _ => rfl
  | .decl _ (some _) | .simple _ | .ret _ _ | .scan _ _ | .print _ _ => by simp [checkStmt]
  | .block _ body => by simp [checkStmt, checker_checkStmts body]
  | .branch _ _ yes none => by simp [checkStmt, checker_checkStmt yes]
  | .branch _ _ yes (some no) => by
    simp [checkStmt, checker_checkStmt yes, checker_checkStmt no]
  | .whileLoop _ _ body => by simp [checkStmt, checker_checkStmt body]
  | .forLoop _ _ _ _ body => by
    simp [checkStmt, checker_checkHeader (fun _ => Simple.verdict_check),
      checker_checkHeader (fun _ => Simple.verdict_checkCondition), checker_checkStmt body]
  | .switch pos _ clauses => by simp [checkStmt, checker_checkClauses pos _ _ clauses]

theorem checker_checkStmts : (stmts : List Stmt) →
    (context.checkStmts stmts : Watched Unit).checker = context.checkStmts stmts
  | [] => rfl
  | s :: rest => by simp [checkStmts, checker_checkStmt s, checker_checkStmts rest]

theorem checker_checkClauses (pos : Position) (subject : Ty) (hasDefault : Bool) :
    (clauses : List Stmt) →
      (context.checkClauses pos subject hasDefault clauses : Watched Unit).checker =
        context.checkClauses pos subject hasDefault clauses
  | [] => by simp [checkClauses]
  | .clause _ (some _) body :: rest => by
    simp [checkClauses, checker_checkStmts body, checker_checkClauses pos subject hasDefault rest]
  | .clause _ none body :: rest => by
    simp [checkClauses, checker_checkStmts body, checker_checkClauses pos subject true rest]
  | .bad _ :: rest | .empty _ :: rest | .decl _ _ :: rest | .simple _ :: rest | .ret _ _ :: rest
  | .block _ _ :: rest | .branch _ _ _ _ :: rest | .switch _ _ _ :: rest
  | .forLoop _ _ _ _ _ :: rest | .whileLoop _ _ _ :: rest | .scan _ _ :: rest
  | .print _ _ :: rest => by
    simp [checkClauses, checker_checkClauses pos subject hasDefault rest]

end

end FunctionContext

@[simp]
theorem FuncDecl.checker_check (f : FuncDecl) (number : Nat) :
    (f.check number : Watched Unit).checker = f.check number := by
  have body : (f.checkBody : Watched Unit).checker = f.checkBody := by
    simp [checkBody, f.context.checker_checkStmts f.body]
  unfold check
  rw [Watched.checker_bind]
  apply congrArg
  funext scope
  cases f.enter? number scope <;> simp [body]

theorem Decl.checker_check (number : Nat) (decl : Decl) :
    (decl.check number : Watched Unit).checker = decl.check number := by
  cases decl <;> simp [check]

namespace File

theorem checker_checkDecls (number : Nat) (decls : List Decl) :
    (checkDecls number decls : Watched Unit).checker = checkDecls number decls := by
  induction decls generalizing number with
  | nil => rfl
  | cons decl rest ih => simp [checkDecls, decl.checker_check, ih]

/-- The check of a file, watched. -/
def watch (file : File) : Watched Scope := file.check

/-- To watch the checker does not change it. -/
theorem watch_checker (file : File) : file.watch.checker = file.check := by
  simp [watch, check, checker_checkDecls]

end File

end MiniC
