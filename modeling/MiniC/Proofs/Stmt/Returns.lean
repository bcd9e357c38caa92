import MiniC.Stmt.Check
import MiniC.Proofs.Static.Rules
import MiniC.Proofs.Stmt.Orderly

/-!
Whether the checker meets a return with a value. A return is found at whatever
depth of blocks, branches and loops, and whatever was reported before it; only a
switch is left at its second default, with the clauses that come from there on.
The induction is on the statement, whose parts are checked one behind the other.
-/

namespace MiniC

namespace Stmt

mutual

/-- Whether a value is returned anywhere in a statement, but for the clauses of a
switch from its second default on. -/
def returnsChecked : Stmt → Bool
  | ret _ value => value.isSome
  | block _ body | clause _ _ body => anyReturnsChecked body
  | branch _ _ yes none => yes.returnsChecked
  | branch _ _ yes (some no) => yes.returnsChecked || no.returnsChecked
  | forLoop _ _ _ _ body | whileLoop _ _ body => body.returnsChecked
  | switch _ _ clauses => clausesReturn false clauses
  | bad _ | empty _ | decl _ _ | simple _ | scan _ _ | print _ _ => false

def anyReturnsChecked : List Stmt → Bool
  | [] => false
  | s :: rest => s.returnsChecked || anyReturnsChecked rest

/-- Clauses of a switch, given whether a default came before. -/
def clausesReturn (hasDefault : Bool) : List Stmt → Bool
  | [] => false
  | s :: rest =>
    !(hasDefault && s.isDefault) &&
      (s.returnsChecked || clausesReturn (hasDefault || s.isDefault) rest)

end

mutual

/-- No switch in a statement has a second default. -/
def HasSingleDefaults : Stmt → Prop
  | block _ body | clause _ _ body => AllSingleDefaults body
  | branch _ _ yes none => yes.HasSingleDefaults
  | branch _ _ yes (some no) => yes.HasSingleDefaults ∧ no.HasSingleDefaults
  | forLoop _ _ _ _ body | whileLoop _ _ body => body.HasSingleDefaults
  | switch _ _ clauses => clauses.countP isDefault ≤ 1 ∧ AllSingleDefaults clauses
  | bad _ | empty _ | decl _ _ | simple _ | ret _ _ | scan _ _ | print _ _ => True

def AllSingleDefaults : List Stmt → Prop
  | [] => True
  | s :: rest => s.HasSingleDefaults ∧ AllSingleDefaults rest

end

mutual

/-- What is checked is part of the statement. -/
theorem returnsValue_of_checked : (s : Stmt) → s.returnsChecked = true → s.returnsValue = true
  | ret _ _, returns => returns
  | block _ body, returns | clause _ _ body, returns => anyReturnsValue_of_checked body returns
  | branch _ _ yes none, returns => returnsValue_of_checked yes returns
  | branch _ _ yes (some no), returns => by
    rw [returnsChecked, Bool.or_eq_true] at returns
    rw [returnsValue, Bool.or_eq_true]
    exact returns.imp (returnsValue_of_checked yes) (returnsValue_of_checked no)
  | forLoop _ _ _ _ body, returns | whileLoop _ _ body, returns =>
    returnsValue_of_checked body returns
  | switch _ _ clauses, returns => anyReturnsValue_of_clauses false clauses returns

theorem anyReturnsValue_of_checked : (stmts : List Stmt) → anyReturnsChecked stmts = true →
    anyReturnsValue stmts = true
  | s :: rest, returns => by
    rw [anyReturnsChecked, Bool.or_eq_true] at returns
    rw [anyReturnsValue, Bool.or_eq_true]
    exact returns.imp (returnsValue_of_checked s) (anyReturnsValue_of_checked rest)

theorem anyReturnsValue_of_clauses (hasDefault : Bool) : (clauses : List Stmt) →
    clausesReturn hasDefault clauses = true → anyReturnsValue clauses = true
  | s :: rest, returns => by
    rw [clausesReturn, Bool.and_eq_true, Bool.or_eq_true] at returns
    rw [anyReturnsValue, Bool.or_eq_true]
    exact returns.2.imp (returnsValue_of_checked s) (anyReturnsValue_of_clauses _ rest)

end

mutual

/-- Without a second default everything is checked. -/
theorem returnsChecked_eq : (s : Stmt) → s.HasSingleDefaults → s.returnsChecked = s.returnsValue
  | ret _ _, _ | bad _, _ | empty _, _ | decl _ _, _ | simple _, _ | scan _ _, _ | print _ _, _ => by
    simp only [returnsChecked, returnsValue]
  | block _ body, single | clause _ _ body, single => by
    rw [returnsChecked, returnsValue]
    exact anyReturnsChecked_eq body single
  | branch _ _ yes none, single => by
    rw [returnsChecked, returnsValue]
    exact returnsChecked_eq yes single
  | branch _ _ yes (some no), ⟨isYes, isNo⟩ => by
    rw [returnsChecked, returnsValue, returnsChecked_eq yes isYes, returnsChecked_eq no isNo]
  | forLoop _ _ _ _ body, single | whileLoop _ _ body, single => by
    rw [returnsChecked, returnsValue]
    exact returnsChecked_eq body single
  | switch _ _ clauses, ⟨one, single⟩ => by
    rw [returnsChecked, returnsValue]
    exact clausesReturn_eq false clauses (by simpa using one) single

theorem anyReturnsChecked_eq : (stmts : List Stmt) → AllSingleDefaults stmts →
    anyReturnsChecked stmts = anyReturnsValue stmts
  | [], _ => rfl
  | s :: rest, ⟨here, later⟩ => by
    rw [anyReturnsChecked, anyReturnsValue, returnsChecked_eq s here, anyReturnsChecked_eq rest later]

theorem clausesReturn_eq (hasDefault : Bool) : (clauses : List Stmt) →
    hasDefault.toNat + clauses.countP isDefault ≤ 1 → AllSingleDefaults clauses →
      clausesReturn hasDefault clauses = anyReturnsValue clauses
  | [], _, _ => rfl
  | s :: rest, one, ⟨here, later⟩ => by
    have counted : (s :: rest).countP isDefault = s.isDefault.toNat + rest.countP isDefault := by
      rw [List.countP_cons, Nat.add_comm]
      cases s.isDefault <;> rfl
    rw [counted] at one
    have first : (hasDefault && s.isDefault) = false := by
      cases hasDefault <;> cases same : s.isDefault
      case true.true =>
        rw [same, Bool.toNat_true] at one
        omega
      all_goals rfl
    have others : (hasDefault || s.isDefault).toNat + rest.countP isDefault ≤ 1 := by
      have either : (hasDefault || s.isDefault).toNat ≤ hasDefault.toNat + s.isDefault.toNat := by
        cases hasDefault <;> cases s.isDefault <;> decide
      omega
    rw [clausesReturn, anyReturnsValue, first, Bool.not_false, Bool.true_and,
      returnsChecked_eq s here, clausesReturn_eq _ rest others later]

end

end Stmt

namespace Checker

variable {α β : Type}

/-- The check notes a return with a value, or none, and forgets none. -/
def Notes (c : Checker α) (returned : Bool) : Prop :=
  ∀ state, (c.run state).state.returnsValue = (state.returnsValue || returned)

namespace Notes

theorem none {c : Checker α} (same : ∀ state, (c.run state).state.returnsValue = state.returnsValue) :
    Notes c false := by
  intro state
  rw [same, Bool.or_false]

theorem pure (a : α) : Notes (pure a) false := none fun _ => rfl

theorem judge (exprs : List Expr) (look : Scope → Verdict α) :
    Notes (Walking.judge exprs look) false :=
  none fun _ => rfl

theorem report (pos : Position) (problem : Problem) : Notes (report pos problem) false :=
  none fun _ => rfl

theorem bind {c : Checker α} {f : α → Checker β} {first second : Bool} (notes : c.Notes first)
    (next : ∀ a, (f a).Notes second) : Notes (c >>= f) (first || second) := by
  intro state
  rw [← Bool.or_assoc, ← notes state]
  exact next _ _

/-- Nothing is noted before. -/
theorem after {c : Checker α} {f : α → Checker β} {returned : Bool} (notes : c.Notes false)
    (next : ∀ a, (f a).Notes returned) : Notes (c >>= f) returned :=
  bind notes next

/-- Nothing is noted behind. -/
theorem before {c : Checker α} {f : α → Checker β} {returned : Bool} (notes : c.Notes returned)
    (next : ∀ a, (f a).Notes false) : Notes (c >>= f) returned := by
  have both := bind notes next
  rwa [Bool.or_false] at both

theorem ite {p : Prop} [Decidable p] {yes no : Checker α} {returned : Bool}
    (isYes : yes.Notes returned) (isNo : no.Notes returned) :
    Notes (if p then yes else no) returned := by
  by_cases holds : p
  · rwa [if_pos holds]
  · rwa [if_neg holds]

theorem declare (name : String) (ty : Ty) (isConst : Bool) :
    Notes (declare name ty isConst) false := by
  apply none
  intro state
  cases added : state.scope.addVar name ty isConst with
  | none => rw [run_declare_none added]
  | some found => rw [run_declare_some added]

end Notes

end Checker

open Checker

theorem VarDecl.checkEntered_notes (v : VarDecl) (d : Declarator) (isEntered : Bool) :
    (v.checkEntered d isEntered).Notes false := by
  apply Notes.ite
  · cases d.init with
    | none => exact Notes.pure ()
    | some init => exact Notes.judge [init] _
  · exact Notes.report _ _

theorem VarDecl.check_notes (v : VarDecl) : v.check.Notes false := by
  have declarator (d : Declarator) : Notes (v.checkDeclarator d) false := by
    apply Notes.after (Notes.none fun _ => rfl)
    intro scope
    apply Notes.ite
    · exact Notes.after (Notes.pure false) (v.checkEntered_notes d)
    · exact Notes.after (Notes.declare _ _ _) (v.checkEntered_notes d)
  unfold VarDecl.check
  induction v.declarators with
  | nil => exact Notes.pure ()
  | cons d rest ih =>
    apply Notes.after (declarator d)
    intro _
    exact ih

namespace FunctionContext

variable (context : FunctionContext)

theorem checkReturn_notes (valued : context.returns ≠ .void) (pos : Position) (value : Option Expr) :
    (context.checkReturn pos value).Notes value.isSome := by
  cases value with
  | none =>
    apply Notes.ite
    · exact Notes.report _ _
    · exact Notes.pure ()
  | some value =>
    have returned : context.checkReturn pos (some value) = (do
        Walking.judge [value] (context.checkReturned value)
        setReturnsValue true) :=
      if_neg valued
    rw [returned]
    apply Notes.after (Notes.judge [value] _)
    intro _ state
    exact (Bool.or_true _).symm

mutual

theorem checkStmt_notes (valued : context.returns ≠ .void) : (s : Stmt) → s.IsOrderly →
    (context.checkStmt s).Notes s.returnsChecked
  | .bad _, _ | .empty _, _ | .decl _ none, _ => Notes.pure ()
  | .decl _ (some vars), _ => vars.check_notes
  | .simple s, _ => Notes.judge s.exprs _
  | .scan _ target, _ => Notes.judge [target] _
  | .print _ args, _ => Notes.judge args _
  | .ret pos value, _ => context.checkReturn_notes valued pos value
  | .block _ body, orderly => by
    apply Notes.after (Notes.none fun _ => rfl)
    intro _
    apply Notes.before (checkStmts_notes valued body orderly)
    intro _
    exact Notes.none fun _ => rfl
  | .branch _ cond yes none, orderly => by
    apply Notes.after (Notes.judge [cond] _)
    intro _
    exact checkStmt_notes valued yes orderly
  | .branch _ cond yes (some no), ⟨isYes, isNo⟩ => by
    apply Notes.after (Notes.judge [cond] _)
    intro _
    apply Notes.bind (checkStmt_notes valued yes isYes)
    intro _
    exact checkStmt_notes valued no isNo
  | .whileLoop _ cond body, orderly => by
    apply Notes.after (Notes.judge [cond] _)
    intro _
    exact checkStmt_notes valued body orderly
  | .forLoop _ init cond next body, orderly => by
    apply Notes.after (Notes.judge (Simple.headerExprs init) _)
    intro _
    apply Notes.after (Notes.judge (Simple.headerExprs cond) _)
    intro _
    apply Notes.after (Notes.judge (Simple.headerExprs next) _)
    intro _
    exact checkStmt_notes valued body orderly
  | .switch pos subject clauses, orderly => by
    apply Notes.after (Notes.judge [subject] _)
    intro found
    exact checkClauses_notes valued pos found false clauses orderly

theorem checkStmts_notes (valued : context.returns ≠ .void) : (stmts : List Stmt) →
    Stmt.AllOrderly stmts → (context.checkStmts stmts).Notes (Stmt.anyReturnsChecked stmts)
  | [], _ => Notes.pure ()
  | s :: rest, ⟨here, later⟩ => by
    apply Notes.bind (checkStmt_notes valued s here)
    intro _
    exact checkStmts_notes valued rest later

theorem checkClauses_notes (valued : context.returns ≠ .void) (pos : Position) (subject : Ty)
    (hasDefault : Bool) : (clauses : List Stmt) → Stmt.AreOrderlyClauses clauses →
      (context.checkClauses pos subject hasDefault clauses).Notes
        (Stmt.clausesReturn hasDefault clauses)
  | [], _ => by
    apply Notes.ite
    · exact Notes.pure ()
    · exact Notes.report _ _
  | .clause place (some label) body :: rest, ⟨here, later⟩ => by
    have noDefault : (Stmt.clause place (some label) body).isDefault = false := rfl
    rw [Stmt.clausesReturn, noDefault, Bool.and_false, Bool.not_false, Bool.true_and, Bool.or_false]
    apply Notes.after (Notes.judge [label] _)
    intro _
    apply Notes.bind (checkStmts_notes valued body here)
    intro _
    exact checkClauses_notes valued pos subject hasDefault rest later
  | .clause _ none body :: rest, ⟨here, later⟩ => by
    cases hasDefault with
    | true => exact Notes.report _ _
    | false =>
      apply Notes.bind (checkStmts_notes valued body here)
      intro _
      exact checkClauses_notes valued pos subject true rest later

end

end FunctionContext

end MiniC
