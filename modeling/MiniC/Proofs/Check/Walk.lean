import MiniC.Compilation
import MiniC.Stmt.Check
import MiniC.Proofs.Scope.Reached

/-!
The walk of the checker stays in the scopes that it can reach. Every part of it
goes from a reached scope to another, so all expressions are judged in one.
-/

namespace MiniC

namespace Checker

variable {α β : Type} {file : File}

/-- From scopes that can be reached, the check comes to such scopes. -/
def Keeps (file : File) (c : Checker α) : Prop :=
  ∀ state, Reached file state.scope → Reached file (c.run state).state.scope

namespace Keeps

theorem still {c : Checker α} (same : ∀ state, (c.run state).state.scope = state.scope) :
    Keeps file c := by
  intro state reached
  rw [same]
  exact reached

theorem pure (a : α) : Keeps file (pure a) := still fun _ => rfl

theorem judge (exprs : List Expr) (look : Scope → Verdict α) :
    Keeps file (Walking.judge exprs look) :=
  still fun _ => rfl

theorem report (pos : Position) (problem : Problem) : Keeps file (report pos problem) :=
  still fun _ => rfl

theorem bind {c : Checker α} {f : α → Checker β} (first : Keeps file c)
    (next : ∀ a, Keeps file (f a)) : Keeps file (c >>= f) :=
  fun state reached => next _ _ (first state reached)

theorem ite {p : Prop} [Decidable p] {yes no : Checker α} (isYes : Keeps file yes)
    (isNo : Keeps file no) : Keeps file (if p then yes else no) := by
  by_cases holds : p
  · rwa [if_pos holds]
  · rwa [if_neg holds]

theorem declare {name : String} {ty : Ty} {isConst : Bool}
    (entered : ∀ scope symbol next, Reached file scope →
      scope.addVar name ty isConst = some (symbol, next) → Reached file next) :
    Keeps file (declare name ty isConst) := by
  intro state reached
  cases added : state.scope.addVar name ty isConst with
  | none =>
    rw [run_declare_none added]
    exact reached
  | some found =>
    rw [run_declare_some added]
    exact entered _ _ _ reached added

end Keeps

end Checker

open Checker

variable {file : File}

theorem VarDecl.checkEntered_keeps (v : VarDecl) (d : Declarator) (isEntered : Bool) :
    Keeps file (v.checkEntered d isEntered) := by
  apply Keeps.ite
  · cases d.init with
    | none => exact Keeps.pure ()
    | some init => exact Keeps.judge [init] _
  · exact Keeps.report _ _

theorem VarDecl.check_keeps {v : VarDecl} (isVar : v ∈ file.varDecls) : Keeps file v.check := by
  suffices all : ∀ list, (∀ d ∈ list, d ∈ v.declarators) → Keeps file (v.checkAll list) from
    all v.declarators fun _ member => member
  intro list areDeclared
  induction list with
  | nil => exact Keeps.pure ()
  | cons d rest ih =>
    obtain ⟨member, later⟩ := List.forall_mem_cons.mp areDeclared
    have entered : Keeps file (declare d.name.text (v.typeOf d) v.isConst) :=
      Keeps.declare fun _ _ _ reached added => .var isVar member added reached
    have declared : Keeps file (v.checkDeclarator d) := by
      apply Keeps.bind (Keeps.still fun _ => rfl)
      intro scope
      apply Keeps.ite
      · exact Keeps.bind (Keeps.pure false) (v.checkEntered_keeps d)
      · exact Keeps.bind entered (v.checkEntered_keeps d)
    apply Keeps.bind declared
    intro _
    exact ih later

theorem openBlock_keeps : Keeps file openBlock := fun _ reached => .openBlock reached

theorem closeBlock_keeps : Keeps file closeBlock := fun _ reached => .closeBlock reached

namespace FunctionContext

variable (context : FunctionContext)

theorem checkReturn_keeps (pos : Position) (value : Option Expr) :
    Keeps file (context.checkReturn pos value) := by
  cases value with
  | none =>
    apply Keeps.ite
    · exact Keeps.report _ _
    · exact Keeps.pure ()
  | some value =>
    apply Keeps.ite
    · apply Keeps.bind (Keeps.judge [value] _)
      intro _
      exact Keeps.report _ _
    · apply Keeps.bind (Keeps.judge [value] _)
      intro _
      exact Keeps.still fun _ => rfl

mutual

theorem checkStmt_keeps : (s : Stmt) → (∀ v ∈ s.varDecls, v ∈ file.varDecls) →
    Keeps file (context.checkStmt s)
  | .bad _, _ | .empty _, _ | .decl _ none, _ | .clause _ _ _, _ => Keeps.pure ()
  | .decl _ (some vars), within => VarDecl.check_keeps (within vars (by simp [Stmt.varDecls]))
  | .simple s, _ => Keeps.judge s.exprs _
  | .scan _ target, _ => Keeps.judge [target] _
  | .print _ args, _ => Keeps.judge args _
  | .ret pos value, _ => context.checkReturn_keeps pos value
  | .block _ body, within => by
    apply Keeps.bind openBlock_keeps
    intro _
    apply Keeps.bind (checkStmts_keeps body within)
    intro _
    exact closeBlock_keeps
  | .branch _ cond yes none, within => by
    apply Keeps.bind (Keeps.judge [cond] _)
    intro _
    exact checkStmt_keeps yes within
  | .branch _ cond yes (some no), within => by
    obtain ⟨inYes, inNo⟩ := List.forall_mem_append.mp within
    apply Keeps.bind (Keeps.judge [cond] _)
    intro _
    apply Keeps.bind (checkStmt_keeps yes inYes)
    intro _
    exact checkStmt_keeps no inNo
  | .whileLoop _ cond body, within => by
    apply Keeps.bind (Keeps.judge [cond] _)
    intro _
    exact checkStmt_keeps body within
  | .forLoop _ init cond next body, within => by
    apply Keeps.bind (Keeps.judge (Simple.headerExprs init) _)
    intro _
    apply Keeps.bind (Keeps.judge (Simple.headerExprs cond) _)
    intro _
    apply Keeps.bind (Keeps.judge (Simple.headerExprs next) _)
    intro _
    exact checkStmt_keeps body within
  | .switch pos subject clauses, within => by
    apply Keeps.bind (Keeps.judge [subject] _)
    intro found
    exact checkClauses_keeps pos found false clauses within

theorem checkStmts_keeps : (stmts : List Stmt) →
    (∀ v ∈ Stmt.allVarDecls stmts, v ∈ file.varDecls) → Keeps file (context.checkStmts stmts)
  | [], _ => Keeps.pure ()
  | s :: rest, within => by
    obtain ⟨here, later⟩ := List.forall_mem_append.mp within
    apply Keeps.bind (checkStmt_keeps s here)
    intro _
    exact checkStmts_keeps rest later

theorem checkClauses_keeps (pos : Position) (subject : Ty) (hasDefault : Bool) :
    (clauses : List Stmt) → (∀ v ∈ Stmt.allVarDecls clauses, v ∈ file.varDecls) →
      Keeps file (context.checkClauses pos subject hasDefault clauses)
  | [], _ => by
    apply Keeps.ite
    · exact Keeps.pure ()
    · exact Keeps.report _ _
  | .clause _ (some label) body :: rest, within => by
    obtain ⟨inBody, later⟩ := List.forall_mem_append.mp within
    apply Keeps.bind (Keeps.judge [label] _)
    intro _
    apply Keeps.bind (checkStmts_keeps body inBody)
    intro _
    exact checkClauses_keeps pos subject hasDefault rest later
  | .clause _ none body :: rest, within => by
    obtain ⟨inBody, later⟩ := List.forall_mem_append.mp within
    apply Keeps.ite
    · exact Keeps.report _ _
    · apply Keeps.bind (checkStmts_keeps body inBody)
      intro _
      exact checkClauses_keeps pos subject true rest later
  | .bad _ :: rest, within | .empty _ :: rest, within | .decl _ _ :: rest, within
  | .simple _ :: rest, within | .ret _ _ :: rest, within | .block _ _ :: rest, within
  | .branch _ _ _ _ :: rest, within | .switch _ _ _ :: rest, within
  | .forLoop _ _ _ _ _ :: rest, within | .whileLoop _ _ _ :: rest, within
  | .scan _ _ :: rest, within | .print _ _ :: rest, within =>
    checkClauses_keeps pos subject hasDefault rest (List.forall_mem_append.mp within).2

end

end FunctionContext

theorem declareParams_keeps {f : FuncDecl} (isFunc : f ∈ file.funcs) (params : List Param)
    (within : ∀ param ∈ params, param ∈ f.params.params) : Keeps file (declareParams params) := by
  induction params with
  | nil => exact Keeps.pure ()
  | cons param rest ih =>
    obtain ⟨member, others⟩ := List.forall_mem_cons.mp within
    have later := ih others
    unfold declareParams
    by_cases isInvalid : param.ty.isInvalid = true
    · simp only [isInvalid, Bool.not_true, Bool.false_eq_true, if_false]
      exact later
    · have entered : Keeps file (declare param.name.text param.ty false) :=
        Keeps.declare fun _ _ _ reached added =>
          .param isFunc member (by simpa using isInvalid) added reached
      rw [if_pos (by simpa using isInvalid)]
      apply Keeps.bind entered
      intro isEntered
      apply Keeps.ite
      · exact Keeps.bind (Keeps.report _ _) fun _ => later
      · exact later

/-- A function and what is in it. -/
theorem FuncDecl.check_keeps {f : FuncDecl} (isFunc : f ∈ file.funcs)
    (within : ∀ v ∈ Stmt.allVarDecls f.body, v ∈ file.varDecls) (number : Nat) :
    Keeps file (f.check number) := by
  have body : Keeps file f.checkBody := by
    apply Keeps.bind openBlock_keeps
    intro _
    apply Keeps.bind (declareParams_keeps isFunc _ fun _ member => member)
    intro _
    apply Keeps.bind (Keeps.still fun _ => rfl)
    intro _
    apply Keeps.bind (f.context.checkStmts_keeps f.body within)
    intro _
    apply Keeps.bind (Keeps.still fun _ => rfl)
    intro returnsValue
    -- the block is closed on both ways out
    apply Keeps.ite
    · exact Keeps.bind (Keeps.report _ _) fun _ => closeBlock_keeps
    · exact closeBlock_keeps
  intro state reached
  rw [f.run_check]
  cases entered : f.enter? number state.scope with
  | none => exact reached
  | some scope => exact body ⟨scope, state.returnsValue⟩ (.func isFunc entered reached)

theorem Decl.check_keeps {decl : Decl} (isDecl : decl ∈ file.decls) (number : Nat) :
    Keeps file (decl.check number) := by
  cases decl with
  | bad => exact Keeps.pure ()
  | func pos f =>
    apply FuncDecl.check_keeps
    · exact List.mem_filterMap.mpr ⟨_, isDecl, rfl⟩
    · exact fun v member => List.mem_flatMap.mpr ⟨_, isDecl, member⟩
  | vars pos v =>
    exact VarDecl.check_keeps (List.mem_flatMap.mpr ⟨_, isDecl, List.mem_singleton_self v⟩)

/-- From the start on, the checking of the first declarations of a file comes to
a scope that can be reached. -/
theorem File.checkDecls_keeps (number : Nat) (decls : List Decl)
    (within : ∀ decl ∈ decls, decl ∈ file.decls) : Keeps file (checkDecls number decls) := by
  induction decls generalizing number with
  | nil => exact Keeps.pure ()
  | cons decl rest ih =>
    obtain ⟨isDecl, later⟩ := List.forall_mem_cons.mp within
    apply Keeps.bind (Decl.check_keeps isDecl number)
    intro _
    exact ih (number + 1) later

end MiniC
