import MiniC.Stmt.Check
import MiniC.Proofs.Layout.Judging

/-!
Checking a file on moved places. Checks are composed as the checker composes
them; only the functions in scope hold places, which move with the file.
-/

namespace MiniC

def CheckState.relocate (move : Position → Position) (state : CheckState) : CheckState :=
  { state with scope := SymbolTable.relocate move state.scope }

theorem SymbolTable.relocate_addFunc {move : Position → Position} (scope : Scope) (name : String)
    (known : KnownFunction) :
    (SymbolTable.relocate move scope).addFunc name (known.relocate move) =
      (scope.addFunc name known).map (SymbolTable.relocate move) := by
  unfold addFunc
  rw [relocate_func?]
  cases scope.func? name <;> rfl

/-- `moved` is what `still` comes to on moved places; its value is moved by
`change`. -/
structure CheckOutcome.IsMoved {α : Type} (move : Position → Position) (change : α → α)
    (still moved : CheckOutcome α) : Prop where
  value : moved.value = change still.value
  state : moved.state = still.state.relocate move
  raised : moved.log.raised = relocateAll move still.log.raised

namespace Checker

variable {α β : Type} {move : Position → Position}

/-- From a moved state, `moved` does as `still` does from the state itself. -/
def Moves (move : Position → Position) (change : α → α) (still moved : Checker α) : Prop :=
  ∀ state, (still.run state).IsMoved move change (moved.run (state.relocate move))

namespace Moves

variable {change : α → α} {still moved : Checker α}

theorem pure {a b : α} (same : b = change a) : Moves move change (pure a) (pure b) :=
  fun _ => ⟨same, rfl, rfl⟩

theorem bind {after : β → β} {next nextMoved : α → Checker β}
    (first : Moves move change still moved)
    (later : ∀ a, Moves move after (next a) (nextMoved (change a))) :
    Moves move after (still >>= next) (moved >>= nextMoved) := by
  intro state
  have here := first state
  have run : (moved >>= nextMoved).run (state.relocate move) =
      let rest := (nextMoved (change (still.run state).value)).run
        ((still.run state).state.relocate move)
      { rest with log := (moved.run (state.relocate move)).log ++ rest.log } := by
    rw [← here.value, ← here.state]
    rfl
  have there := later (still.run state).value (still.run state).state
  rw [run]
  exact ⟨there.value, there.state, Parser.raised_append_moved here.raised there.raised⟩

theorem after {first other : Checker α} {next nextMoved : α → Checker β} {change : β → β}
    (moves : Moves move id first other) (later : ∀ a, Moves move change (next a) (nextMoved a)) :
    Moves move change (first >>= next) (other >>= nextMoved) :=
  bind moves later

theorem ite {c : Prop} [Decidable c] {other otherMoved : Checker α}
    (yes : Moves move change still moved) (no : Moves move change other otherMoved) :
    Moves move change (if c then still else other) (if c then moved else otherMoved) := by
  by_cases holds : c
  · rwa [if_pos holds, if_pos holds]
  · rwa [if_neg holds, if_neg holds]

theorem scope : Moves move (SymbolTable.relocate move) scope scope := fun _ => ⟨rfl, rfl, rfl⟩

theorem setScope {next : Scope} {log other : Log}
    (same : other.raised = relocateAll move log.raised) :
    Moves move id (setScope next log) (setScope (SymbolTable.relocate move next) other) :=
  fun _ => ⟨rfl, rfl, same⟩

theorem returnsValue : Moves move id returnsValue returnsValue := fun _ => ⟨rfl, rfl, rfl⟩

theorem setReturnsValue (found : Bool) :
    Moves move id (setReturnsValue found) (setReturnsValue found) :=
  fun _ => ⟨rfl, rfl, rfl⟩

theorem report (pos : Position) (problem : Problem) :
    Moves move id (report pos problem) (report (move pos) problem) :=
  fun _ => ⟨rfl, rfl, rfl⟩

theorem judge {exprs exprsMoved : List Expr} {look lookMoved : Scope → Verdict α}
    (same : ∀ scope, lookMoved (SymbolTable.relocate move scope) = (look scope).relocate move) :
    Moves move id (Walking.judge exprs look) (Walking.judge exprsMoved lookMoved) := by
  intro state
  have here := same state.scope
  have value := congrArg Verdict.value here
  constructor
  · exact value
  · rfl
  · change Log.raised ((lookMoved _).problems.map Event.problem) =
      relocateAll move (Log.raised ((look state.scope).problems.map Event.problem))
    rw [Log.raised_problems, Log.raised_problems]
    exact congrArg Verdict.problems here

theorem openBlock : Moves move id openBlock openBlock :=
  bind scope fun _ => setScope rfl

theorem closeBlock : Moves move id closeBlock closeBlock := by
  apply bind scope
  intro inner
  have same : (SymbolTable.relocate move inner).closeBlock =
      SymbolTable.relocate move inner.closeBlock := by
    obtain ⟨symbols, level, funcs, nextId⟩ := inner
    cases level <;> rfl
  rw [same]
  exact setScope rfl

theorem declare (name : String) (ty : Ty) (isConst : Bool) :
    Moves move id (declare name ty isConst) (declare name ty isConst) := by
  apply bind scope
  intro before
  have same : (SymbolTable.relocate move before).addVar name ty isConst =
      (before.addVar name ty isConst).map fun added =>
        (added.1, SymbolTable.relocate move added.2) := by
    unfold SymbolTable.addVar
    rw [apply_ite (Option.map _)]
    rfl
  rw [same]
  cases before.addVar name ty isConst with
  | none => exact pure rfl
  | some added =>
    apply after (setScope rfl)
    intro _
    exact pure rfl

end Moves

end Checker

open Checker

variable {move : Position → Position}

theorem VarDecl.checkEntered_moves (v : VarDecl) (d : Declarator) (isEntered : Bool) :
    Moves move id (v.checkEntered d isEntered)
      ((v.relocate move).checkEntered (d.relocate move) isEntered) := by
  obtain ⟨name, sizes, init⟩ := d
  apply Moves.ite
  · cases init with
    | none => exact Moves.pure rfl
    | some init => exact Moves.judge fun scope => relocate_checkInit scope _ init
  · exact Moves.report _ _

theorem VarDecl.checkDeclarator_moves (v : VarDecl) (d : Declarator) :
    Moves move id (v.checkDeclarator d) ((v.relocate move).checkDeclarator (d.relocate move)) := by
  apply Moves.bind Moves.scope
  intro scope
  have known : ((SymbolTable.relocate move scope).func? d.name.text).isSome =
      (scope.func? d.name.text).isSome := by
    rw [SymbolTable.relocate_func?, Option.isSome_map]
  have text : (d.relocate move).name.text = d.name.text := rfl
  dsimp only
  rw [text, known]
  apply Moves.ite
  · exact Moves.after (Moves.pure rfl) (v.checkEntered_moves d)
  · exact Moves.after (Moves.declare _ _ _) (v.checkEntered_moves d)

theorem VarDecl.check_moves (v : VarDecl) : Moves move id v.check (v.relocate move).check := by
  suffices all : ∀ list, Moves move id (v.checkAll list)
      ((v.relocate move).checkAll (list.map (Declarator.relocate move))) from all v.declarators
  intro list
  induction list with
  | nil => exact Moves.pure rfl
  | cons d rest ih =>
    apply Moves.after (v.checkDeclarator_moves d)
    intro _
    exact ih

theorem checkHeader_moves {look : Scope → Simple → Verdict Unit} (header : Option Simple)
    (same : ∀ scope s, look (SymbolTable.relocate move scope) (s.relocate move) =
      (look scope s).relocate move) :
    Moves move id (checkHeader look header)
      (checkHeader look (header.map (Simple.relocate move))) := by
  apply Moves.judge
  intro scope
  cases header with
  | none => rfl
  | some s => exact same scope s

namespace FunctionContext

variable (context : FunctionContext)

theorem checkReturn_moves (pos : Position) (value : Option Expr) :
    Moves move id (context.checkReturn pos value)
      (context.checkReturn (move pos) (value.map (Expr.relocate move))) := by
  cases value with
  | none =>
    apply Moves.ite
    · exact Moves.report _ _
    · exact Moves.pure rfl
  | some value =>
    apply Moves.ite
    · apply Moves.after (Moves.judge fun scope => value.relocate_check scope)
      intro _
      exact Moves.report _ _
    · apply Moves.after (Moves.judge fun scope => context.relocate_checkReturned scope value)
      intro _
      exact Moves.setReturnsValue _

theorem condition_moves (cond : Expr) :
    Moves move id (Walking.judge [cond] (cond.checkCondition ·))
      (Walking.judge [cond.relocate move] ((cond.relocate move).checkCondition ·)) :=
  Moves.judge fun scope => cond.relocate_checkCondition scope

mutual

theorem checkStmt_moves : (s : Stmt) →
    Moves move id (context.checkStmt s) (context.checkStmt (s.relocate move))
  | .bad _ | .empty _ | .decl _ none | .clause _ _ _ => Moves.pure rfl
  | .decl _ (some vars) => vars.check_moves
  | .simple s => Moves.judge fun scope => s.relocate_check scope
  | .scan _ target => Moves.judge fun scope => relocate_checkScan scope target
  | .print pos args => Moves.judge fun scope => relocate_checkPrint scope pos args
  | .ret pos value => context.checkReturn_moves pos value
  | .block _ body => by
    apply Moves.after Moves.openBlock
    intro _
    apply Moves.after (checkStmts_moves body)
    intro _
    exact Moves.closeBlock
  | .branch _ cond yes none => by
    apply Moves.after (condition_moves cond)
    intro _
    exact checkStmt_moves yes
  | .branch _ cond yes (some no) => by
    apply Moves.after (condition_moves cond)
    intro _
    apply Moves.after (checkStmt_moves yes)
    intro _
    exact checkStmt_moves no
  | .whileLoop _ cond body => by
    apply Moves.after (condition_moves cond)
    intro _
    exact checkStmt_moves body
  | .forLoop _ init cond next body => by
    apply Moves.after (checkHeader_moves init Simple.relocate_check)
    intro _
    apply Moves.after (checkHeader_moves cond Simple.relocate_checkCondition)
    intro _
    apply Moves.after (checkHeader_moves next Simple.relocate_check)
    intro _
    exact checkStmt_moves body
  | .switch pos subject clauses => by
    apply Moves.after (Moves.judge fun scope => relocate_checkSubject scope subject)
    intro found
    exact checkClauses_moves pos found false clauses

theorem checkStmts_moves : (stmts : List Stmt) →
    Moves move id (context.checkStmts stmts) (context.checkStmts (Stmt.relocateAll move stmts))
  | [] => Moves.pure rfl
  | s :: rest => by
    apply Moves.after (checkStmt_moves s)
    intro _
    exact checkStmts_moves rest

theorem checkClauses_moves (pos : Position) (subject : Ty) (hasDefault : Bool) :
    (clauses : List Stmt) → Moves move id (context.checkClauses pos subject hasDefault clauses)
      (context.checkClauses (move pos) subject hasDefault (Stmt.relocateAll move clauses))
  | [] => by
    apply Moves.ite
    · exact Moves.pure rfl
    · exact Moves.report _ _
  | .clause _ (some label) body :: rest => by
    apply Moves.after (Moves.judge fun scope => relocate_checkLabel scope subject label)
    intro _
    apply Moves.after (checkStmts_moves body)
    intro _
    exact checkClauses_moves pos subject hasDefault rest
  | .clause _ none body :: rest => by
    apply Moves.ite
    · exact Moves.report _ _
    · apply Moves.after (checkStmts_moves body)
      intro _
      exact checkClauses_moves pos subject true rest
  | .bad _ :: rest | .empty _ :: rest | .decl _ _ :: rest | .simple _ :: rest | .ret _ _ :: rest
  | .block _ _ :: rest | .branch _ _ _ none :: rest | .branch _ _ _ (some _) :: rest
  | .switch _ _ _ :: rest | .forLoop _ _ _ _ _ :: rest | .whileLoop _ _ _ :: rest
  | .scan _ _ :: rest | .print _ _ :: rest => checkClauses_moves pos subject hasDefault rest

end

end FunctionContext

theorem declareParams_moves (params : List Param) :
    Moves move id (declareParams params) (declareParams (params.map (Param.relocate move))) := by
  induction params with
  | nil => exact Moves.pure rfl
  | cons param rest ih =>
    apply Moves.ite
    · apply Moves.after (Moves.declare _ _ _)
      intro isEntered
      apply Moves.ite
      · exact Moves.after (Moves.report _ _) fun _ => ih
      · exact ih
    · exact ih

theorem FuncDecl.checkBody_moves (f : FuncDecl) :
    Moves move id f.checkBody (f.relocate move).checkBody := by
  apply Moves.after Moves.openBlock
  intro _
  apply Moves.after (declareParams_moves f.params.params)
  intro _
  apply Moves.after (Moves.setReturnsValue false)
  intro _
  apply Moves.after (f.context.checkStmts_moves f.body)
  intro _
  apply Moves.after Moves.returnsValue
  intro returnsValue
  -- the block is closed on both ways out
  apply Moves.ite
  · exact Moves.after (Moves.report _ _) fun _ => Moves.closeBlock
  · exact Moves.closeBlock

theorem FuncDecl.relocate_enter? (f : FuncDecl) (number : Nat) (scope : Scope) :
    (f.relocate move).enter? number (SymbolTable.relocate move scope) =
      (f.enter? number scope).map (SymbolTable.relocate move) := by
  have same : (SymbolTable.relocate move scope).var? (f.relocate move).name.text =
      scope.var? f.name.text := rfl
  unfold enter?
  rw [same]
  cases scope.var? f.name.text with
  | some symbol => rfl
  | none =>
    dsimp only
    exact SymbolTable.relocate_addFunc scope f.name.text ⟨number, f⟩

theorem FuncDecl.check_moves (f : FuncDecl) (number : Nat) :
    Moves move id (f.check number) ((f.relocate move).check number) := by
  apply Moves.bind Moves.scope
  intro scope
  rw [f.relocate_enter?]
  cases f.enter? number scope with
  | none => exact Moves.report _ _
  | some next =>
    have count : (f.relocate move).params.params.length = f.params.params.length :=
      List.length_map _
    rw [count]
    apply Moves.after (Moves.setScope rfl)
    intro _
    exact f.checkBody_moves

theorem Decl.check_moves (number : Nat) (decl : Decl) :
    Moves move id (decl.check number) ((decl.relocate move).check number) := by
  cases decl with
  | bad => exact Moves.pure rfl
  | func _ f => exact f.check_moves number
  | vars _ v => exact v.check_moves

theorem File.checkDecls_moves (number : Nat) (decls : List Decl) :
    Moves move id (checkDecls number decls)
      (checkDecls number (decls.map (Decl.relocate move))) := by
  induction decls generalizing number with
  | nil => exact Moves.pure rfl
  | cons decl rest ih =>
    apply Moves.after (decl.check_moves number)
    intro _
    exact ih (number + 1)

theorem File.relocate_badCount (file : File) : (file.relocate move).badCount = file.badCount := by
  unfold badCount relocate
  rw [List.countP_map]
  congr 1
  funext decl
  cases decl <;> rfl

/-- That `main` is missing is reported at no place, so no place is to be moved
there. -/
theorem File.check_moves (file : File) (fixed : move .unknown = .unknown) :
    Moves move (SymbolTable.relocate move) file.check (file.relocate move).check := by
  -- the last check reports at no place
  have main : Moves move id file.checkMain (file.relocate move).checkMain := by
    apply Moves.bind Moves.scope
    intro scope
    have known : ((SymbolTable.relocate move scope).func? "main").isNone =
        (scope.func? "main").isNone := by
      rw [SymbolTable.relocate_func?, Option.isNone_map]
    have missing : Moves move id (report .unknown (.missingMain file.name))
        (report .unknown (.missingMain file.name)) := by
      have reported : Moves move id _ _ := .report .unknown (.missingMain file.name)
      rwa [fixed] at reported
    rw [known, file.relocate_badCount]
    exact Moves.ite missing (Moves.pure rfl)
  apply Moves.after (checkDecls_moves 0 file.decls)
  intro _
  apply Moves.after main
  intro _
  exact Moves.scope

end MiniC
