import MiniC.Proofs.Parsed.Returns
import MiniC.Proofs.Resolve.Globals

/-!
What is left in scope of a source, and what is reported of its global names. Every
declaration but the first of its name is reported, and none of its inside is looked
at. Only the end of the check speaks of a missing `main`.
-/

namespace MiniC

open Checker (Reports)

/-- A report that does not say that `main` is missing. -/
def SparesMain (_ : Position) (problem : Problem) : Prop := problem.kind ≠ .missingMain

theorem Voiced.sparesMain {sites : List Site} {pos : Position} {problem : Problem}
    (voiced : Voiced sites pos problem) : SparesMain pos problem := by
  have ofStmt := voiced.1
  unfold SparesMain
  cases problem with
  | missingMain => cases ofStmt
  | _ => rintro ⟨⟩

theorem FuncDecl.check_sparesMain {f : FuncDecl} (number : Nat)
    (shaped : Stmt.AllShaped Expr.IsRooted Expr.IsRooted f.body) :
    (f.check number).Reports SparesMain := by
  have body : (f.context.checkStmts f.body).Reports SparesMain :=
    (f.context.checkStmts_reports f.body shaped).mono fun _ _ => Voiced.sparesMain
  exact FuncDecl.check_allowed (fun _ _ => nofun) body nofun number nofun

theorem File.checkDecls_sparesMain (number : Nat) {decls : List Decl}
    (shaped : ∀ decl ∈ decls, decl.IsShaped Expr.IsRooted Expr.IsRooted) :
    (checkDecls number decls).Reports SparesMain := by
  induction decls generalizing number with
  | nil => exact .pure ()
  | cons decl rest ih =>
    obtain ⟨here, later⟩ := List.forall_mem_cons.mp shaped
    have first : (decl.check number).Reports SparesMain := by
      cases decl with
      | bad => exact .pure ()
      | func _ f => exact f.check_sparesMain number here.body
      | vars _ v => exact (VarDecl.check_reports here).mono fun _ _ => Voiced.sparesMain
    apply Reports.bind first
    exact fun _ => ih (number + 1) later

/-- What is written into the log when all declarations have been checked. -/
def File.mainLog (file : File) (table : Scope) : Log :=
  if (table.func? "main").isNone ∧ file.badCount = 0 then
    [.problem ((Problem.missingMain file.name).diagnose .unknown)]
  else []

theorem File.run_checkMain (file : File) (state : CheckState) :
    file.checkMain.run state = ⟨(), state, file.mainLog state.scope⟩ := by
  have opened : file.checkMain.run state = Checker.run
      (if ((state.scope.func? "main").isNone && decide (file.badCount = 0)) = true then
        Checker.report .unknown (.missingMain file.name) else pure ()) state := rfl
  rw [opened, mainLog]
  by_cases lacks : (state.scope.func? "main").isNone ∧ file.badCount = 0
  · rw [if_pos lacks, if_pos (by simpa using lacks)]
    rfl
  · rw [if_neg lacks, if_neg (by simpa using lacks)]
    rfl

/-- A file is checked name by name, and then for `main`. -/
theorem File.run_check (file : File) :
    file.check.run .start =
      let checked := (Global.checkAll file.globals).run .start
      ⟨checked.state.scope, checked.state, checked.log ++ file.mainLog checked.state.scope⟩ := by
  have opened : file.check = Global.checkAll file.globals >>= fun _ =>
      file.checkMain >>= fun _ => Checker.scope := by
    rw [check, checkDecls_eq]
    rfl
  rw [opened]
  simp only [Bind.bind, Checker.bind, run_checkMain, Checker.scope, List.append_nil]

/-- What is logged is cut in front of a declaration, which is checked in the state that
those before it lead to. -/
theorem Global.log_checkAll_append (sooner : List Global) (g : Global) (later : List Global) :
    let reached := ((checkAll sooner).run .start).state
    ((checkAll (sooner ++ g :: later)).run .start).log =
      ((checkAll sooner).run .start).log ++ (g.check.run reached).log ++
        ((checkAll later).run (g.check.run reached).state).log := by
  intro reached
  rw [checkAll_append, List.append_assoc]
  rfl

/-- Global names are declared by the first declaration of each. A name stands for the
variable or for the function of that declaration, and no other name stands for anything;
of the blocks of functions nothing is left. A declaration of a name that is taken is
reported where the name stands, and not looked into. Behind all that, and only there, a
missing `main` is reported, unless a declaration was lost. -/
theorem first_declaration_stands (name source : String) :
    let file := (parse name source).file
    let compiled := compile name source
    let table := compiled.scope
    (∀ n vars d, Global.first? file.globals n = some (.var vars d) → table.func? n = none ∧
      ∃ symbol, table.var? n = some symbol ∧
        symbol.ty = vars.typeOf d ∧ symbol.isConst = vars.isConst) ∧
    (∀ n number f, Global.first? file.globals n = some (.func number f) →
      table.var? n = none ∧ table.func? n = some ⟨number, f⟩) ∧
    (∀ n, n ∉ file.names → table.var? n = none ∧ table.func? n = none) ∧
    table.depth = 1 ∧
    table.visibleCount =
      file.names.countP (fun n => (Global.first? file.globals n).any Global.isVar) ∧
    (∀ sooner g later, file.globals = sooner ++ g :: later → ∃ before after,
      let state := ((Global.checkAll sooner).run .start).state
      compiled.checkingLog = before ++ (g.check.run state).log ++ after ∧
      (g.name.text ∈ sooner.map (·.name.text) → g.check.run state =
        ⟨(), state, [.problem ((Problem.redeclared g.name.text).diagnose g.name.pos)]⟩)) ∧
    ∃ before : Log, compiled.checkingLog = before ++
        (if (table.func? "main").isNone ∧ file.badCount = 0 then
          [.problem ((Problem.missingMain file.name).diagnose .unknown)]
        else []) ∧
      ∀ d ∈ before.raised, d.kind ≠ .missingMain := by
  intro file compiled table
  have start : CheckState.start.scope.Pictures (.start : Scopes) := .start
  obtain ⟨scopes, shows, holds⟩ := Global.checkAll_holds start .start file.globals
  have run := file.run_check
  have isTable : table = ((Global.checkAll file.globals).run .start).state.scope :=
    congrArg CheckOutcome.value run
  have log : compiled.checkingLog =
      ((Global.checkAll file.globals).run .start).log ++ file.mainLog table := by
    rw [isTable]
    exact congrArg CheckOutcome.log run
  rw [List.nil_append] at holds
  rw [← isTable] at shows
  -- the table shows the scopes that the first declarations of the names make up
  have var (n : String) : (table.var? n).map Symbol.binding =
      (Global.first? file.globals n).bind Global.binding? := by
    rw [shows.var?, holds.var?_eq, holds.var]
  have func (n : String) : table.func? n = (Global.first? file.globals n).bind Global.known? := by
    rw [shows.funcs, holds.func]
  refine ⟨?_, ?_, ?_, ?_, ?_, ?_, _, log, ?_⟩
  · intro n vars d first
    have binding := var n
    rw [first] at binding
    obtain ⟨symbol, found, same⟩ := Option.map_eq_some_iff.mp binding
    constructor
    · rw [func, first]
      rfl
    · exact ⟨symbol, found, congrArg Binding.ty same, congrArg Binding.isConst same⟩
  · intro n number f first
    constructor
    · have binding := var n
      rw [first] at binding
      exact Option.map_eq_none_iff.mp binding
    · rw [func, first]
      rfl
  · intro n absent
    rw [mem_names_iff, Option.not_isSome_iff_eq_none] at absent
    constructor
    · have binding := var n
      rw [absent] at binding
      exact Option.map_eq_none_iff.mp binding
    · rw [func, absent]
      rfl
  · rw [shows.depth, ScopeStack.depth, ScopeStack.frames, List.length_cons, holds.outer]
    rfl
  · rw [shows.visibleCount, holds.visibleCount]
  · intro sooner g later shape
    obtain ⟨behind, shown, held⟩ := Global.checkAll_holds start .start sooner
    let reached := ((Global.checkAll sooner).run .start).state
    refine ⟨((Global.checkAll sooner).run .start).log,
      ((Global.checkAll later).run (g.check.run reached).state).log ++ file.mainLog table, ?_, ?_⟩
    · rw [log, shape, Global.log_checkAll_append, List.append_assoc _ _ (file.mainLog table)]
    · intro taken
      exact Global.check_taken shown held g (Global.isSome_first?.mpr taken)
  · -- the checks of declarations raise nothing of this kind
    intro d member
    have reports := File.checkDecls_sparesMain 0 (parse_rooted name source)
    rw [File.checkDecls_eq] at reports
    obtain ⟨pos, problem, spares, rfl⟩ := reports .start d member
    exact spares

namespace SharedSample

def source : String := "int f; void f() {}"

def pos (offset : Nat) : Position := ⟨"s.c", offset, 1, offset + 1⟩

def shared : Declarator := ⟨⟨"f", pos 4⟩, [], none⟩

def vars : VarDecl := ⟨false, .int, pos 0, [shared]⟩

def func : FuncDecl := ⟨.void, pos 7, ⟨"f", pos 12⟩, ⟨pos 13, []⟩, pos 16, []⟩

end SharedSample

open SharedSample in
/-- A function whose name is a variable's already. -/
theorem first_declaration_stands_shared :
    (parse "s.c" source).file.globals = [.var vars shared] ++ .func 1 func :: [] ∧
      (compile "s.c" source).scope.func? "f" = none ∧
      ∃ before after, (compile "s.c" source).checkingLog =
        before ++ [.problem ((Problem.redeclared "f").diagnose (pos 12))] ++ after := by
  have globals : (parse "s.c" source).file.globals =
      [.var vars shared] ++ .func 1 func :: [] := by
    with_unfolding_all rfl
  obtain ⟨isVar, _, _, _, _, log, _⟩ := first_declaration_stands "s.c" source
  have first : Global.first? (parse "s.c" source).file.globals "f" =
      some (.var vars shared) := by
    rw [globals]
    rfl
  obtain ⟨before, after, shape, passed⟩ := log _ _ _ globals
  rw [passed (List.mem_singleton.mpr rfl)] at shape
  exact ⟨globals, (isVar _ _ _ first).1, before, after, shape⟩

end MiniC
