import MiniC.Proofs.Check.Words
import MiniC.Proofs.Parser.OneLine
import MiniC.Proofs.Stmt.Reports
import MiniC.Proofs.Syntax.Displayed

/-!
The words of the check of a file. What is in scope at any time are declarations of the file,
so their parameters have such names as the file has. Where these are of one line, all that is
reported is; and as types can be told from their texts, no message shows the same text twice.
-/

namespace MiniC

open Text (IsLine)

variable {named : String → Prop}

namespace Checker

variable {α β : Type}

/-- From a scope with such names the check comes to such a scope, and its messages quote no
others. -/
def Quotes (named : String → Prop) (c : Checker α) : Prop :=
  ∀ state, state.scope.IsNamed named →
    (∀ d ∈ (c.run state).log.raised, d.IsOn (Worded named)) ∧
      (c.run state).state.scope.IsNamed named

namespace Quotes

/-- A check that reports nothing and leaves the functions as they are. -/
theorem quiet {c : Checker α} (silent : ∀ state, (c.run state).log.raised = [])
    (same : ∀ state, (c.run state).state.scope.funcs = state.scope.funcs) : Quotes named c := by
  intro state known
  constructor
  · rw [silent]
    exact nofun
  · unfold Scope.IsNamed
    rw [same]
    exact known

theorem pure (a : α) : Quotes named (pure a) := quiet (fun _ => rfl) fun _ => rfl

theorem scope : Quotes named Checker.scope := quiet (fun _ => rfl) fun _ => rfl

theorem returnsValue : Quotes named Checker.returnsValue := quiet (fun _ => rfl) fun _ => rfl

theorem setReturnsValue (value : Bool) : Quotes named (Checker.setReturnsValue value) :=
  quiet (fun _ => rfl) fun _ => rfl

theorem report {pos : Position} {problem : Problem} (worded : Worded named pos problem) :
    Quotes named (report pos problem) :=
  fun _ known => ⟨List.forall_mem_singleton.mpr ⟨pos, problem, worded, rfl⟩, known⟩

theorem bind {c : Checker α} {f : α → Checker β} (first : Quotes named c)
    (next : ∀ a, Quotes named (f a)) : Quotes named (c >>= f) := by
  intro state known
  obtain ⟨before, middle⟩ := first state known
  obtain ⟨behind, final⟩ := next _ _ middle
  refine ⟨?_, final⟩
  change ∀ d ∈ Log.raised (_ ++ _), _
  rw [Log.raised_append]
  exact List.forall_mem_append.mpr ⟨before, behind⟩

theorem ite {p : Prop} [Decidable p] {yes no : Checker α} (isYes : Quotes named yes)
    (isNo : Quotes named no) : Quotes named (if p then yes else no) := by
  by_cases holds : p
  · rwa [if_pos holds]
  · rwa [if_neg holds]

theorem judge {exprs : List Expr} {look : Scope → Verdict α}
    (reports : ∀ scope : Scope, scope.IsNamed named → (look scope).Reports (Worded named)) :
    Quotes named (Walking.judge exprs look) := by
  refine fun state known => ⟨?_, known⟩
  change ∀ d ∈ Log.raised (List.map Event.problem (look state.scope).problems), _
  rw [Log.raised_problems]
  exact reports state.scope known

theorem openBlock : Quotes named openBlock := quiet (fun _ => rfl) fun _ => rfl

theorem closeBlock : Quotes named closeBlock := by
  refine quiet (fun _ => rfl) fun state => ?_
  change state.scope.closeBlock.funcs = state.scope.funcs
  unfold SymbolTable.closeBlock
  split <;> rfl

theorem declare (name : String) (ty : Ty) (isConst : Bool) :
    Quotes named (declare name ty isConst) := by
  refine quiet (fun state => ?_) fun state => ?_
  · cases added : state.scope.addVar name ty isConst with
    | none => rw [run_declare_none added]; rfl
    | some found => rw [run_declare_some added]; rfl
  · cases added : state.scope.addVar name ty isConst with
    | none => rw [run_declare_none added]
    | some found =>
      rw [run_declare_some added]
      unfold SymbolTable.addVar at added
      split at added
      · cases added
      · cases added
        rfl

end Quotes

end Checker

open Checker (Quotes)

namespace VarDecl

variable [IsVocabulary named] {v : VarDecl} {d : Declarator} (isNamed : d.IsNamed named)

include isNamed

theorem checkEntered_quotes (isEntered : Bool) : Quotes named (v.checkEntered d isEntered) := by
  apply Quotes.ite
  · cases same : d.init with
    | none => exact Quotes.pure ()
    | some init =>
      exact Quotes.judge fun _ known => checkInit_worded known (isNamed.2 init same) _
  · exact Quotes.report (.quoting isNamed.1 rfl rfl)

theorem checkDeclarator_quotes : Quotes named (v.checkDeclarator d) := by
  have entered := checkEntered_quotes (v := v) isNamed
  apply Quotes.bind Quotes.scope
  intro scope
  apply Quotes.ite
  · exact Quotes.bind (Quotes.pure false) entered
  · exact Quotes.bind (Quotes.declare _ _ _) entered

omit isNamed

theorem check_quotes (isNamed : v.IsNamed named) : Quotes named v.check := by
  have all (list : List Declarator) (each : ∀ d ∈ list, d.IsNamed named) :
      Quotes named (v.checkAll list) := by
    induction list with
    | nil => exact Quotes.pure ()
    | cons d rest ih =>
      obtain ⟨here, others⟩ := List.forall_mem_cons.mp each
      apply Quotes.bind (checkDeclarator_quotes here)
      intro _
      exact ih others
  exact all v.declarators isNamed

end VarDecl

theorem checkHeader_quotes {look : Scope → Simple → Verdict Unit} {header : Option Simple}
    (reports : ∀ scope : Scope, scope.IsNamed named → ∀ s ∈ header,
      (look scope s).Reports (Worded named)) :
    Quotes named (checkHeader look header) := by
  apply Quotes.judge
  intro scope known
  cases header with
  | none => exact .pure ()
  | some s => exact reports scope known s rfl

namespace FunctionContext

variable (context : FunctionContext)

theorem checkReturn_quotes [IsVocabulary named] (isNamed : named context.name) (pos : Position)
    {value : Option Expr} (onValue : ∀ e ∈ value, e.IsNamed named) :
    Quotes named (context.checkReturn pos value) := by
  cases value with
  | none =>
    apply Quotes.ite
    · exact Quotes.report (.quoting isNamed rfl rfl)
    · exact Quotes.pure ()
  | some value =>
    have here := onValue value rfl
    apply Quotes.ite
    · apply Quotes.bind (Quotes.judge fun _ known => Expr.check_worded known here)
      intro _
      exact Quotes.report (.quoting isNamed rfl rfl)
    · apply Quotes.bind (Quotes.judge fun _ known => checkReturned_worded known here context)
      intro _
      exact Quotes.setReturnsValue true

theorem checkCondition_quotes [IsVocabulary named] {cond : Expr} (isNamed : cond.IsNamed named) :
    Quotes named (Walking.judge [cond] (cond.checkCondition ·) : Checker Unit) :=
  Quotes.judge fun _ known => Expr.checkCondition_worded known isNamed

mutual

theorem checkStmt_quotes [IsVocabulary named] (isNamed : named context.name) :
    (s : Stmt) → s.IsNamed named → Quotes named (context.checkStmt s)
  | .bad _, _ | .empty _, _ | .decl _ none, _ | .clause _ _ _, _ => Quotes.pure ()
  | .decl _ (some vars), onVars => VarDecl.check_quotes (onVars vars rfl)
  | .simple _, onSimple => Quotes.judge fun _ known => Simple.check_worded known onSimple
  | .scan _ _, onTarget => Quotes.judge fun _ known => checkScan_worded known onTarget
  | .print pos _, onArgs => Quotes.judge fun _ known => checkPrint_worded known pos onArgs
  | .ret pos _, onValue => context.checkReturn_quotes isNamed pos onValue
  | .block _ body, onBody => by
    apply Quotes.bind Quotes.openBlock
    intro _
    apply Quotes.bind (checkStmts_quotes isNamed body onBody)
    intro _
    exact Quotes.closeBlock
  | .branch _ _ yes none, ⟨onCond, onYes⟩ => by
    apply Quotes.bind (checkCondition_quotes onCond)
    intro _
    exact checkStmt_quotes isNamed yes onYes
  | .branch _ _ yes (some no), ⟨onCond, onYes, onNo⟩ => by
    apply Quotes.bind (checkCondition_quotes onCond)
    intro _
    apply Quotes.bind (checkStmt_quotes isNamed yes onYes)
    intro _
    exact checkStmt_quotes isNamed no onNo
  | .whileLoop _ _ body, ⟨onCond, onBody⟩ => by
    apply Quotes.bind (checkCondition_quotes onCond)
    intro _
    exact checkStmt_quotes isNamed body onBody
  | .forLoop _ _ _ _ body, ⟨onStart, onCond, onNext, onBody⟩ => by
    have inStart := checkHeader_quotes fun _ known s member =>
      Simple.check_worded known (onStart s member)
    have inCond := checkHeader_quotes fun _ known s member =>
      Simple.checkCondition_worded known (onCond s member)
    have inNext := checkHeader_quotes fun _ known s member =>
      Simple.check_worded known (onNext s member)
    apply Quotes.bind inStart
    intro _
    apply Quotes.bind inCond
    intro _
    apply Quotes.bind inNext
    intro _
    exact checkStmt_quotes isNamed body onBody
  | .switch pos _ clauses, ⟨onSubject, onClauses⟩ => by
    apply Quotes.bind (Quotes.judge fun _ known => checkSubject_worded known onSubject)
    intro found
    exact checkClauses_quotes isNamed pos found false clauses onClauses

theorem checkStmts_quotes [IsVocabulary named] (isNamed : named context.name) :
    (stmts : List Stmt) → Stmt.AllNamed named stmts → Quotes named (context.checkStmts stmts)
  | [], _ => Quotes.pure ()
  | s :: rest, ⟨here, later⟩ => by
    apply Quotes.bind (checkStmt_quotes isNamed s here)
    intro _
    exact checkStmts_quotes isNamed rest later

theorem checkClauses_quotes [IsVocabulary named] (isNamed : named context.name) (pos : Position)
    (subject : Ty) (hasDefault : Bool) :
    (clauses : List Stmt) → Stmt.AllNamed named clauses →
      Quotes named (context.checkClauses pos subject hasDefault clauses)
  | [], _ => by
    apply Quotes.ite
    · exact Quotes.pure ()
    · exact Quotes.report (.plain rfl rfl)
  | .clause _ (some label) body :: rest, ⟨⟨onLabel, onBody⟩, later⟩ => by
    have here := onLabel label rfl
    apply Quotes.bind (Quotes.judge fun _ known => checkLabel_worded known here subject)
    intro _
    apply Quotes.bind (checkStmts_quotes isNamed body onBody)
    intro _
    exact checkClauses_quotes isNamed pos subject hasDefault rest later
  | .clause _ none body :: rest, ⟨⟨_, onBody⟩, later⟩ => by
    apply Quotes.ite
    · exact Quotes.report (.plain rfl rfl)
    · apply Quotes.bind (checkStmts_quotes isNamed body onBody)
      intro _
      exact checkClauses_quotes isNamed pos subject true rest later
  -- what is no clause is passed over
  | .bad _ :: rest, ⟨_, later⟩ | .empty _ :: rest, ⟨_, later⟩ | .decl _ _ :: rest, ⟨_, later⟩
  | .simple _ :: rest, ⟨_, later⟩ | .ret _ _ :: rest, ⟨_, later⟩ | .block _ _ :: rest, ⟨_, later⟩
  | .branch _ _ _ _ :: rest, ⟨_, later⟩ | .switch _ _ _ :: rest, ⟨_, later⟩
  | .forLoop _ _ _ _ _ :: rest, ⟨_, later⟩ | .whileLoop _ _ _ :: rest, ⟨_, later⟩
  | .scan _ _ :: rest, ⟨_, later⟩ | .print _ _ :: rest, ⟨_, later⟩ =>
    checkClauses_quotes isNamed pos subject hasDefault rest later

end

end FunctionContext

theorem declareParams_quotes {params : List Param}
    (areNamed : ∀ param ∈ params, named param.name.text) :
    Quotes named (declareParams params) := by
  induction params with
  | nil => exact Quotes.pure ()
  | cons param rest ih =>
    obtain ⟨here, others⟩ := List.forall_mem_cons.mp areNamed
    have later : Quotes named (declareParams rest) := ih others
    apply Quotes.ite
    · apply Quotes.bind (Quotes.declare _ _ _)
      intro isEntered
      apply Quotes.ite
      · exact Quotes.bind (Quotes.report (.quoting here rfl rfl)) fun _ => later
      · exact later
    · exact later

namespace FuncDecl

variable {f : FuncDecl} (isNamed : f.IsNamed named)

include isNamed

theorem checkBody_quotes [IsVocabulary named] : Quotes named (f.checkBody : Checker Unit) := by
  apply Quotes.bind Quotes.openBlock
  intro _
  apply Quotes.bind (declareParams_quotes isNamed.params)
  intro _
  apply Quotes.bind (Quotes.setReturnsValue false)
  intro _
  apply Quotes.bind (f.context.checkStmts_quotes isNamed.name f.body isNamed.body)
  intro _
  apply Quotes.bind Quotes.returnsValue
  intro returned
  apply Quotes.ite
  · exact Quotes.bind (Quotes.report (.quoting isNamed.name rfl rfl)) fun _ => Quotes.closeBlock
  · exact Quotes.closeBlock

/-- The function comes into scope with its own parameters. -/
theorem enter?_isNamed {number : Nat} {scope next : Scope} (known : scope.IsNamed named)
    (entered : f.enter? number scope = some next) : next.IsNamed named := by
  unfold enter? SymbolTable.addFunc at entered
  split at entered
  · cases entered
  · split at entered
    · cases entered
    · cases entered
      exact List.forall_mem_cons.mpr ⟨isNamed.params, known⟩

theorem check_quotes [IsVocabulary named] (number : Nat) : Quotes named (f.check number) := by
  intro state known
  rw [f.run_check]
  cases entered : f.enter? number state.scope with
  | none => exact Quotes.report (.quoting isNamed.name rfl rfl) state known
  | some scope =>
    have inner : scope.IsNamed named := enter?_isNamed isNamed known entered
    exact checkBody_quotes isNamed ⟨scope, state.returnsValue⟩ inner

end FuncDecl

theorem Decl.check_quotes [IsVocabulary named] {decl : Decl} (isNamed : decl.IsNamed named)
    (number : Nat) : Quotes named (decl.check number) := by
  cases decl with
  | bad => exact Quotes.pure ()
  | func pos f => exact FuncDecl.check_quotes isNamed number
  | vars pos v => exact VarDecl.check_quotes isNamed

theorem File.check_quotes [IsVocabulary named] {file : File} (isNamed : file.IsNamed named)
    (name : named file.name) : Quotes named file.check := by
  have decls (number : Nat) (list : List Decl) (each : ∀ decl ∈ list, decl.IsNamed named) :
      Quotes named (checkDecls number list) := by
    induction list generalizing number with
    | nil => exact Quotes.pure ()
    | cons decl rest ih =>
      obtain ⟨here, later⟩ := List.forall_mem_cons.mp each
      apply Quotes.bind (Decl.check_quotes here number)
      intro _
      exact ih (number + 1) later
  have main : Quotes named file.checkMain := by
    apply Quotes.bind Quotes.scope
    intro scope
    apply Quotes.ite
    · exact Quotes.report (.quoting name rfl rfl)
    · exact Quotes.pure ()
  apply Quotes.bind (decls 0 file.decls isNamed)
  intro _
  apply Quotes.bind main
  intro _
  exact Quotes.scope

/-- A file whose names are of one line is told of in one line each. -/
theorem File.check_lined {file : File} (lined : file.IsNamed IsLine) (name : IsLine file.name)
    {state : CheckState} (known : state.scope.IsNamed IsLine) :
    (file.check.run state).log.IsLined := by
  intro d member
  obtain ⟨pos, problem, worded, rfl⟩ := (file.check_quotes lined name state known).1 d member
  exact Problem.message_lined worded.names

/-- No message of the check shows the text of a type twice. -/
theorem File.check_apart (file : File) :
    file.check.Reports fun _ problem => (problem.types.map Ty.display).Nodup := by
  intro state d member
  have known : state.scope.IsNamed fun _ => True := fun _ _ _ _ => trivial
  obtain ⟨pos, problem, worded, rfl⟩ :=
    (file.check_quotes file.isNamed_true trivial state known).1 d member
  refine ⟨pos, problem, ?_, rfl⟩
  exact worded.apart.map fun _ _ same => Ty.display_inj.mp same

end MiniC
