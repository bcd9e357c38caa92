import MiniC.Proofs.Check.Enforces
import MiniC.Proofs.Stmt.Judged

/-!
Declarations of variables and statements against their rules. A variable is entered
before its initial value is judged, and a name that cannot be entered is reported, so
that nothing is left out in silence. Of the statements there is one case for each kind,
and the clauses of a switch with what was met of a default so far; what is declared on
the way is carried along by the rules for sequences.
-/

namespace MiniC

open Checker Verdict

namespace VarDecl

variable {v : VarDecl}

/-- What a declarator has to keep besides its name being free. -/
def Accepts (v : VarDecl) (env : Env) (d : Declarator) : Prop :=
  (∀ e ∈ d.init, e.Fills (env.declare [v.binding d]).view v.base d.sizes) ∧
    (d.init.isSome = true → 0 ∉ d.sizes)

theorem IsBasic.isBasic (isBasic : v.IsBasic) : v.base.isBasic = true := by
  rcases isBasic with same | same <;> rw [same] <;> rfl

/-- The initial value is judged in the scope that holds the variable. -/
theorem checkInit_settles (isBasic : v.IsBasic) {d : Declarator} (grammatical : d.Grammatical)
    {state : CheckState} {after : Scope} {symbol : Symbol} (sound : SoundScope state.scope)
    (added : state.scope.addVar d.name.text (v.typeOf d) v.isConst = some (symbol, after)) :
    Settles (match d.init with
      | some init => judge (checkInit (v.typeOf d) init)
      | none => Pure.pure ()) { state with scope := after } (v.Accepts (envOf state.scope) d)
      fun _ last => SoundScope last.scope ∧ Declares [v.binding d] state.scope last.scope ∧
        last.returnsValue = (state.returnsValue || false) := by
  have soundAfter := sound.addVar (isBasic.leaf d) added
  have declares : Declares [v.binding d] state.scope after := .addVar added
  have unchanged : state.returnsValue = (state.returnsValue || false) := (Bool.or_false _).symm
  unfold Accepts
  rw [← declares.envOf_eq]
  cases found : d.init with
  | none =>
    apply (Settles.pure ⟨soundAfter, declares, unchanged⟩).congr
    simp
  | some init =>
    have isInit := grammatical.2 init found
    apply Settles.judge
    · rw [VarDecl.typeOf, checkInit_isSilent_iff soundAfter.shows_env isBasic.isBasic d.sizes isInit]
      simp
    · exact fun _ => ⟨soundAfter, declares, unchanged⟩

theorem checkDeclarator_enforces (isBasic : v.IsBasic) {d : Declarator}
    (grammatical : d.Grammatical) :
    Enforces (v.checkDeclarator d) [v.binding d] (v.Accepts · d) false := by
  intro state sound
  rw [List.map_singleton, fresh_singleton_iff]
  -- what is done once it is known whether the name was entered
  let final (isEntered : Bool) : Checker Unit :=
    if isEntered then
      match d.init with
      | some init => judge (checkInit (v.typeOf d) init)
      | none => Pure.pure ()
    else Checker.report d.name.pos (.redeclared d.name.text)
  have run : (v.checkDeclarator d).run state =
      Checker.run (if state.scope.isGlobal && (state.scope.func? d.name.text).isSome then
          Pure.pure false >>= final
        else Checker.declare d.name.text (v.typeOf d) v.isConst >>= final) state := rfl
  have fails : ¬ (final false).IsSilent state := List.cons_ne_nil _ _
  by_cases isFunction : (state.scope.isGlobal && (state.scope.func? d.name.text).isSome) = true
  · have taken : ¬ IsFree state.scope d.name.text := by
      intro free
      rw [Bool.and_eq_true] at isFunction
      simp [free.2 isFunction.1] at isFunction
    rw [if_pos isFunction] at run
    apply ((Settles.never fails).congr _).of_run_eq run
    exact iff_of_false (fun both => taken both.1) not_false
  · have free : IsFree state.scope d.name.text ↔
        state.scope.isDeclaredHere d.name.text = false := by
      unfold IsFree
      cases global : state.scope.isGlobal with
      | false => simp
      | true =>
        rw [global, Bool.true_and, Option.not_isSome_iff_eq_none] at isFunction
        simp [isFunction]
    rw [if_neg isFunction] at run
    apply Settles.of_run_eq _ run
    apply Settles.declare fails
    · exact fun both => free.mp both.1
    · intro symbol after added
      apply (checkInit_settles isBasic grammatical sound added).congr
      exact and_iff_right (free.mpr (SymbolTable.not_isDeclaredHere added))

theorem checkAll_enforces (isBasic : v.IsBasic) {list : List Declarator}
    (grammatical : ∀ d ∈ list, d.Grammatical) :
    Enforces (v.checkAll list) (list.map v.binding)
      (fun env => v.AllValid env list ∧ ∀ d ∈ list, d.init.isSome = true → 0 ∉ d.sizes) false := by
  induction list with
  | nil =>
    apply Enforces.pure.congr
    intro env
    simp [AllValid]
  | cons d rest ih =>
    obtain ⟨good, later⟩ := List.forall_mem_cons.mp grammatical
    apply ((checkDeclarator_enforces isBasic good).seq (ih later)).congr
    intro env
    rw [List.forall_mem_cons, AllValid, Accepts]
    exact and_and_and_comm

theorem check_enforces (grammatical : v.Grammatical) :
    Enforces v.check v.bindings (fun env => v.Valid env ∧ v.LeavesEmpty) false :=
  checkAll_enforces grammatical.base grammatical.declarators

end VarDecl

theorem Verdict.isSilent_forM_iff {α : Type} {o : Option α} {f : α → Verdict Unit} :
    IsSilent (o.forM f) ↔ ∀ a ∈ o, (f a).IsSilent := by
  cases o with
  | none => exact iff_of_true (isSilent_pure _) nofun
  | some a => simp [Option.forM]

theorem condition_enforces {cond : Expr} (grammatical : cond.Grammatical) :
    Enforces (judge (cond.checkCondition ·)) [] (cond.IsComparison ·) false :=
  Enforces.judge _ fun _ sound => cond.checkCondition_isSilent_iff sound grammatical

theorem simples_enforces {o : Option Simple} (grammatical : ∀ s ∈ o, s.Grammatical) :
    Enforces (judge fun scope => o.forM (Simple.check scope)) [] (fun env => ∀ s ∈ o, s.Valid env)
      false :=
  Enforces.judge _ fun _ sound => isSilent_forM_iff.trans <| forall₂_congr fun s member =>
    s.check_isSilent_iff sound (grammatical s member)

namespace FunctionContext

variable {context : FunctionContext}

theorem needsValue_iff (valid : context.returns ≠ .invalid) :
    context.needsValue = true ↔ context.returns ≠ .void := by
  unfold needsValue
  simp [Ty.isInvalid_eq_false valid]

theorem checkReturn_enforces (valid : context.returns ≠ .invalid) (pos : Position)
    {value : Option Expr} (grammatical : ∀ e ∈ value, e.Grammatical) :
    Enforces (context.checkReturn pos value) []
      (fun env => (Stmt.ret pos value).Valid context.returns env) value.isSome := by
  cases value with
  | none =>
    unfold checkReturn
    by_cases isVoid : context.returns = .void
    · rw [if_neg (by rwa [needsValue_iff valid, not_not])]
      apply Enforces.pure.congr
      simp [Stmt.Valid, isVoid]
    · rw [if_pos ((needsValue_iff valid).mpr isVoid)]
      apply (Enforces.report _ _ _ _).congr
      simp [Stmt.Valid, isVoid]
  | some e =>
    have good := grammatical e rfl
    simp only [checkReturn]
    by_cases isVoid : context.returns = .void
    · rw [if_pos isVoid]
      have judged := Enforces.judge (Expr.IsTyped · e) fun scope sound =>
        Expr.check_isSilent_iff sound good
      apply (judged.seq (Enforces.report _ _ _ true)).congr
      simp [Stmt.Valid, isVoid]
    · rw [if_neg isVoid]
      have judged := Enforces.judge (fun env => HasType env.view e context.returns)
        fun scope sound => checkReturned_isSilent_iff sound context good valid
      apply (judged.seq Enforces.setReturnsValue).congr
      simp [Stmt.Valid, isVoid]

/-- Clauses, given whether a default came before: one is wanted in all. -/
def ClausesValid (context : FunctionContext) (subject : Ty) (hasDefault : Bool) (env : Env)
    (clauses : List Stmt) : Prop :=
  hasDefault.toNat + clauses.countP Stmt.isDefault = 1 ∧
    Stmt.AllClausesValid context.returns subject env clauses

theorem clausesValid_label_iff {subject : Ty} {hasDefault : Bool} {env : Env} {pos : Position}
    {label : Expr} {body rest : List Stmt} :
    context.ClausesValid subject hasDefault env (.clause pos (some label) body :: rest) ↔
      HasType env.view label subject ∧ Stmt.AllValid context.returns env body ∧
        context.ClausesValid subject hasDefault (env.declare (Stmt.allBindings body)) rest := by
  unfold ClausesValid
  rw [List.countP_cons_of_neg (by simp [Stmt.isDefault]), Stmt.AllClausesValid]
  constructor
  · rintro ⟨one, typed, validBody, validRest⟩
    exact ⟨typed label rfl, validBody, one, validRest⟩
  · rintro ⟨typed, validBody, one, validRest⟩
    refine ⟨one, fun e isLabel => ?_, validBody, validRest⟩
    rwa [← Option.some.inj isLabel]

/-- Behind a default no other is wanted. -/
theorem clausesValid_default_iff {subject : Ty} {env : Env} {pos : Position}
    {body rest : List Stmt} :
    context.ClausesValid subject false env (.clause pos none body :: rest) ↔
      Stmt.AllValid context.returns env body ∧
        context.ClausesValid subject true (env.declare (Stmt.allBindings body)) rest := by
  unfold ClausesValid
  rw [List.countP_cons_of_pos (by simp [Stmt.isDefault]), Stmt.AllClausesValid, Bool.toNat_false,
    Bool.toNat_true, Nat.zero_add, Nat.add_comm]
  constructor
  · rintro ⟨one, _, validBody, validRest⟩
    exact ⟨validBody, one, validRest⟩
  · rintro ⟨validBody, one, validRest⟩
    exact ⟨one, nofun, validBody, validRest⟩

mutual

theorem checkStmt_enforces (valid : context.returns ≠ .invalid) : (s : Stmt) → s.Grammatical →
    Enforces (context.checkStmt s) s.bindings
      (fun env => s.Valid context.returns env ∧ ∀ v ∈ s.varDecls, v.LeavesEmpty) s.returnsValue
  | .bad _, grammatical | .decl _ none, grammatical | .clause _ _ _, grammatical =>
    grammatical.elim
  | .empty _, _ => by
    apply Enforces.pure.congr
    simp [Stmt.Valid, Stmt.varDecls]
  | .decl _ (some vars), grammatical => by
    apply (vars.check_enforces grammatical).congr
    simp [Stmt.Valid, Stmt.varDecls]
  | .simple s, grammatical => by
    apply (Enforces.judge (s.Valid ·) fun scope sound => s.check_isSilent_iff sound grammatical).congr
    simp [Stmt.Valid, Stmt.varDecls]
  | .ret pos value, grammatical => by
    apply (checkReturn_enforces valid pos grammatical).congr
    simp [Stmt.varDecls]
  | .block _ body, grammatical => by
    apply (checkStmts_enforces valid body grammatical).block.congr
    simp [Stmt.Valid, Stmt.varDecls, and_assoc]
  | .branch _ cond yes none, ⟨goodCond, good⟩ => by
    have judged := condition_enforces goodCond
    apply (judged.seq (checkStmt_enforces valid yes good)).congr
    simp [Stmt.Valid, Stmt.varDecls, and_assoc]
  | .branch _ cond yes (some no), ⟨goodCond, goodYes, _, good⟩ => by
    have judged := condition_enforces goodCond
    have branches := (checkStmt_enforces valid yes goodYes).seq (checkStmt_enforces valid no good)
    apply (judged.seq branches).congr
    intro env
    rw [Env.declare_nil, and_and_and_comm (a := yes.Valid context.returns env), ← and_assoc,
      Stmt.Valid, Stmt.varDecls, List.forall_mem_append]
  | .whileLoop _ cond body, ⟨goodCond, good⟩ => by
    have judged := condition_enforces goodCond
    apply (judged.seq (checkStmt_enforces valid body good)).congr
    simp [Stmt.Valid, Stmt.varDecls, and_assoc]
  | .forLoop _ init cond next body, ⟨goodInit, goodCond, goodNext, good⟩ => by
    have judgedInit := simples_enforces goodInit
    have judgedNext := simples_enforces goodNext
    have judgedCond := Enforces.judge (fun env => ∀ s ∈ cond, s.IsComparison env)
      fun scope sound => isSilent_forM_iff.trans <| forall₂_congr fun s member =>
        s.checkCondition_isSilent_iff sound (goodCond s member)
    have loop := judgedNext.seq (checkStmt_enforces valid body good)
    apply (judgedInit.seq (judgedCond.seq loop)).congr
    simp [Stmt.Valid, Stmt.varDecls, and_assoc]
  | .switch pos subject clauses, ⟨goodSubject, good⟩ => by
    have found := Enforces.found
      (P := fun env ty => ty.isBasic = true ∧ HasType env.view subject ty)
      (fun _ sound => checkSubject_decides sound goodSubject)
      fun _ _ holds => checkClauses_enforces valid pos holds.1 clauses good false
    apply found.congr
    intro env
    rw [Stmt.Valid, Stmt.varDecls]
    constructor
    · rintro ⟨⟨one, ty, basic, typed, validClauses⟩, nonempty⟩
      exact ⟨ty, ⟨basic, typed⟩, ⟨(Nat.zero_add _).trans one, validClauses⟩, nonempty⟩
    · rintro ⟨ty, ⟨basic, typed⟩, ⟨one, validClauses⟩, nonempty⟩
      exact ⟨⟨(Nat.zero_add _).symm.trans one, ty, basic, typed, validClauses⟩, nonempty⟩
  | .scan pos target, grammatical => by
    apply (Enforces.judge (Stmt.Valid context.returns · (.scan pos target)) fun scope sound =>
      checkScan_isSilent_iff sound grammatical).congr
    simp [Stmt.Valid, Stmt.varDecls]
  | .print pos args, grammatical => by
    apply (Enforces.judge (Expr.ArePrintable · args) fun scope sound =>
      checkPrint_isSilent_iff sound grammatical pos).congr
    simp [Stmt.Valid, Stmt.varDecls]

theorem checkStmts_enforces (valid : context.returns ≠ .invalid) : (stmts : List Stmt) →
    Stmt.AllGrammatical stmts → Enforces (context.checkStmts stmts) (Stmt.allBindings stmts)
      (fun env => Stmt.AllValid context.returns env stmts ∧
        ∀ v ∈ Stmt.allVarDecls stmts, v.LeavesEmpty) (Stmt.anyReturnsValue stmts)
  | [], _ => by
    apply Enforces.pure.congr
    simp [Stmt.AllValid, Stmt.allVarDecls]
  | s :: rest, ⟨good, later⟩ => by
    apply ((checkStmt_enforces valid s good).seq (checkStmts_enforces valid rest later)).congr
    intro env
    rw [Stmt.AllValid, Stmt.allVarDecls, List.forall_mem_append]
    exact and_and_and_comm

theorem checkClauses_enforces (valid : context.returns ≠ .invalid) (pos : Position) {subject : Ty}
    (basic : subject.isBasic = true) : (clauses : List Stmt) → Stmt.AllClauses clauses →
      ∀ hasDefault, Enforces (context.checkClauses pos subject hasDefault clauses)
        (Stmt.allBindings clauses)
        (fun env => context.ClausesValid subject hasDefault env clauses ∧
          ∀ v ∈ Stmt.allVarDecls clauses, v.LeavesEmpty) (Stmt.anyReturnsValue clauses)
  | [], _, hasDefault => by
    cases hasDefault with
    | true =>
      apply Enforces.pure.congr
      simp [ClausesValid, Stmt.AllClausesValid, Stmt.allVarDecls]
    | false =>
      apply (Enforces.report pos .missingDefault _ _).congr
      simp [ClausesValid]
  | .clause _ (some label) body :: rest, ⟨goodLabel, goodBody, good⟩, hasDefault => by
    have judged := Enforces.judge (fun env => HasType env.view label subject) fun scope sound =>
      checkLabel_isSilent_iff sound (goodLabel label rfl) basic
    have later := (checkStmts_enforces valid body goodBody).seq
      (checkClauses_enforces valid pos basic rest good hasDefault)
    apply (judged.seq later).congr
    intro env
    rw [clausesValid_label_iff, Stmt.allVarDecls, Stmt.varDecls, List.forall_mem_append, and_assoc,
      Env.declare_nil]
    exact and_congr_right fun _ => and_and_and_comm
  | .clause clausePos none body :: rest, ⟨_, goodBody, good⟩, hasDefault => by
    cases hasDefault with
    | true =>
      apply (Enforces.report clausePos .secondDefault _ _).congr
      simp [ClausesValid, Stmt.isDefault]
    | false =>
      have later := (checkStmts_enforces valid body goodBody).seq
        (checkClauses_enforces valid pos basic rest good true)
      apply later.congr
      intro env
      rw [clausesValid_default_iff, Stmt.allVarDecls, Stmt.varDecls, List.forall_mem_append]
      exact and_and_and_comm
  | .bad _ :: _, good, _ | .empty _ :: _, good, _ | .decl _ _ :: _, good, _
  | .simple _ :: _, good, _ | .ret _ _ :: _, good, _ | .block _ _ :: _, good, _
  | .branch _ _ _ _ :: _, good, _ | .switch _ _ _ :: _, good, _
  | .forLoop _ _ _ _ _ :: _, good, _ | .whileLoop _ _ _ :: _, good, _
  | .scan _ _ :: _, good, _ | .print _ _ :: _, good, _ => good.elim

end

end FunctionContext

end MiniC
