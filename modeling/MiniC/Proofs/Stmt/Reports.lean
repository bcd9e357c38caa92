import MiniC.Stmt.Check
import MiniC.Proofs.Check.Reports
import MiniC.Proofs.Check.Settles

/-!
What is reported by the check of a statement, and where: at its sites, and in its
own words. Whatever is in it, a statement does not speak of the function that it
stands in as a whole. The check of a file reports at a site that permits it, but
for a missing `main`, which has no place.
-/

namespace MiniC

section

namespace Checker

variable {α β : Type} {allowed : Position → Problem → Prop}

def Reports (allowed : Position → Problem → Prop) (c : Checker α) : Prop :=
  ∀ state, ∀ d ∈ (c.run state).log.raised, d.IsOn allowed

namespace Reports

/-- A check that writes no problem into the log. -/
theorem quiet {c : Checker α} (silent : ∀ state, (c.run state).log.raised = []) :
    Reports allowed c := by
  intro state
  rw [silent]
  exact nofun

theorem pure (a : α) : Reports allowed (pure a) := quiet fun _ => rfl

theorem report {pos : Position} {problem : Problem} (isAllowed : allowed pos problem) :
    Reports allowed (report pos problem) :=
  fun _ => List.forall_mem_singleton.mpr ⟨pos, problem, isAllowed, rfl⟩

theorem bind {c : Checker α} {f : α → Checker β} (first : c.Reports allowed)
    (next : ∀ a, (f a).Reports allowed) : Reports allowed (c >>= f) := by
  intro state
  change ∀ d ∈ Log.raised (_ ++ _), _
  rw [Log.raised_append]
  exact List.forall_mem_append.mpr ⟨first _, next _ _⟩

theorem ite {p : Prop} [Decidable p] {yes no : Checker α} (isYes : yes.Reports allowed)
    (isNo : no.Reports allowed) : Reports allowed (if p then yes else no) := by
  by_cases holds : p
  · rwa [if_pos holds]
  · rwa [if_neg holds]

theorem judge {exprs : List Expr} {look : Scope → Verdict α}
    (reports : ∀ scope, (look scope).Reports allowed) :
    Reports allowed (Walking.judge exprs look) := by
  intro state
  change ∀ d ∈ Log.raised (List.map Event.problem (look state.scope).problems), _
  rw [Log.raised_problems]
  exact reports state.scope

theorem mono {c : Checker α} {wider : Position → Problem → Prop} (reports : c.Reports allowed)
    (implies : ∀ pos problem, allowed pos problem → wider pos problem) : c.Reports wider := by
  intro state d member
  obtain ⟨pos, problem, isAllowed, same⟩ := reports state d member
  exact ⟨pos, problem, implies pos problem isAllowed, same⟩

variable {c : Checker α} {left right : List Site}

theorem before (reports : c.Reports (Voiced left)) : c.Reports (Voiced (left ++ right)) :=
  reports.mono fun _ _ => .mono (List.subset_append_left left right)

theorem behind (reports : c.Reports (Voiced right)) : c.Reports (Voiced (left ++ right)) :=
  reports.mono fun _ _ => .mono (List.subset_append_right left right)

theorem after {site : Site} (reports : c.Reports (Voiced right)) :
    c.Reports (Voiced (site :: right)) :=
  reports.mono fun _ _ => .mono (List.subset_cons_self site right)

end Reports

end Checker

open Checker (Reports)

theorem declare_reports {allowed : Position → Problem → Prop} (name : String) (ty : Ty)
    (isConst : Bool) : (Checker.declare name ty isConst).Reports allowed := by
  apply Reports.quiet
  intro state
  cases added : state.scope.addVar name ty isConst with
  | none => rw [Checker.run_declare_none added]; rfl
  | some found => rw [Checker.run_declare_some added]; rfl

namespace VarDecl

variable {v : VarDecl} {d : Declarator} (rooted : ∀ e ∈ d.init, e.IsRooted)

include rooted

theorem checkEntered_reports (isEntered : Bool) :
    (v.checkEntered d isEntered).Reports (Voiced (d.sites (v.typeOf d).isArray)) := by
  apply Reports.ite
  · cases same : d.init with
    | none => exact Reports.pure ()
    | some init =>
      rw [Declarator.sites, same]
      apply Reports.judge
      intro scope
      exact (checkInit_reports (rooted init same) _).some.after
  · exact Reports.report (Speaks.first _ rfl)

theorem checkDeclarator_reports :
    (v.checkDeclarator d).Reports (Voiced (d.sites (v.typeOf d).isArray)) := by
  have entered := checkEntered_reports (v := v) rooted
  apply Reports.bind (Reports.quiet fun _ => rfl)
  intro scope
  apply Reports.ite
  · exact Reports.bind (Reports.pure false) entered
  · exact Reports.bind (declare_reports _ _ _) entered

omit rooted

theorem check_reports (shaped : v.IsShaped Expr.IsRooted) : v.check.Reports (Voiced v.sites) := by
  have all (list : List Declarator) (rooted : ∀ d ∈ list, ∀ e ∈ d.init, e.IsRooted) :
      Reports (Voiced (list.flatMap fun d => d.sites (v.typeOf d).isArray)) (v.checkAll list) := by
    induction list with
    | nil => exact Reports.pure ()
    | cons d rest ih =>
      obtain ⟨onInit, others⟩ := List.forall_mem_cons.mp rooted
      rw [List.flatMap_cons]
      apply Reports.bind (checkDeclarator_reports onInit).before
      intro _
      exact (ih others).behind
  exact all v.declarators shaped.initials

end VarDecl

theorem checkHeader_reports {look : Scope → Simple → Verdict Unit} {sites : Simple → List Site}
    {header : Option Simple}
    (reports : ∀ scope, ∀ s ∈ header, (look scope s).Reports (Voiced (sites s))) :
    (checkHeader look header).Reports (Voiced (header.toList.flatMap sites)) := by
  apply Reports.judge
  intro scope
  cases header with
  | none => exact .pure ()
  | some s => exact (reports scope s rfl).some

namespace FunctionContext

variable (context : FunctionContext)

theorem checkReturn_reports (pos : Position) {value : Option Expr}
    (rooted : ∀ e ∈ value, e.IsRooted) :
    (context.checkReturn pos value).Reports
      (Voiced (⟨pos, .plain⟩ :: value.toList.flatMap (Expr.sites false))) := by
  cases value with
  | none =>
    apply Reports.ite
    · exact Reports.report (Speaks.first _ rfl)
    · exact Reports.pure ()
  | some value =>
    have onValue := rooted value rfl
    apply Reports.ite
    · apply Reports.bind (Reports.judge fun _ => (Expr.check_reports onValue).some.after)
      intro _
      exact Reports.report (Speaks.first _ rfl)
    · apply Reports.bind (Reports.judge fun _ => (checkReturned_reports onValue context).some.after)
      intro _
      exact Reports.quiet fun _ => rfl

/-- Behind a clause, or the subject, the sites of the clauses that follow. -/
theorem clauses_behind {c : Checker Unit} {pos : Position} {left right : List Site}
    (reports : c.Reports (Voiced (⟨pos, .plain⟩ :: right))) :
    c.Reports (Voiced (⟨pos, .plain⟩ :: (left ++ right))) :=
  reports.mono fun _ _ => .mono (List.cons_subset_cons _ (List.subset_append_right _ _))

mutual

theorem checkStmt_reports : (s : Stmt) → s.IsShaped Expr.IsRooted Expr.IsRooted →
    (context.checkStmt s).Reports (Voiced s.sites)
  | .bad _, _ | .empty _, _ | .decl _ none, _ => Reports.pure ()
  | .decl _ (some _), shaped => VarDecl.check_reports shaped
  | .simple _, shaped => Reports.judge fun _ => Simple.check_reports shaped
  | .scan _ _, rooted => Reports.judge fun _ => checkScan_reports rooted
  | .print pos _, rooted => Reports.judge fun _ => checkPrint_reports pos rooted
  | .ret pos _, rooted => context.checkReturn_reports pos rooted
  | .block _ body, shaped => by
    apply Reports.bind (Reports.quiet fun _ => rfl)
    intro _
    apply Reports.bind (checkStmts_reports body shaped)
    intro _
    exact Reports.quiet fun _ => rfl
  | .branch _ _ yes none, ⟨onCond, onYes⟩ => by
    apply Reports.bind (Reports.judge fun _ => (Expr.checkCondition_reports onCond).before)
    intro _
    exact (checkStmt_reports yes onYes).behind
  | .branch _ _ yes (some no), ⟨onCond, onYes, onNo⟩ => by
    apply Reports.bind (Reports.judge fun _ => (Expr.checkCondition_reports onCond).before)
    intro _
    apply Reports.bind (checkStmt_reports yes onYes).before.behind
    intro _
    exact (checkStmt_reports no onNo).behind.behind
  | .whileLoop _ _ body, ⟨onCond, onBody⟩ => by
    apply Reports.bind (Reports.judge fun _ => (Expr.checkCondition_reports onCond).before)
    intro _
    exact (checkStmt_reports body onBody).behind
  | .forLoop _ _ _ _ body, ⟨onInit, onCond, onNext, onBody⟩ => by
    have inInit := checkHeader_reports fun scope s isInit =>
      @Simple.check_reports scope s (onInit s isInit)
    have inCond := checkHeader_reports fun scope s isCond =>
      @Simple.checkCondition_reports scope s (onCond s isCond)
    have inNext := checkHeader_reports fun scope s isNext =>
      @Simple.check_reports scope s (onNext s isNext)
    apply Reports.bind inInit.before
    intro _
    apply Reports.bind inCond.before.behind
    intro _
    apply Reports.bind inNext.before.behind.behind
    intro _
    exact (checkStmt_reports body onBody).behind.behind.behind
  | .switch pos _ clauses, ⟨onSubject, onClauses⟩ => by
    apply Reports.bind (Reports.judge fun _ => (checkSubject_reports onSubject).before.after)
    intro found
    exact clauses_behind (checkClauses_reports pos found false clauses onClauses)

theorem checkStmts_reports : (stmts : List Stmt) →
    Stmt.AllShaped Expr.IsRooted Expr.IsRooted stmts →
    (context.checkStmts stmts).Reports (Voiced (Stmt.sitesOfAll stmts))
  | [], _ => Reports.pure ()
  | s :: rest, ⟨here, later⟩ => by
    apply Reports.bind (checkStmt_reports s here).before
    intro _
    exact (checkStmts_reports rest later).behind

theorem checkClauses_reports (pos : Position) (subject : Ty) (hasDefault : Bool) :
    (clauses : List Stmt) → Stmt.AreShapedClauses Expr.IsRooted Expr.IsRooted clauses →
    (context.checkClauses pos subject hasDefault clauses).Reports
      (Voiced (⟨pos, .plain⟩ :: Stmt.sitesOfAll clauses))
  | [], _ => by
    apply Reports.ite
    · exact Reports.pure ()
    · exact Reports.report (Speaks.first _ rfl)
  | .clause _ (some label) body :: rest, ⟨onLabel, onBody, later⟩ => by
    have inLabel (scope : Scope) := @checkLabel_reports scope label (onLabel label rfl) subject
    apply Reports.bind (Reports.judge fun scope => (inLabel scope).some.before.after.before.after)
    intro _
    apply Reports.bind (checkStmts_reports body onBody).behind.after.before.after
    intro _
    exact clauses_behind (checkClauses_reports pos subject hasDefault rest later)
  | .clause clausePos none body :: rest, ⟨_, onBody, later⟩ => by
    apply Reports.ite
    · have speaks : Speaks (Voiced (Stmt.clause clausePos none body).sites) clausePos := .first
      exact Reports.report ((speaks.before.mono fun _ => .mono (List.subset_cons_self _ _)) _ rfl)
    · apply Reports.bind (checkStmts_reports body onBody).behind.after.before.after
      intro _
      exact clauses_behind (checkClauses_reports pos subject true rest later)

end

end FunctionContext

end

section

open Checker (Reports)

theorem declareParams_reports (params : List Param) :
    (declareParams params).Reports fun pos problem =>
      ∃ param ∈ params, pos = param.name.pos ∧ problem = .duplicateParameter param.name.text := by
  induction params with
  | nil => exact Reports.pure ()
  | cons param rest ih =>
    have later : (declareParams rest).Reports fun pos problem => ∃ other ∈ param :: rest,
        pos = other.name.pos ∧ problem = .duplicateParameter other.name.text := by
      refine ih.mono ?_
      rintro _ _ ⟨other, member, words⟩
      exact ⟨other, List.mem_cons_of_mem param member, words⟩
    have duplicate : (Checker.report param.name.pos (.duplicateParameter param.name.text)).Reports
        fun pos problem => ∃ other ∈ param :: rest,
          pos = other.name.pos ∧ problem = .duplicateParameter other.name.text :=
      Reports.report ⟨param, List.mem_cons_self, rfl, rfl⟩
    unfold declareParams
    apply Reports.ite
    · apply Reports.bind (declare_reports _ _ _)
      intro isEntered
      apply Reports.ite
      · exact Reports.bind duplicate fun _ => later
      · exact later
    · exact later

namespace FuncDecl

section Allowed

variable {f : FuncDecl} {allowed : Position → Problem → Prop}
  (onParam : ∀ param ∈ f.params.params,
    allowed param.name.pos (.duplicateParameter param.name.text))
  (onBody : (f.context.checkStmts f.body).Reports allowed)
  (onEnd : allowed f.name.pos (.neverReturns f.name.text f.returns))

include onParam onBody onEnd

theorem checkBody_allowed : f.checkBody.Reports allowed := by
  have params : (declareParams f.params.params).Reports allowed := by
    refine (declareParams_reports _).mono ?_
    rintro _ _ ⟨param, member, rfl, rfl⟩
    exact onParam param member
  have closing : Checker.closeBlock.Reports allowed := Reports.quiet fun _ => rfl
  apply Reports.bind (Reports.quiet fun _ => rfl)
  intro _
  apply Reports.bind params
  intro _
  apply Reports.bind (Reports.quiet fun _ => rfl)
  intro _
  apply Reports.bind onBody
  intro _
  apply Reports.bind (Reports.quiet fun _ => rfl)
  intro returnsValue
  apply Reports.ite
  · exact Reports.bind (Reports.report onEnd) fun _ => closing
  · exact closing

/-- What is reported of a function besides its statements. -/
theorem check_allowed (number : Nat)
    (onName : allowed f.name.pos (.redeclared f.name.text)) :
    (f.check number).Reports allowed := by
  apply Reports.bind (Reports.quiet fun _ => rfl)
  intro scope
  cases f.enter? number scope with
  | none => exact Reports.report onName
  | some entered =>
    apply Reports.bind (Reports.quiet fun _ => rfl)
    intro _
    exact checkBody_allowed onParam onBody onEnd

end Allowed

theorem check_reports {f : FuncDecl} (number : Nat)
    (shaped : Stmt.AllShaped Expr.IsRooted Expr.IsRooted f.body) :
    (f.check number).Reports (Permitted f.sites) := by
  have named {problem : Problem} (other : problem ≠ .misplacedComposite) :
      Permitted f.sites f.name.pos problem :=
    ⟨⟨f.name.pos, .plain⟩, List.mem_cons_self, rfl, other⟩
  have body : (f.context.checkStmts f.body).Reports (Permitted f.sites) :=
    (f.context.checkStmts_reports f.body shaped).behind.after.mono fun _ _ voiced => voiced.2
  refine check_allowed (fun param member => ?_) body (named nofun) number (named nofun)
  refine ⟨⟨param.name.pos, .plain⟩, ?_, rfl, nofun⟩
  exact List.mem_cons_of_mem _ (List.mem_append_left _ (List.mem_map.mpr ⟨param, member, rfl⟩))

end FuncDecl

theorem Decl.check_reports {decl : Decl} (number : Nat)
    (shaped : decl.IsShaped Expr.IsRooted Expr.IsRooted) :
    (decl.check number).Reports (Permitted decl.sites) := by
  cases decl with
  | bad => exact .pure ()
  | func pos f => exact f.check_reports number shaped.body
  | vars pos v => exact (VarDecl.check_reports shaped).mono fun _ _ voiced => voiced.2

/-- Behind its declarations a file is told of one thing at most. -/
theorem File.checkMain_reports {file : File} {allowed : Position → Problem → Prop}
    (missing : allowed .unknown (.missingMain file.name)) : file.checkMain.Reports allowed := by
  apply Reports.bind (Reports.quiet fun _ => rfl)
  intro scope
  apply Reports.ite
  · exact Reports.report missing
  · exact Reports.pure ()

theorem File.check_reports {file : File} (shaped : file.IsShaped Expr.IsRooted Expr.IsRooted) :
    Reports (fun pos problem => Permitted file.sites pos problem ∨
      pos = .unknown ∧ problem = .missingMain file.name) file.check := by
  have decls (number : Nat) (list : List Decl)
      (each : ∀ decl ∈ list, decl.IsShaped Expr.IsRooted Expr.IsRooted) :
      (checkDecls number list).Reports (Permitted (list.flatMap Decl.sites)) := by
    induction list generalizing number with
    | nil => exact Reports.pure ()
    | cons decl rest ih =>
      obtain ⟨here, later⟩ := List.forall_mem_cons.mp each
      rw [List.flatMap_cons]
      apply Reports.bind ((decl.check_reports number here).mono fun _ _ => .before)
      intro _
      exact (ih (number + 1) later).mono fun _ _ => .behind
  apply Reports.bind ((decls 0 file.decls shaped).mono fun _ _ => .inl)
  intro _
  apply Reports.bind (File.checkMain_reports (.inr ⟨rfl, rfl⟩))
  intro _
  exact Reports.quiet fun _ => rfl

end

end MiniC
