import Mathlib.Data.List.Flatten
import MiniC.Proofs.Check.Visits
import MiniC.Proofs.Check.Watched
import MiniC.Proofs.Stmt.Reports

/-!
Which nodes the walk of the checker goes to: none twice, and all that are in an
expression that it looks at, unless they stand in braces. A statement looks at its own
expressions, so what is gone to for one statement is not gone to for another; a
declaration that is refused and clauses behind a second default are left out.
-/

namespace MiniC

open Checker (Reports)
open MiniC.Expr (IsUnbraced IsInitial partsOfAll)
open Walking (judge)
open Watched (blind)

theorem Expr.partsOfAll_append (left right : List Expr) :
    partsOfAll (left ++ right) = partsOfAll left ++ partsOfAll right := by
  rw [partsOfAll_eq, partsOfAll_eq, partsOfAll_eq, List.flatMap_append]

/-- From any state on the walk goes to no node of these expressions twice, nor to any other
node; it leaves out only what it does not look at or what stands in braces. It says of no
name but one it went to that it is not defined. -/
structure Watched.Traverses {α : Type} (watched : Watched α) (exprs : List Expr) : Prop where
  once : ∀ state, (watched.visited state).Subperm (partsOfAll exprs)
  whole : ∀ state, ∀ looked ∈ watched.seen state, looked.1.IsUnbraced →
    looked.1.parts ⊆ watched.visited state
  undefined : ∀ state, (undefinedPlaces (watched.checker.run state).log.raised).Subperm
    ((watched.visited state).filterMap Expr.namePlace?)

namespace Watched.Traverses

variable {α β : Type} {watched yes no : Watched α} {next : α → Watched β} {left right : List Expr}

theorem still {checker : Checker α} (defined : checker.Reports IsOfDefined) :
    (blind checker).Traverses [] where
  once _ := .refl []
  whole _ := List.forall_mem_nil _
  undefined state := by
    change (undefinedPlaces (checker.run state).log.raised).Subperm []
    rw [undefinedPlaces_eq_nil (defined state)]

theorem pure (a : α) : (pure a : Watched α).Traverses [] := still (.pure a)

theorem report {pos : Position} {problem : Problem}
    (other : decide (problem.kind = .undefine) = false) :
    (blind (Checker.report pos problem)).Traverses [] :=
  still (.report (.byKind other))

/-- A step that raises nothing. -/
theorem quiet {checker : Checker α} (silent : ∀ state, (checker.run state).log.raised = []) :
    (blind checker).Traverses [] :=
  still (.quiet silent)

theorem judge {look : Scope → Traced α} (traverses : ∀ scope, (look scope).Traverses left) :
    (judge left look : Watched α).Traverses left where
  once state := (traverses state.scope).once
  whole state looked member := by
    obtain ⟨e, isExpr, rfl⟩ := List.mem_map.mp member
    exact (traverses state.scope).whole e isExpr
  undefined state := by
    change (undefinedPlaces (Log.raised (List.map _ (look state.scope).verdict.problems))).Subperm _
    rw [Log.raised_problems]
    exact (traverses state.scope).undefined

theorem bind (first : watched.Traverses left) (further : ∀ a, (next a).Traverses right) :
    (watched >>= next).Traverses (left ++ right) where
  once state := by
    rw [Expr.partsOfAll_append]
    exact (first.once state).append ((further _).once _)
  whole state := by
    refine List.forall_mem_append.mpr ⟨?_, ?_⟩
    · intro looked member unbraced
      exact List.subset_append_of_subset_left _ (first.whole state looked member unbraced)
    · intro looked member unbraced
      exact List.subset_append_of_subset_right _ ((further _).whole _ looked member unbraced)
  undefined state := by
    change (undefinedPlaces (Log.raised (_ ++ _))).Subperm ((_ ++ _ : List Expr).filterMap _)
    rw [Log.raised_append, undefinedPlaces_append, List.filterMap_append]
    exact (first.undefined state).append ((further _).undefined _)

theorem onward (first : watched.Traverses []) (further : ∀ a, (next a).Traverses right) :
    (watched >>= next).Traverses right :=
  first.bind further

theorem ended (first : watched.Traverses left) (further : ∀ a, (next a).Traverses []) :
    (watched >>= next).Traverses left :=
  List.append_nil left ▸ first.bind further

theorem mono (traverses : watched.Traverses left) (within : left.Sublist right) :
    watched.Traverses right := by
  refine ⟨fun state => (traverses.once state).trans ?_, traverses.whole, traverses.undefined⟩
  rw [Expr.partsOfAll_eq, Expr.partsOfAll_eq]
  exact (within.flatMap _).subperm

theorem none (traverses : watched.Traverses []) : watched.Traverses left :=
  traverses.mono (List.nil_sublist left)

theorem ite {p : Prop} [Decidable p] (isYes : yes.Traverses left) (isNo : no.Traverses left) :
    (if p then yes else no).Traverses left := by
  by_cases holds : p
  · rwa [if_pos holds]
  · rwa [if_neg holds]

/-- Judging expressions that the check goes to as wholes. -/
theorem judgeAll {look : Scope → Traced α} (visits : ∀ scope, (look scope).Visits (partsOfAll left)) :
    Traverses (Walking.judge left look) left :=
  judge fun scope => .ofVisits (visits scope)

/-- Judging one expression. -/
theorem judgeOne {look : Scope → Traced α} {e : Expr}
    (visits : ∀ scope, (look scope).Visits e.parts) : Traverses (Walking.judge [e] look) [e] :=
  judgeAll fun scope => (visits scope).one

end Watched.Traverses

open Watched (Traverses)

namespace VarDecl

variable {v : VarDecl} {d : Declarator}

theorem checkEntered_traverses (initial : ∀ e ∈ d.init, e.IsInitial) (isEntered : Bool) :
    Traverses (v.checkEntered d isEntered) d.init.toList := by
  apply Traverses.ite
  · cases same : d.init with
    | none => exact Traverses.pure ()
    | some init => exact Traverses.judge fun _ => checkInit_traverses (initial init same) _
  · exact Traverses.none (Traverses.report rfl)

theorem checkDeclarator_traverses (initial : ∀ e ∈ d.init, e.IsInitial) :
    Traverses (v.checkDeclarator d) d.init.toList := by
  have entered := checkEntered_traverses (v := v) initial
  apply (Traverses.quiet fun _ => rfl).onward
  intro scope
  apply Traverses.ite
  · exact (Traverses.pure false).onward entered
  · exact (Traverses.still (declare_reports _ _ _)).onward entered

theorem check_traverses (shaped : v.IsShaped IsInitial) : Traverses v.check v.exprs := by
  have all (list : List Declarator) (initials : ∀ d ∈ list, ∀ e ∈ d.init, e.IsInitial) :
      Traverses (v.checkAll list) (list.flatMap (·.init.toList)) := by
    induction list with
    | nil => exact Traverses.pure ()
    | cons d rest ih =>
      obtain ⟨here, later⟩ := List.forall_mem_cons.mp initials
      apply (checkDeclarator_traverses here).bind
      intro _
      exact ih later
  exact all v.declarators shaped.initials

end VarDecl

theorem checkHeader_traverses {look : Scope → Simple → Traced Unit} {header : Option Simple}
    (visits : ∀ scope, ∀ s ∈ header, (look scope s).Visits (partsOfAll s.exprs)) :
    Traverses (checkHeader look header) (Simple.headerExprs header) := by
  apply Traverses.judgeAll
  intro scope
  cases header with
  | none => exact Traced.Visits.pure ()
  | some s =>
    have same : Simple.headerExprs (some s) = s.exprs := List.append_nil _
    rw [same]
    exact visits scope s rfl

theorem checkCondition_traverses {cond : Expr} (unbraced : cond.IsUnbraced) :
    Traverses (judge [cond] (cond.checkCondition ·)) [cond] :=
  Traverses.judgeOne fun _ => Expr.checkCondition_visits unbraced

namespace FunctionContext

variable (context : FunctionContext)

theorem checkReturn_traverses (pos : Position) {value : Option Expr}
    (unbraced : ∀ e ∈ value, e.IsUnbraced) :
    Traverses (context.checkReturn pos value) value.toList := by
  cases value with
  | none =>
    apply Traverses.ite
    · exact Traverses.report rfl
    · exact Traverses.pure ()
  | some value =>
    have here := unbraced value rfl
    apply Traverses.ite
    · apply (Traverses.judgeOne fun _ => Expr.check_visits here).ended
      intro _
      exact Traverses.report rfl
    · apply (Traverses.judgeOne fun _ => checkReturned_visits here context).ended
      intro _
      exact Traverses.quiet fun _ => rfl

/-- A counting loop looks at the parts of its header, and goes on with its body. -/
theorem forLoop_traverses {pos : Position} {init cond next : Option Simple} {body : Stmt}
    (onInit : ∀ s ∈ init, s.IsShaped IsUnbraced) (onCond : ∀ s ∈ cond, s.IsShaped IsUnbraced)
    (onNext : ∀ s ∈ next, s.IsShaped IsUnbraced)
    (onBody : Traverses (context.checkStmt body) body.exprs) :
    Traverses (context.checkStmt (.forLoop pos init cond next body))
      (Stmt.forLoop pos init cond next body).exprs := by
  apply (checkHeader_traverses fun _ s isInit => Simple.check_visits (onInit s isInit)).bind
  intro _
  apply (checkHeader_traverses fun _ s isCond =>
    Simple.checkCondition_visits (onCond s isCond)).bind
  intro _
  apply (checkHeader_traverses fun _ s isNext => Simple.check_visits (onNext s isNext)).bind
  intro _
  exact onBody

mutual

theorem checkStmt_traverses : (s : Stmt) → s.IsShaped IsUnbraced IsInitial →
    Traverses (context.checkStmt s) s.exprs
  | .bad _, _ | .empty _, _ | .decl _ none, _ => Traverses.pure ()
  | .decl _ (some _), shaped => VarDecl.check_traverses shaped
  | .simple _, shaped => Traverses.judgeAll fun _ => Simple.check_visits shaped
  | .ret pos _, unbraced => context.checkReturn_traverses pos unbraced
  | .scan _ _, unbraced => Traverses.judgeOne fun _ => checkScan_visits unbraced
  | .print pos _, unbraced => Traverses.judgeAll fun _ => checkPrint_visits pos unbraced
  | .block _ body, shaped => by
    apply (Traverses.quiet fun _ => rfl).onward
    intro _
    apply (checkStmts_traverses body shaped).ended
    intro _
    exact Traverses.quiet fun _ => rfl
  | .branch _ _ yes none, ⟨onCond, onYes⟩ => by
    apply (checkCondition_traverses onCond).bind
    intro _
    exact checkStmt_traverses yes onYes
  | .branch _ _ yes (some no), ⟨onCond, onYes, onNo⟩ => by
    apply (checkCondition_traverses onCond).bind
    intro _
    apply (checkStmt_traverses yes onYes).bind
    intro _
    exact checkStmt_traverses no onNo
  | .whileLoop _ _ body, ⟨onCond, onBody⟩ => by
    apply (checkCondition_traverses onCond).bind
    intro _
    exact checkStmt_traverses body onBody
  | .forLoop _ _ _ _ body, ⟨onInit, onCond, onNext, onBody⟩ =>
    context.forLoop_traverses onInit onCond onNext (checkStmt_traverses body onBody)
  | .switch pos _ clauses, ⟨onSubject, onClauses⟩ => by
    apply (Traverses.judgeOne fun _ => checkSubject_visits onSubject).bind
    intro found
    exact checkClauses_traverses pos found false clauses onClauses

theorem checkStmts_traverses : (stmts : List Stmt) → Stmt.AllShaped IsUnbraced IsInitial stmts →
    Traverses (context.checkStmts stmts) (Stmt.exprsOfAll stmts)
  | [], _ => Traverses.pure ()
  | s :: rest, ⟨here, later⟩ => by
    apply (checkStmt_traverses s here).bind
    intro _
    exact checkStmts_traverses rest later

theorem checkClauses_traverses (pos : Position) (subject : Ty) (hasDefault : Bool) :
    (clauses : List Stmt) → Stmt.AreShapedClauses IsUnbraced IsInitial clauses →
    Traverses (context.checkClauses pos subject hasDefault clauses) (Stmt.exprsOfAll clauses)
  | [], _ => by
    apply Traverses.ite
    · exact Traverses.pure ()
    · exact Traverses.report rfl
  | .clause _ (some label) body :: rest, ⟨onLabel, onBody, later⟩ => by
    rw [Stmt.exprsOfAll, Stmt.exprs, List.append_assoc]
    apply (Traverses.judgeOne fun _ => checkLabel_visits (onLabel label rfl) subject).bind
    intro _
    apply (checkStmts_traverses body onBody).bind
    intro _
    exact checkClauses_traverses pos subject hasDefault rest later
  | .clause _ none body :: rest, ⟨_, onBody, later⟩ => by
    apply Traverses.ite
    · exact Traverses.none (Traverses.report rfl)
    · apply (checkStmts_traverses body onBody).bind
      intro _
      exact checkClauses_traverses pos subject true rest later

end

end FunctionContext

theorem declareParams_defined (params : List Param) :
    (declareParams params).Reports IsOfDefined := by
  refine (declareParams_reports params).mono ?_
  rintro _ _ ⟨param, _, _, rfl⟩
  exact nofun

namespace FuncDecl

variable {f : FuncDecl} (shaped : Stmt.AllShaped IsUnbraced IsInitial f.body)

include shaped

theorem checkBody_traverses : Traverses f.checkBody (Stmt.exprsOfAll f.body) := by
  have closing : Traverses (blind Checker.closeBlock) [] := Traverses.quiet fun _ => rfl
  apply (Traverses.quiet fun _ => rfl).onward
  intro _
  apply (Traverses.still (declareParams_defined f.params.params)).onward
  intro _
  apply (Traverses.quiet fun _ => rfl).onward
  intro _
  apply (f.context.checkStmts_traverses f.body shaped).ended
  intro _
  apply (Traverses.quiet fun _ => rfl).onward
  intro returnsValue
  apply Traverses.ite
  · apply (Traverses.report rfl).onward
    intro _
    exact closing
  · exact closing

theorem check_traverses (number : Nat) : Traverses (f.check number) (Stmt.exprsOfAll f.body) := by
  apply (Traverses.quiet fun _ => rfl).onward
  intro scope
  cases f.enter? number scope with
  | none => exact Traverses.none (Traverses.report rfl)
  | some entered =>
    apply (Traverses.quiet fun _ => rfl).onward
    intro _
    exact checkBody_traverses shaped

end FuncDecl

theorem Decl.check_traverses {decl : Decl} (number : Nat)
    (shaped : decl.IsShaped IsUnbraced IsInitial) : Traverses (decl.check number) decl.exprs := by
  cases decl with
  | bad => exact Traverses.pure ()
  | func pos f => exact FuncDecl.check_traverses shaped.body number
  | vars pos v => exact VarDecl.check_traverses shaped

theorem File.watch_traverses {file : File} (shaped : file.IsShaped IsUnbraced IsInitial) :
    file.watch.Traverses file.exprs := by
  have decls (number : Nat) (list : List Decl)
      (each : ∀ decl ∈ list, decl.IsShaped IsUnbraced IsInitial) :
      Traverses (checkDecls number list) (list.flatMap Decl.exprs) := by
    induction list generalizing number with
    | nil => exact Traverses.pure ()
    | cons decl rest ih =>
      obtain ⟨here, later⟩ := List.forall_mem_cons.mp each
      apply (Decl.check_traverses number here).bind
      intro _
      exact ih (number + 1) later
  have main : file.checkMain.Reports IsOfDefined := File.checkMain_reports (.byKind rfl)
  apply (decls 0 file.decls shaped).ended
  intro _
  apply (Traverses.still main).onward
  intro _
  exact Traverses.quiet fun _ => rfl

end MiniC
