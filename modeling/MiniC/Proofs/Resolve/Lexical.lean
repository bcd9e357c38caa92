import Mathlib.Data.List.Forall2
import MiniC.Proofs.Check.Watched
import MiniC.Proofs.Resolve.Resolver

/-!
The checker and the resolver go through a file side by side. At every step the
table of the checker shows the scopes that the resolver has come to, so what is
looked at is looked at in the scopes that the tree gives it.
-/

namespace MiniC

/-- The id of a variable that is entered. -/
def Event.issued? : Event → Option Nat
  | .addSymbol _ id _ _ => some id
  | _ => none

def Log.issued (log : Log) : List Nat := log.filterMap Event.issued?

theorem Log.issued_append (sooner later : Log) :
    Log.issued (sooner ++ later) = sooner.issued ++ later.issued :=
  List.filterMap_append

/-- An expression that is to be looked at is looked at where it should be. -/
def SeenAs (seen : Expr × Scope) (use : Expr × Scopes) : Prop :=
  seen.1 = use.1 ∧ seen.2.Pictures use.2

namespace Watched

open Resolver
open Walking (judge)

variable {α β : Type} {watched first : Watched α} {next : α → Watched β}
  {resolver before after : Resolver} {state : CheckState} {scopes : Scopes}

/-- From a state and from the scopes that it shows, both go the same way. -/
structure Agrees (watched : Watched α) (resolver : Resolver) (state : CheckState)
    (scopes : Scopes) : Prop where
  seen : List.Forall₂ SeenAs (watched.seen state) (resolver scopes).uses
  shows : (watched.checker.run state).state.scope.Pictures (resolver scopes).behind
  issued : ∃ n, (watched.checker.run state).log.issued = List.range' scopes.count n ∧
    (resolver scopes).behind.count = scopes.count + n

def Follows (watched : Watched α) (resolver : Resolver) : Prop :=
  ∀ state scopes, state.scope.Pictures scopes → Agrees watched resolver state scopes

theorem Agrees.congr (agrees : Agrees watched before state scopes)
    (same : resolver scopes = before scopes) : Agrees watched resolver state scopes := by
  constructor
  · rw [same]
    exact agrees.seen
  · rw [same]
    exact agrees.shows
  · rw [same]
    exact agrees.issued

theorem Agrees.bind (isFirst : Agrees first before state scopes)
    (isNext : Agrees (next (first.checker.run state).value) after
      (first.checker.run state).state (before scopes).behind) :
    Agrees (first >>= next) (andThen before after) state scopes := by
  constructor
  · exact List.rel_append isFirst.seen isNext.seen
  · exact isNext.shows
  · obtain ⟨n, issued, count⟩ := isFirst.issued
    obtain ⟨m, later, total⟩ := isNext.issued
    refine ⟨n + m, ?_, ?_⟩
    · rw [List.range'_append_1.symm, ← issued, ← count, ← later]
      exact Log.issued_append _ _
    · rw [← Nat.add_assoc, ← count]
      exact total

theorem Follows.bind (isFirst : Follows first before) (isNext : ∀ a, Follows (next a) after) :
    Follows (first >>= next) (andThen before after) := by
  intro state scopes shows
  have here := isFirst state scopes shows
  exact here.bind (isNext _ _ _ here.shows)

/-- What comes behind a check whose run from this state is known. -/
theorem Agrees.blind_bind {checker : Checker α} {a : α} {later : CheckState} {log : Log}
    {behind : Scopes} (run : checker.run state = ⟨a, later, log⟩)
    (issued : ∃ n, log.issued = List.range' scopes.count n ∧ behind.count = scopes.count + n)
    (isNext : Agrees (next a) after later behind) (same : resolver scopes = after behind) :
    Agrees (blind checker >>= next) resolver state scopes := by
  have whole : ((blind checker >>= next).checker.run state) =
      { (next a).checker.run later with log := log ++ ((next a).checker.run later).log } := by
    change Checker.run (checker >>= fun a => (next a).checker) state = _
    simp only [Bind.bind, Checker.bind, run]
  constructor
  · change List.Forall₂ SeenAs ((next (checker.run state).value).seen (checker.run state).state) _
    rw [run, same]
    exact isNext.seen
  · rw [whole, same]
    exact isNext.shows
  · obtain ⟨n, first, count⟩ := issued
    obtain ⟨m, others, total⟩ := isNext.issued
    refine ⟨n + m, ?_, ?_⟩
    · rw [whole, Log.issued_append, first, others, count, List.range'_append_1]
    · rw [same, total, count, Nat.add_assoc]

/-- A check that leaves the scope and enters nothing. -/
theorem Follows.still {checker : Checker α}
    (same : ∀ state, (checker.run state).state.scope = state.scope)
    (quiet : ∀ state, (checker.run state).log.issued = []) : Follows (blind checker) keep := by
  intro state scopes shows
  constructor
  · exact .nil
  · rw [← same state] at shows
    exact shows
  · exact ⟨0, quiet state, rfl⟩

theorem Follows.pure (a : α) : Follows (pure a) keep := .still (fun _ => rfl) fun _ => rfl

theorem Follows.report (pos : Position) (problem : Problem) :
    Follows (blind (Checker.report pos problem)) keep :=
  .still (fun _ => rfl) fun _ => rfl

theorem Follows.judge (exprs : List Expr) (look : Scope → Traced α) :
    Follows (judge exprs look) (use exprs) := by
  intro state scopes shows
  constructor
  · apply List.forall₂_map_left_iff.mpr
    apply List.forall₂_map_right_iff.mpr
    apply List.forall₂_same.mpr
    exact fun e _ => ⟨rfl, shows⟩
  · exact shows
  · refine ⟨0, ?_, rfl⟩
    apply List.filterMap_eq_nil_iff.mpr
    intro event member
    obtain ⟨d, _, rfl⟩ := List.mem_map.mp member
    rfl

theorem Follows.ite {p : Prop} [Decidable p] {yes no : Watched α} (isYes : Follows yes resolver)
    (isNo : Follows no resolver) : Follows (if p then yes else no) resolver := by
  by_cases holds : p
  · rwa [if_pos holds]
  · rwa [if_neg holds]

end Watched

namespace Resolver

def opening : Resolver := fun scopes => ⟨[], scopes.openBlock⟩

def closing : Resolver := fun scopes => ⟨[], scopes.closeBlock⟩

theorem andThen_keep (resolver : Resolver) : andThen resolver keep = resolver := by
  funext scopes
  simp only [andThen, keep, List.append_nil]

theorem andThen_assoc (first second third : Resolver) :
    andThen (andThen first second) third = andThen first (andThen second third) := by
  funext scopes
  unfold andThen
  simp only [List.append_assoc]

/-- What is behind a block is what was before it, but for the count. -/
theorem opening_andThen_closing {inside : Resolver} (isLocal : inside.IsLocal) :
    andThen opening (andThen inside closing) = inBlock inside := by
  funext scopes
  -- the inside has left the scopes around it, so these are back
  obtain ⟨outer, funcs⟩ := isLocal scopes.openBlock
  have behind : (inside scopes.openBlock).behind.closeBlock =
      { scopes with count := (inside scopes.openBlock).behind.count } := by
    unfold ScopeStack.closeBlock
    rw [outer, funcs]
    rfl
  unfold andThen opening closing inBlock
  simp only [List.append_nil, List.nil_append, behind]

end Resolver

open Watched Resolver
open Walking (judge)

section Quiet

variable {α β : Type} {first : Watched α} {next : α → Watched β} {resolver : Resolver}

/-- Nothing is resolved first. -/
theorem Watched.Follows.after (isFirst : Follows first keep)
    (isNext : ∀ a, Follows (next a) resolver) : Follows (first >>= next) resolver :=
  isFirst.bind isNext

/-- Nothing is resolved any more. -/
theorem Watched.Follows.ended (isFirst : Follows first resolver)
    (isNext : ∀ a, Follows (next a) keep) : Follows (first >>= next) resolver := by
  rw [← andThen_keep resolver]
  exact isFirst.bind isNext

end Quiet

theorem openBlock_follows : Follows (blind Checker.openBlock) opening := by
  intro state scopes shows
  exact ⟨.nil, shows.openBlock, 0, rfl, rfl⟩

theorem closeBlock_follows : Follows (blind Checker.closeBlock) closing := by
  intro state scopes shows
  exact ⟨.nil, shows.closeBlock, 0, rfl, scopes.closeBlock_count⟩

/-- A declaration is accepted by both or by neither. -/
theorem declare_follows {name : String} {ty : Ty} {isConst : Bool} {refusing accepting : Resolver}
    {next : Bool → Watched Unit} (refused : Follows (next false) refusing)
    (accepted : Follows (next true) accepting) :
    Follows (blind (Checker.declare name ty isConst) >>= next) fun scopes =>
      if scopes.isDeclaredHere name then refusing scopes
      else accepting (scopes.declare name ty isConst) := by
  intro state scopes shows
  -- an accepted declaration issues one id, a refused one none
  by_cases isDeclared : scopes.isDeclaredHere name = true
  · have run : (Checker.declare name ty isConst).run state = _ :=
      Checker.run_declare_none (shows.addVar_none isDeclared)
    exact .blind_bind run ⟨0, rfl, rfl⟩ (refused state scopes shows) (if_pos isDeclared)
  · obtain ⟨after, entered, showsAfter⟩ :=
      shows.addVar_some ty isConst (Bool.eq_false_iff.mpr isDeclared)
    have run := Checker.run_declare_some entered
    exact .blind_bind run ⟨1, rfl, rfl⟩ (accepted _ _ showsAfter) (if_neg isDeclared)

/-- A variable clashes with a function for both or for neither. -/
theorem Pictures.clash {scope : Scope} {scopes : Scopes} (shows : scope.Pictures scopes)
    (name : String) : (scope.isGlobal && (scope.func? name).isSome) =
      (scopes.outer.isEmpty && (scopes.funcs name).isSome) := by
  have isGlobal : scope.isGlobal = scopes.outer.isEmpty := by
    unfold SymbolTable.isGlobal
    rw [shows.level]
    cases scopes.outer <;> rfl
  rw [isGlobal, shows.funcs]

theorem VarDecl.checkEntered_follows (vars : VarDecl) (d : Declarator) :
    Follows (vars.checkEntered d true) (use d.init.toList) := by
  unfold checkEntered
  cases d.init with
  | none => exact Follows.pure ()
  | some init => exact Follows.judge [init] _

theorem VarDecl.checkDeclarator_follows (vars : VarDecl) (d : Declarator) :
    Follows (vars.checkDeclarator d) (vars.resolveDeclarator d) := by
  have refused : Follows (vars.checkEntered d false) keep := Follows.report _ _
  intro state scopes shows
  have clash := Pictures.clash shows d.name.text
  refine Agrees.blind_bind rfl ⟨0, rfl, rfl⟩ ?_ rfl
  by_cases clashes : (scopes.outer.isEmpty && (scopes.funcs d.name.text).isSome) = true
  · simp only [clash, if_pos clashes]
    exact Agrees.blind_bind rfl ⟨0, rfl, rfl⟩ (refused state scopes shows) (if_pos clashes)
  · simp only [clash, if_neg clashes]
    apply Agrees.congr _ (if_neg clashes)
    exact declare_follows refused (vars.checkEntered_follows d) state scopes shows

theorem VarDecl.check_follows (vars : VarDecl) :
    Follows vars.check (vars.resolve vars.declarators) := by
  unfold check
  induction vars.declarators with
  | nil => exact Follows.pure ()
  | cons d rest ih =>
    apply (vars.checkDeclarator_follows d).bind
    intro _
    exact ih

namespace FunctionContext

variable (context : FunctionContext)

theorem checkReturn_follows (pos : Position) (value : Option Expr) :
    Follows (context.checkReturn pos value) (use value.toList) := by
  cases value with
  | none => exact Follows.ite (Follows.report _ _) (Follows.pure ())
  | some value =>
    apply Follows.ite
    · apply (Follows.judge [value] _).ended
      intro _
      exact Follows.report _ _
    · apply (Follows.judge [value] _).ended
      intro _
      exact Follows.still (fun _ => rfl) fun _ => rfl

mutual

theorem checkStmt_follows : (s : Stmt) → Follows (context.checkStmt s) s.resolve
  | .bad _ | .empty _ | .decl _ none | .clause _ _ _ => Follows.pure ()
  | .decl _ (some vars) => vars.check_follows
  | .simple s => Follows.judge s.exprs _
  | .ret pos value => context.checkReturn_follows pos value
  | .scan _ target => Follows.judge [target] _
  | .print _ args => Follows.judge args _
  | .block _ body => by
    rw [Stmt.resolve, ← opening_andThen_closing (Stmt.resolveAll_isLocal body)]
    apply openBlock_follows.bind
    intro _
    apply (checkStmts_follows body).bind
    intro _
    exact closeBlock_follows
  | .branch _ cond yes none => by
    apply (Follows.judge [cond] _).bind
    intro _
    exact checkStmt_follows yes
  | .branch _ cond yes (some no) => by
    apply (Follows.judge [cond] _).bind
    intro _
    apply (checkStmt_follows yes).bind
    intro _
    exact checkStmt_follows no
  | .whileLoop _ cond body => by
    apply (Follows.judge [cond] _).bind
    intro _
    exact checkStmt_follows body
  | .forLoop _ init cond next body => by
    apply (Follows.judge (Simple.headerExprs init) _).bind
    intro _
    apply (Follows.judge (Simple.headerExprs cond) _).bind
    intro _
    apply (Follows.judge (Simple.headerExprs next) _).bind
    intro _
    exact checkStmt_follows body
  | .switch pos subject clauses => by
    apply (Follows.judge [subject] _).bind
    intro found
    exact checkClauses_follows pos found false clauses

theorem checkStmts_follows : (stmts : List Stmt) →
    Follows (context.checkStmts stmts) (Stmt.resolveAll stmts)
  | [] => Follows.pure ()
  | s :: rest => by
    apply (checkStmt_follows s).bind
    intro _
    exact checkStmts_follows rest

theorem checkClauses_follows (pos : Position) (subject : Ty) (hasDefault : Bool) :
    (clauses : List Stmt) → Follows (context.checkClauses pos subject hasDefault clauses)
      (Stmt.resolveClauses hasDefault clauses)
  | [] => Follows.ite (Follows.pure ()) (Follows.report _ _)
  | .clause _ (some label) body :: rest => by
    apply (Follows.judge [label] _).bind
    intro _
    apply (checkStmts_follows body).bind
    intro _
    exact checkClauses_follows pos subject hasDefault rest
  | .clause _ none body :: rest => by
    cases hasDefault with
    | true => exact Follows.report _ _
    | false =>
      apply (checkStmts_follows body).bind
      intro _
      exact checkClauses_follows pos subject true rest
  | .bad _ :: rest | .empty _ :: rest | .decl _ _ :: rest | .simple _ :: rest | .ret _ _ :: rest
  | .block _ _ :: rest | .branch _ _ _ _ :: rest | .switch _ _ _ :: rest
  | .forLoop _ _ _ _ _ :: rest | .whileLoop _ _ _ :: rest | .scan _ _ :: rest
  | .print _ _ :: rest => checkClauses_follows pos subject hasDefault rest

end

end FunctionContext

theorem declareParams_follows (params : List Param) :
    Follows (blind (declareParams params)) (Param.resolveAll params) := by
  induction params with
  | nil => exact .pure ()
  | cons param rest ih =>
    unfold declareParams Param.resolveAll Param.resolve
    by_cases isInvalid : param.ty.isInvalid = true
    · simp only [isInvalid, Bool.not_true, Bool.false_eq_true, if_false, if_true]
      exact ih
    · rw [if_pos (by simpa using isInvalid), if_neg isInvalid]
      have duplicate := (Follows.report param.name.pos (.duplicateParameter param.name.text)).bind
        fun _ => ih
      -- a parameter is declared as a variable is, but the body is walked either way
      have whole : andThen (declare param.name.text param.ty false []) (Param.resolveAll rest) =
          fun scopes => if scopes.isDeclaredHere param.name.text then Param.resolveAll rest scopes
            else Param.resolveAll rest (scopes.declare param.name.text param.ty false) := by
        funext scopes
        unfold andThen declare
        split <;> rfl
      rw [whole]
      change Follows (blind (Checker.declare param.name.text param.ty false) >>= fun isEntered =>
        blind (if !isEntered then do
          Checker.report param.name.pos (.duplicateParameter param.name.text)
          declareParams rest
        else declareParams rest)) _
      exact declare_follows duplicate ih

/-- The inside of a function is a block of its parameters and its body. -/
theorem FuncDecl.checkBody_follows (f : FuncDecl) :
    Follows f.checkBody
      (inBlock (andThen (Param.resolveAll f.params.params) (Stmt.resolveAll f.body))) := by
  have isLocal :=
    (Param.resolveAll_isLocal f.params.params).andThen (Stmt.resolveAll_isLocal f.body)
  rw [← opening_andThen_closing isLocal, andThen_assoc]
  apply openBlock_follows.bind
  intro _
  apply (declareParams_follows f.params.params).bind
  intro _
  apply Follows.after (Follows.still (fun _ => rfl) fun _ => rfl)
  intro _
  apply (f.context.checkStmts_follows f.body).bind
  intro _
  apply Follows.after (Follows.still (fun _ => rfl) fun _ => rfl)
  intro returnsValue
  -- the block is closed on both ways out
  apply Follows.ite
  · apply (Follows.report _ _).after
    intro _
    exact closeBlock_follows
  · exact closeBlock_follows

section Enter

variable {scope : Scope} {scopes : Scopes}

theorem FuncDecl.enter?_none (f : FuncDecl) (number : Nat) (shows : scope.Pictures scopes)
    (isTaken : ((scopes.var? f.name.text).isSome || (scopes.funcs f.name.text).isSome) = true) :
    f.enter? number scope = none := by
  unfold enter?
  simp only [shows.var?]
  cases isVar : scopes.var? f.name.text with
  | some symbol => rfl
  | none =>
    apply shows.addFunc_none
    simpa [isVar] using isTaken

theorem FuncDecl.enter?_some (f : FuncDecl) (number : Nat) (shows : scope.Pictures scopes)
    (isFree : ¬ ((scopes.var? f.name.text).isSome || (scopes.funcs f.name.text).isSome) = true) :
    ∃ next, f.enter? number scope = some next ∧
      next.Pictures (scopes.addFunc f.name.text ⟨number, f⟩) := by
  rw [Bool.or_eq_true, not_or, Option.not_isSome_iff_eq_none,
    Option.not_isSome_iff_eq_none] at isFree
  unfold enter?
  simp only [shows.var?, isFree.1]
  exact shows.addFunc_some _ isFree.2

end Enter

theorem FuncDecl.check_follows (f : FuncDecl) (number : Nat) :
    Follows (f.check number) (f.resolve number) := by
  intro state scopes shows
  refine Agrees.blind_bind rfl ⟨0, rfl, rfl⟩ ?_ rfl
  by_cases isTaken :
      ((scopes.var? f.name.text).isSome || (scopes.funcs f.name.text).isSome) = true
  · rw [f.enter?_none number shows isTaken]
    exact (Follows.report _ _ state scopes shows).congr (if_pos isTaken)
  · obtain ⟨next, entered, showsNext⟩ := f.enter?_some number shows isTaken
    rw [entered]
    have body := f.checkBody_follows ⟨next, state.returnsValue⟩ _ showsNext
    apply Agrees.blind_bind rfl _ body (if_neg isTaken)
    exact ⟨0, rfl, rfl⟩

theorem Decl.check_follows (number : Nat) (decl : Decl) :
    Follows (decl.check number) (decl.resolve number) := by
  cases decl with
  | bad => exact Follows.pure ()
  | func _ f => exact f.check_follows number
  | vars _ v => exact v.check_follows

theorem File.checkDecls_follows (number : Nat) (decls : List Decl) :
    Follows (checkDecls number decls) (resolveDecls number decls) := by
  induction decls generalizing number with
  | nil => exact Follows.pure ()
  | cons decl rest ih =>
    apply (decl.check_follows number).bind
    intro _
    exact ih (number + 1)

theorem File.watch_agrees (file : File) :
    Agrees file.watch (resolveDecls 0 file.decls) .start .start := by
  have main : Follows (blind file.checkMain) keep := by
    apply Follows.still
    · intro state
      change (Checker.run (if _ then _ else _) state).state.scope = state.scope
      split <;> rfl
    · intro state
      change Log.issued (Checker.run (if _ then _ else _) state).log = []
      split <;> rfl
  have last : Follows (blind Checker.scope) keep := Follows.still (fun _ => rfl) fun _ => rfl
  have all : Follows file.watch (resolveDecls 0 file.decls) := by
    apply (checkDecls_follows 0 file.decls).ended
    intro _
    apply main.after
    intro _
    exact last
  exact all .start .start .start

/-- What the checker has come to after the first declarations of a file. -/
theorem File.checkDecls_shows (number : Nat) (decls : List Decl) {state : CheckState}
    {scopes : Scopes} (shows : state.scope.Pictures scopes) :
    ((checkDecls number decls).run state).state.scope.Pictures
      (resolveDecls number decls scopes).behind := by
  rw [← checker_checkDecls]
  exact (checkDecls_follows number decls state scopes shows).shows

theorem FuncDecl.resolve_outer (f : FuncDecl) (number : Nat) (scopes : Scopes) :
    (f.resolve number scopes).behind.outer = scopes.outer := by
  unfold resolve
  split <;> rfl

theorem Decl.resolve_outer (number : Nat) (decl : Decl) (scopes : Scopes) :
    (decl.resolve number scopes).behind.outer = scopes.outer := by
  cases decl with
  | bad => rfl
  | func _ f => exact f.resolve_outer number scopes
  | vars _ v => exact (v.resolve_isLocal v.declarators scopes).outer

/-- Between declarations no block is open. -/
theorem File.resolveDecls_outer (number : Nat) (decls : List Decl) (scopes : Scopes) :
    (resolveDecls number decls scopes).behind.outer = scopes.outer := by
  induction decls generalizing number scopes with
  | nil => rfl
  | cons decl rest ih =>
    have later := ih (number + 1) (decl.resolve number scopes).behind
    exact later.trans (decl.resolve_outer number scopes)

/-- Names are resolved lexically. Whatever the checker looks at in a file, in
order, is what the resolver comes to on the tree, and there each name stands for
the variable that the tree gives it. A statement leaves the blocks around it as
they were, only the global block is open behind a declaration, and the ids given
to variables count up from 0. -/
theorem names_resolve_lexically (file : File) :
    file.watch.checker = file.check ∧
      List.Forall₂ (fun seen use => seen.1 = use.1 ∧ ∀ name, seen.2.var? name = use.2.var? name)
        (file.watch.seen .start) file.resolve.uses ∧
      (∀ name, (file.check.run .start).value.var? name = file.resolve.behind.var? name) ∧
      (∀ (context : FunctionContext) s (state : CheckState) scopes, state.scope.Pictures scopes →
        ∃ inner count, ((context.checkStmt s).run state).state.scope.Pictures
          { scopes with inner, count }) ∧
      (∀ decls, ((File.checkDecls 0 decls).run .start).state.scope.depth = 1) ∧
      ∃ n, (file.check.run .start).log.issued = List.range n := by
  have agrees := file.watch_agrees
  have shows := agrees.shows
  have issued := agrees.issued
  rw [file.watch_checker] at shows issued
  refine ⟨file.watch_checker, ?_, shows.var?, ?_, ?_, ?_⟩
  · exact agrees.seen.imp fun seen use same => ⟨same.1, same.2.var?⟩
  · intro context s state scopes showsHere
    obtain ⟨outer, funcs⟩ := s.resolve_isLocal scopes
    have behind := (context.checkStmt_follows s state scopes showsHere).shows
    rw [context.checker_checkStmt] at behind
    refine ⟨(s.resolve scopes).behind.inner, (s.resolve scopes).behind.count, ?_⟩
    rw [← outer, ← funcs]
    exact behind
  · intro decls
    have start : CheckState.start.scope.Pictures (.start : Scopes) := .start
    have reached := File.checkDecls_shows 0 decls start
    rw [reached.depth, ScopeStack.depth, ScopeStack.frames, List.length_cons,
      File.resolveDecls_outer]
    rfl
  · obtain ⟨n, ids, _⟩ := issued
    exact ⟨n, ids.trans List.range_eq_range'.symm⟩

/-- A global `x`, and one in a block of `main`; both are looked up, the inner one
first. -/
def shadowed : File where
  name := "shadowed"
  decls :=
    let x : VarDecl := ⟨false, .int, .unknown, [⟨⟨"x", .unknown⟩, [], none⟩]⟩
    let use : Stmt := .scan .unknown (.ident .unknown "x")
    let body : List Stmt := [.block .unknown [.decl .unknown (some x), use], use]
    [.vars .unknown x,
     .func .unknown ⟨.void, .unknown, ⟨"main", .unknown⟩, ⟨.unknown, []⟩, .unknown, body⟩]

theorem names_resolve_lexically_shadowed :
    (shadowed.watch.seen .start).map (fun seen => (seen.2.var? "x").map Symbol.id) =
        [some 1, some 0] ∧
      (CheckState.start.scope.Pictures (.start : Scopes) ∧
        ∃ inner count, ((FunctionContext.checkStmt ⟨"main", .void⟩ (.block .unknown [])).run
          .start).state.scope.Pictures ({ (.start : Scopes) with inner, count })) := by
  obtain ⟨_, seen, _, around, _⟩ := names_resolve_lexically shadowed
  have start : CheckState.start.scope.Pictures (.start : Scopes) := .start
  constructor
  · have uses : shadowed.resolve.uses.map (fun use => (use.2.var? "x").map Symbol.id) =
        [some 1, some 0] := rfl
    rw [← uses, ← List.forall₂_eq_eq_eq]
    apply List.forall₂_map_left_iff.mpr
    apply List.forall₂_map_right_iff.mpr
    exact seen.imp fun _ _ same => congrArg (Option.map Symbol.id) (same.2 "x")
  · exact ⟨start, around _ _ _ _ start⟩

end MiniC
