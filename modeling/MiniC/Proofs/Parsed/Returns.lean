import MiniC.Compilation
import MiniC.Proofs.Stmt.Reports
import MiniC.Proofs.Resolve.Lexical
import MiniC.Proofs.Scope.Reached
import MiniC.Proofs.Stmt.Orderly
import MiniC.Proofs.Stmt.Returns

/-!
When a function is reported to return no value. The remark is made behind the
body, on what was noted in it, and nothing else in a file is reported in its
words: a return without a value has words of its own, and a second function of
the name is not looked into.
-/

namespace MiniC

section Words

/-- The types that a function may return end in different letters. -/
def Ty.lastLetter : Ty → Char
  | .char => 'r'
  | .void => 'd'
  | _ => 't'

theorem returned_ends {ty : Ty} (returned : ty = .int ∨ ty = .char ∨ ty = .void)
    (left : String) : (left ++ ty.display).toList.getLast? = some ty.lastLetter := by
  have own : ty.display.toList.getLast? = some ty.lastLetter := by
    rcases returned with rfl | rfl | rfl <;> decide
  rw [String.toList_append, List.getLast?_append, own]
  rfl

theorem notEnough_ne_missing (left right : String) :
    "not enough return values: " ++ left ≠ "missing return in function " ++ right := by
  intro same
  have letters := congrArg String.toList same
  rw [String.toList_append, String.toList_append,
    show "not enough return values: ".toList = 'n' :: "ot enough return values: ".toList from rfl,
    show "missing return in function ".toList = 'm' :: "issing return in function ".toList from rfl]
    at letters
  have first := (List.cons.inj letters).1
  simp at first

namespace Problem

variable {name other : String} {ty otherTy : Ty}

theorem neverReturns_message_inj (returned : ty = .int ∨ ty = .char ∨ ty = .void)
    (otherReturned : otherTy = .int ∨ otherTy = .char ∨ otherTy = .void)
    (same : (neverReturns name ty).message = (neverReturns other otherTy).message) :
    name = other ∧ ty = otherTy := by
  change "missing return in function " ++ name ++ " returning " ++ ty.display =
    "missing return in function " ++ other ++ " returning " ++ otherTy.display at same
  have letters := congrArg (fun words => words.toList.getLast?) same
  rw [returned_ends returned, returned_ends otherReturned, Option.some.injEq] at letters
  have sameTy : ty = otherTy := by
    rcases returned with rfl | rfl | rfl <;> rcases otherReturned with rfl | rfl | rfl
    all_goals first | rfl | exact absurd letters (by decide)
  subst sameTy
  constructor
  · simpa only [String.append_left_inj, String.append_right_inj] using same
  · rfl

/-- No other problem is reported as a missing return. -/
theorem eq_neverReturns_of_diagnose {problem : Problem} {place pos : Position}
    (same : problem.diagnose place = (neverReturns name ty).diagnose pos) :
    ∃ other otherTy, problem = neverReturns other otherTy := by
  have kind : problem.kind = .returnValueRequired := congrArg Diagnostic.kind same
  have words : problem.message = (neverReturns name ty).message := congrArg Diagnostic.message same
  cases problem with
  | neverReturns other otherTy => exact ⟨other, otherTy, rfl⟩
  | returnWithoutValue other otherTy =>
    change "not enough return values: " ++ other ++ " returns " ++ otherTy.display =
      "missing return in function " ++ name ++ " returning " ++ ty.display at words
    simp only [String.append_assoc] at words
    exact (notEnough_ne_missing _ _ words).elim
  | _ => cases kind

end Problem

end Words

/-- The remark that a function returns no value. -/
def FuncDecl.missingReturn (f : FuncDecl) : Diagnostic :=
  (Problem.neverReturns f.name.text f.returns).diagnose f.name.pos

/-- The function is to return a value, and does so nowhere in the part of its body
that is checked. -/
def FuncDecl.LacksReturn (f : FuncDecl) : Prop :=
  f.returns ≠ .void ∧ Stmt.anyReturnsChecked f.body = false

namespace Checker

variable {α β : Type} {c : Checker α} {next : α → Checker β} {state : CheckState} {d : Diagnostic}

theorem mem_raised_bind : d ∈ ((c >>= next).run state).log.raised ↔
    d ∈ (c.run state).log.raised ∨
      d ∈ ((next (c.run state).value).run (c.run state).state).log.raised := by
  change d ∈ Log.raised (_ ++ _) ↔ _
  rw [Log.raised_append, List.mem_append]

/-- What cannot report a remark is passed over. -/
theorem mem_raised_after {allowed : Position → Problem → Prop} (first : c.Reports allowed)
    (other : ¬ d.IsOn allowed) : d ∈ ((c >>= next).run state).log.raised ↔
      d ∈ ((next (c.run state).value).run (c.run state).state).log.raised := by
  rw [mem_raised_bind]
  exact or_iff_right fun member => other (first state d member)

end Checker

open Checker

section Function

variable {f g : FuncDecl}

theorem missingReturn_not_isOn {allowed : Position → Problem → Prop}
    (others : ∀ pos name ty, ¬ allowed pos (.neverReturns name ty)) :
    ¬ g.missingReturn.IsOn allowed := by
  rintro ⟨place, problem, isAllowed, same⟩
  obtain ⟨name, ty, rfl⟩ := Problem.eq_neverReturns_of_diagnose same.symm
  exact others place name ty isAllowed

theorem missingReturn_not_voiced {sites : List Site} : ¬ g.missingReturn.IsOn (Voiced sites) := by
  apply missingReturn_not_isOn
  rintro _ _ _ ⟨ofStmt, _⟩
  cases ofStmt

/-- What is said behind the body, on what was noted in it. -/
theorem mem_raised_close (state : CheckState) :
    g.missingReturn ∈ (Checker.run (do
        if f.context.needsValue && !(← returnsValue) then
          Checker.report f.name.pos (.neverReturns f.name.text f.returns)
        closeBlock) state).log.raised ↔
      g.missingReturn = f.missingReturn ∧ f.context.needsValue = true ∧
        state.returnsValue = false := by
  have lacks_iff : (f.context.needsValue && !state.returnsValue) = true ↔
      f.context.needsValue = true ∧ state.returnsValue = false := by
    rw [Bool.and_eq_true, Bool.not_eq_true']
  change g.missingReturn ∈ (Checker.run
    (if f.context.needsValue && !state.returnsValue then _ else _) state).log.raised ↔ _
  by_cases lacks : (f.context.needsValue && !state.returnsValue) = true
  · rw [if_pos lacks, ← lacks_iff, and_iff_left lacks]
    exact List.mem_singleton
  · rw [if_neg lacks, ← lacks_iff]
    exact iff_of_false (List.not_mem_nil) fun both => lacks both.2

theorem needsValue_eq_true (valid : f.returns ≠ .invalid) :
    f.context.needsValue = true ↔ f.returns ≠ .void := by
  unfold FunctionContext.needsValue FuncDecl.context
  simp [Ty.isInvalid_eq_false valid]

/-- A function that is entered is reported if it lacks a return, and no other is
reported with it. -/
theorem mem_raised_check {number : Nat} {state : CheckState} {scope : Scope}
    (entered : f.enter? number state.scope = some scope) (valid : f.returns ≠ .invalid)
    (orderly : Stmt.AllOrderly f.body)
    (rooted : Stmt.AllShaped Expr.IsRooted Expr.IsRooted f.body) :
    g.missingReturn ∈ ((f.check number).run state).log.raised ↔
      g.missingReturn = f.missingReturn ∧ f.LacksReturn := by
  have quiet {c : Checker Unit} (silent : ∀ state, (c.run state).log.raised = []) :
      c.Reports (Voiced []) := .quiet silent
  rw [f.run_check, entered]
  dsimp only
  rw [mem_raised_after (quiet fun _ => rfl) missingReturn_not_voiced]
  simp only [FuncDecl.checkBody, Checker.lift_self]
  rw [mem_raised_after (quiet fun _ => rfl) missingReturn_not_voiced,
    mem_raised_after (declareParams_reports _) (missingReturn_not_isOn (by simp)),
    mem_raised_after (quiet fun _ => rfl) missingReturn_not_voiced,
    mem_raised_after (f.context.checkStmts_reports _ rooted) missingReturn_not_voiced,
    mem_raised_close,
    needsValue_eq_true valid]
  apply and_congr_right
  intro _
  apply and_congr_right
  intro valued
  rw [f.context.checkStmts_notes valued f.body orderly]
  exact Iff.of_eq (congrArg (· = false) (Bool.false_or _))

end Function

section File

variable {f : FuncDecl} {state : CheckState} {scopes : Scopes}

/-- A name that is taken by a function stays taken. -/
theorem Decl.funcs_kept {name : String} (number : Nat) (decl : Decl)
    (isTaken : (scopes.funcs name).isSome = true) :
    ((decl.resolve number scopes).behind.funcs name).isSome = true := by
  cases decl with
  | bad => exact isTaken
  | vars _ v =>
    have same := (v.resolve_isLocal v.declarators scopes).funcs
    rwa [Decl.resolve, same]
  | func _ g =>
    change ((g.resolve number scopes).behind.funcs name).isSome = true
    unfold FuncDecl.resolve
    split
    · exact isTaken
    · change (ite _ _ _ : Option KnownFunction).isSome = true
      split
      · rfl
      · exact isTaken

theorem File.funcs_kept {name : String} (number : Nat) (decls : List Decl)
    (isTaken : (scopes.funcs name).isSome = true) :
    ((resolveDecls number decls scopes).behind.funcs name).isSome = true := by
  induction decls generalizing number scopes with
  | nil => exact isTaken
  | cons decl rest ih => exact ih (number + 1) (decl.funcs_kept number isTaken)

/-- The name of a function that is entered was free and is taken from then on. -/
theorem FuncDecl.entered_funcs {number : Nat} {scope : Scope} (shows : state.scope.Pictures scopes)
    (entered : f.enter? number state.scope = some scope) :
    scopes.funcs f.name.text = none ∧
      ((f.resolve number scopes).behind.funcs f.name.text).isSome = true := by
  have isFree : ¬ ((scopes.var? f.name.text).isSome || (scopes.funcs f.name.text).isSome) = true := by
    intro isTaken
    rw [f.enter?_none number shows isTaken] at entered
    cases entered
  constructor
  · rw [Bool.or_eq_true, not_or] at isFree
    exact Option.not_isSome_iff_eq_none.mp isFree.2
  · unfold resolve
    rw [if_neg isFree]
    change (ite _ _ _ : Option KnownFunction).isSome = true
    rw [if_pos rfl]
    rfl

structure Decl.IsWhole (decl : Decl) : Prop where
  typed : ∀ g ∈ decl.func?, g.IsTyped
  orderly : ∀ g ∈ decl.func?, Stmt.AllOrderly g.body
  rooted : decl.IsShaped Expr.IsRooted Expr.IsRooted

/-- A declaration is reported as a function that lacks a return only if it enters
a function of that name. -/
theorem Decl.taken_of_reported (shows : state.scope.Pictures scopes)
    (returned : f.returns = .int ∨ f.returns = .char ∨ f.returns = .void) (number : Nat)
    {decl : Decl} (whole : decl.IsWhole)
    (reported : f.missingReturn ∈ ((decl.check number).run state).log.raised) :
    scopes.funcs f.name.text = none ∧
      ((decl.resolve number scopes).behind.funcs f.name.text).isSome = true := by
  cases decl with
  | bad => cases reported
  | vars _ v => exact (missingReturn_not_voiced (VarDecl.check_reports whole.rooted state _ reported)).elim
  | func _ g =>
    have isTyped := whole.typed g rfl
    change f.missingReturn ∈ ((g.check number).run state).log.raised at reported
    cases entered : g.enter? number state.scope with
    | none =>
      rw [g.run_check, entered] at reported
      have isOn : f.missingReturn.IsOn fun _ problem => problem = .redeclared g.name.text :=
        ⟨_, _, rfl, List.mem_singleton.mp reported⟩
      exact (missingReturn_not_isOn (by simp) isOn).elim
    | some scope =>
      obtain ⟨same, _⟩ :=
        (mem_raised_check entered isTyped.returns_ne_invalid (whole.orderly g rfl)
          whole.rooted.body).mp reported
      obtain ⟨sameName, _⟩ := Problem.neverReturns_message_inj returned isTyped.returns
        (congrArg Diagnostic.message same)
      rw [sameName]
      exact g.entered_funcs shows entered

/-- The same of several declarations. -/
theorem File.taken_of_reported (shows : state.scope.Pictures scopes)
    (returned : f.returns = .int ∨ f.returns = .char ∨ f.returns = .void) (number : Nat)
    {decls : List Decl} (whole : ∀ decl ∈ decls, decl.IsWhole)
    (reported : f.missingReturn ∈ ((checkDecls number decls).run state).log.raised) :
    scopes.funcs f.name.text = none ∧
      ((resolveDecls number decls scopes).behind.funcs f.name.text).isSome = true := by
  induction decls generalizing number state scopes with
  | nil => cases reported
  | cons decl rest ih =>
    obtain ⟨here, others⟩ := List.forall_mem_cons.mp whole
    rcases mem_raised_bind.mp reported with first | later
    · obtain ⟨isFree, isTaken⟩ := decl.taken_of_reported shows returned number here first
      exact ⟨isFree, File.funcs_kept (number + 1) rest isTaken⟩
    · have showsNext : ((decl.check number).run state).state.scope.Pictures
          (decl.resolve number scopes).behind := File.checkDecls_shows number [decl] shows
      obtain ⟨isFree, isTaken⟩ := ih showsNext (number + 1) others later
      refine ⟨?_, isTaken⟩
      rw [← Option.not_isSome_iff_eq_none] at isFree ⊢
      exact fun taken => isFree (decl.funcs_kept number taken)

/-- The remarks on declarations are those on the first ones and those on the rest. -/
theorem File.mem_raised_append {d : Diagnostic} (number : Nat) (before rest : List Decl) :
    d ∈ ((checkDecls number (before ++ rest)).run state).log.raised ↔
      d ∈ ((checkDecls number before).run state).log.raised ∨
        d ∈ ((checkDecls (number + before.length) rest).run
          ((checkDecls number before).run state).state).log.raised := by
  induction before generalizing number state with
  | nil => exact (or_iff_right (List.not_mem_nil)).symm
  | cons decl more ih =>
    rw [List.cons_append, checkDecls, mem_raised_bind, ih, List.length_cons, checkDecls,
      mem_raised_bind, or_assoc, Nat.add_right_comm, Nat.add_assoc]
    rfl

end File

/-- Any declaration that is read is whole, in the types and in the bodies of its
functions. -/
theorem parse_whole (name source : String) :
    ∀ decl ∈ (parse name source).file.decls, decl.IsWhole := by
  intro decl isDecl
  have isFunc (g : FuncDecl) (same : g ∈ decl.func?) : g ∈ (parse name source).file.funcs :=
    List.mem_filterMap.mpr ⟨decl, isDecl, same⟩
  constructor
  · exact fun g same => (parse_typed name source).func (isFunc g same)
  · exact fun g same => parse_orderly name source g (isFunc g same)
  · exact parse_rooted name source decl isDecl

section Compiled

variable {name source : String} {before after : List Decl} {place : Position} {f : FuncDecl}

/-- Behind the declarations only a missing `main` is reported. -/
theorem mem_checkingLog_iff :
    f.missingReturn ∈ (compile name source).checkingLog.raised ↔
      f.missingReturn ∈
        ((File.checkDecls 0 (parse name source).file.decls).run .start).log.raised := by
  have main : (parse name source).file.checkMain.Reports
      fun _ problem => ∃ file, problem = .missingMain file :=
    File.checkMain_reports ⟨_, rfl⟩
  change f.missingReturn ∈ (Checker.run (_ >>= fun _ =>
    (parse name source).file.checkMain >>= fun _ => _) .start).log.raised ↔ _
  rw [mem_raised_bind, mem_raised_after main (missingReturn_not_isOn (by simp))]
  exact or_iff_left List.not_mem_nil

theorem mem_checkingLog_iff_lacksReturn
    (isDecl : (parse name source).file.decls = before ++ .func place f :: after)
    (entered : (f.enter? before.length
      ((File.checkDecls 0 before).run .start).state.scope).isSome) :
    f.missingReturn ∈ (compile name source).checkingLog.raised ↔ f.LacksReturn := by
  have whole := parse_whole name source
  rw [isDecl, List.forall_mem_append, List.forall_mem_cons] at whole
  obtain ⟨wholeBefore, here, wholeAfter⟩ := whole
  have isTyped := here.typed f rfl
  obtain ⟨scope, entered⟩ := Option.isSome_iff_exists.mp entered
  have start : CheckState.start.scope.Pictures (.start : Scopes) := .start
  have shows := File.checkDecls_shows 0 before start
  have showsAfter := File.checkDecls_shows before.length [.func place f] shows
  obtain ⟨isFree, isTaken⟩ := f.entered_funcs shows entered
  rw [mem_checkingLog_iff, isDecl, File.mem_raised_append, File.checkDecls, mem_raised_bind,
    Nat.zero_add]
  have own := mem_raised_check (g := f) entered isTyped.returns_ne_invalid (here.orderly f rfl)
    here.rooted.body
  rw [and_iff_right rfl] at own
  constructor
  · rintro (sooner | now | later)
    · -- a function of the name would have been entered before
      obtain ⟨_, taken⟩ := File.taken_of_reported start isTyped.returns 0 wholeBefore sooner
      rw [isFree] at taken
      cases taken
    · exact own.mp now
    · -- the name is taken, so no other function of that name is entered
      obtain ⟨free, _⟩ := File.taken_of_reported showsAfter isTyped.returns _ wholeAfter later
      rw [← Option.not_isSome_iff_eq_none] at free
      exact (free isTaken).elim
  · exact fun lacks => .inr (.inl (own.mpr lacks))

end Compiled

/-- A function that is entered is reported to miss a return just when it is to
return a value and none is returned in its body, at whatever depth, clauses of a
switch from its second default on left out. With no second default anywhere all
of the body counts, and a body that returns no value at all is always reported. -/
theorem missing_returns_exact (name source : String) {before after : List Decl} {place : Position}
    {f : FuncDecl} (isDecl : (parse name source).file.decls = before ++ .func place f :: after)
    (entered : (f.enter? before.length
      ((File.checkDecls 0 before).run .start).state.scope).isSome) :
    (f.missingReturn ∈ (compile name source).checkingLog.raised ↔
        f.returns ≠ .void ∧ Stmt.anyReturnsChecked f.body = false) ∧
      (Stmt.AllSingleDefaults f.body →
        (f.missingReturn ∈ (compile name source).checkingLog.raised ↔
          f.returns ≠ .void ∧ Stmt.anyReturnsValue f.body = false)) ∧
      (f.returns ≠ .void → Stmt.anyReturnsValue f.body = false →
        f.missingReturn ∈ (compile name source).checkingLog.raised) := by
  have exact_iff := mem_checkingLog_iff_lacksReturn isDecl entered
  refine ⟨exact_iff, ?single, ?none⟩
  case single =>
    intro single
    rw [exact_iff, FuncDecl.LacksReturn, Stmt.anyReturnsChecked_eq f.body single]
  case none =>
    intro valued none
    refine exact_iff.mpr ⟨valued, Bool.eq_false_iff.mpr fun returns => ?_⟩
    rw [Stmt.anyReturnsValue_of_checked f.body returns] at none
    cases none

namespace ReturnSample

def pos (offset : Nat) : Position := ⟨"r.c", offset, 1, offset + 1⟩

def main (offset : Nat) : Decl :=
  .func (pos offset) ⟨.void, pos offset, ⟨"main", pos (offset + 5)⟩, ⟨pos (offset + 9), []⟩,
    pos (offset + 12), []⟩

def nested : String := "int f(int n) { while (n < 2) { if (n < 1) return n; } } void main() {}"

/-- Returns `n` inside a branch, a block and a loop. -/
def nestedFunc : FuncDecl :=
  let n (offset : Nat) : Expr := .ident (pos offset) "n"
  let less (left right : Nat) (text : String) : Expr :=
    .binary (pos left) .lt (n left) (.lit (pos right) .int text)
  ⟨.int, pos 0, ⟨"f", pos 4⟩, ⟨pos 5, [⟨pos 6, .int, ⟨"n", pos 10⟩⟩]⟩, pos 13,
    [.whileLoop (pos 15) (less 22 26 "2")
      (.block (pos 29) [.branch (pos 31) (less 35 39 "1") (.ret (pos 42) (some (n 49))) none])]⟩

def twoDefaults : String :=
  "int f() { switch (1) { default: ; default: return 1; } } void main() {}"

/-- Returns a value only behind the second default of a switch. -/
def twoDefaultsFunc : FuncDecl :=
  let one (offset : Nat) : Expr := .lit (pos offset) .int "1"
  ⟨.int, pos 0, ⟨"f", pos 4⟩, ⟨pos 5, []⟩, pos 8,
    [.switch (pos 10) (one 18)
      [.clause (pos 23) none [.empty (pos 32)],
       .clause (pos 34) none [.ret (pos 43) (some (one 50))]]]⟩

end ReturnSample

open ReturnSample in
theorem missing_returns_exact_nested :
    (parse "r.c" nested).file.decls = [] ++ .func (pos 0) nestedFunc :: [main 56] ∧
      (nestedFunc.enter? 0 ((File.checkDecls 0 []).run .start).state.scope).isSome ∧
      Stmt.AllSingleDefaults nestedFunc.body ∧
      nestedFunc.missingReturn ∉ (compile "r.c" nested).checkingLog.raised := by
  have isDecl : (parse "r.c" nested).file.decls = [] ++ .func (pos 0) nestedFunc :: [main 56] := by
    with_unfolding_all rfl
  have entered : (nestedFunc.enter? 0 ((File.checkDecls 0 []).run .start).state.scope).isSome := rfl
  have single : Stmt.AllSingleDefaults nestedFunc.body := ⟨⟨trivial, trivial⟩, trivial⟩
  refine ⟨isDecl, entered, single, fun reported => ?_⟩
  obtain ⟨_, all, _⟩ := missing_returns_exact "r.c" nested isDecl entered
  obtain ⟨_, none⟩ := (all single).mp reported
  cases none

open ReturnSample in
/-- A return behind the second default of a switch is overlooked. -/
theorem return_overlooked :
    ¬ ∀ name source before after place (f : FuncDecl),
      (parse name source).file.decls = before ++ .func place f :: after →
      (f.enter? before.length ((File.checkDecls 0 before).run .start).state.scope).isSome →
      (f.missingReturn ∈ (compile name source).checkingLog.raised ↔
        f.returns ≠ .void ∧ Stmt.anyReturnsValue f.body = false) := by
  intro all
  have isDecl : (parse "r.c" twoDefaults).file.decls =
      [] ++ .func (pos 0) twoDefaultsFunc :: [main 57] := by
    with_unfolding_all rfl
  have entered : (twoDefaultsFunc.enter? 0 ((File.checkDecls 0 []).run .start).state.scope).isSome :=
    rfl
  have reported : twoDefaultsFunc.missingReturn ∈ (compile "r.c" twoDefaults).checkingLog.raised :=
    (mem_checkingLog_iff_lacksReturn isDecl entered).mpr ⟨nofun, rfl⟩
  obtain ⟨_, none⟩ := (all _ _ _ _ _ _ isDecl entered).mp reported
  cases none

end MiniC
