import MiniC.Compilation
import MiniC.Stmt.Check
import MiniC.Proofs.Resolve.Lexical
import MiniC.Proofs.Scope.Declares

/-!
The global names of a file. Functions and variables share them, and a name stands
for the first of its declarations: those behind it are passed over, and what a
function declares inside is gone when it is left.
-/

namespace MiniC

/-- A name that a file declares, with what it is declared as. A function goes with
the number of its declaration. -/
inductive Global where
  | var (vars : VarDecl) (d : Declarator)
  | func (number : Nat) (f : FuncDecl)

namespace Global

def name : Global → Name
  | var _ d => d.name
  | func _ f => f.name

def isVar : Global → Bool
  | var _ _ => true
  | func _ _ => false

def binding? : Global → Option Binding
  | var vars d => some (vars.binding d)
  | func _ _ => none

def known? : Global → Option KnownFunction
  | var _ _ => none
  | func number f => some ⟨number, f⟩

def check : Global → Checker Unit
  | var vars d => vars.checkDeclarator d
  | func number f => f.check number

def resolve : Global → Resolver
  | var vars d => vars.resolveDeclarator d
  | func number f => f.resolve number

def checkAll : List Global → Checker Unit
  | [] => pure ()
  | g :: rest => do
    g.check
    checkAll rest

/-- The first declaration of a name. -/
def first? (globals : List Global) (name : String) : Option Global :=
  globals.find? (·.name.text == name)

end Global

def Decl.globals (number : Nat) : Decl → List Global
  | .bad _ => []
  | .func _ f => [.func number f]
  | .vars _ v => v.declarators.map (.var v)

def File.globalsFrom : Nat → List Decl → List Global
  | _, [] => []
  | number, decl :: rest => decl.globals number ++ globalsFrom (number + 1) rest

/-- All that a file declares, in order. -/
def File.globals (file : File) : List Global := globalsFrom 0 file.decls

section First

variable {sooner : List Global} {g : Global} {name : String}

theorem Global.first?_append (sooner : List Global) (g : Global) (name : String) :
    first? (sooner ++ [g]) name =
      (first? sooner name).or (if g.name.text = name then some g else none) := by
  unfold first?
  rw [List.find?_append, List.find?_singleton]
  congr 1
  simp

theorem Global.first?_of_taken (taken : (first? sooner g.name.text).isSome = true)
    (name : String) : first? (sooner ++ [g]) name = first? sooner name := by
  rw [first?_append]
  by_cases same : g.name.text = name
  · rw [← same]
    exact Option.or_of_isSome taken
  · rw [if_neg same, Option.or_none]

theorem Global.first?_of_free (free : first? sooner g.name.text = none) :
    first? (sooner ++ [g]) name = if g.name.text = name then some g else first? sooner name := by
  rw [first?_append]
  by_cases same : g.name.text = name
  · rw [if_pos same, if_pos same, ← same, free, Option.none_or]
  · rw [if_neg same, if_neg same, Option.or_none]

theorem Global.isSome_first? : (first? sooner name).isSome = true ↔
    name ∈ sooner.map (·.name.text) := by
  unfold first?
  rw [List.find?_isSome, List.mem_map]
  simp

end First

/-- Behind some declarations only the global block is open, and a name in it stands
for its first declaration. -/
structure ScopeStack.Holds (scopes : Scopes) (sooner : List Global) : Prop where
  outer : scopes.outer = []
  var : ∀ name, (named scopes.inner name).map Symbol.binding =
    (Global.first? sooner name).bind Global.binding?
  func : ∀ name, scopes.funcs name = (Global.first? sooner name).bind Global.known?
  distinct : (scopes.inner.map Symbol.name).Nodup

namespace ScopeStack.Holds

variable {scopes : Scopes} {sooner : List Global} {g : Global}

theorem start : (ScopeStack.start : Scopes).Holds [] :=
  ⟨rfl, fun _ => rfl, fun _ => rfl, List.nodup_nil⟩

/-- A name is taken by a variable or by a function. -/
theorem taken_iff (holds : scopes.Holds sooner) (name : String) :
    (Global.first? sooner name).isSome = true ↔
      scopes.isDeclaredHere name = true ∨ (scopes.funcs name).isSome = true := by
  unfold isDeclaredHere
  rw [← Option.isSome_map (f := Symbol.binding), holds.var, holds.func]
  cases Global.first? sooner name with
  | none => simp
  | some g => cases g <;> simp [Global.binding?, Global.known?]

theorem var?_eq (holds : scopes.Holds sooner) (name : String) :
    scopes.var? name = named scopes.inner name := by
  unfold var? frames
  rw [holds.outer, List.findSome?_cons, List.findSome?_nil]
  cases named scopes.inner name <;> rfl

theorem passed (holds : scopes.Holds sooner)
    (taken : (Global.first? sooner g.name.text).isSome = true) : scopes.Holds (sooner ++ [g]) where
  outer := holds.outer
  var name := by rw [Global.first?_of_taken taken, holds.var]
  func name := by rw [Global.first?_of_taken taken, holds.func]
  distinct := holds.distinct

theorem declare (holds : scopes.Holds sooner) {vars : VarDecl} {d : Declarator}
    (free : Global.first? sooner d.name.text = none) :
    (scopes.declare d.name.text (vars.typeOf d) vars.isConst).Holds
      (sooner ++ [.var vars d]) := by
  have notTaken : ¬ (Global.first? sooner d.name.text).isSome = true := by simp [free]
  rw [holds.taken_iff, not_or] at notTaken
  obtain ⟨noVar, noFunc⟩ := notTaken
  have first (name : String) : Global.first? (sooner ++ [.var vars d]) name =
      if d.name.text = name then some (.var vars d) else Global.first? sooner name :=
    Global.first?_of_free free
  constructor
  · exact holds.outer
  · intro name
    change ((scopes.fresh _ _ _ :: scopes.inner).find? (·.name == name)).map _ = _
    rw [first, List.find?_cons, fresh_name]
    by_cases same : d.name.text = name
    · rw [beq_iff_eq.mpr same]
      simp [same, Global.binding?, Symbol.binding, VarDecl.binding, fresh]
    · rw [beq_false_of_ne same, if_neg same, ← holds.var]
      rfl
  · intro name
    change scopes.funcs name = _
    rw [first, holds.func]
    by_cases same : d.name.text = name
    · rw [← same, free]
      simp [Global.known?]
    · rw [if_neg same]
  · -- the new symbol is the only one of its name in the block
    refine List.nodup_cons.mpr ⟨?_, holds.distinct⟩
    rintro member
    obtain ⟨symbol, isHere, same⟩ := List.mem_map.mp member
    refine noVar (List.find?_isSome.mpr ⟨symbol, isHere, ?_⟩)
    exact beq_iff_eq.mpr same

theorem addFunc (holds : scopes.Holds sooner) {number : Nat} {f : FuncDecl} {count : Nat}
    (free : Global.first? sooner f.name.text = none) :
    ({ scopes.addFunc f.name.text ⟨number, f⟩ with count } : Scopes).Holds
      (sooner ++ [.func number f]) := by
  have first (name : String) : Global.first? (sooner ++ [.func number f]) name =
      if f.name.text = name then some (.func number f) else Global.first? sooner name :=
    Global.first?_of_free free
  constructor
  · exact holds.outer
  · intro name
    change (named scopes.inner name).map _ = _
    rw [first, holds.var]
    by_cases same : f.name.text = name
    · rw [← same, free]
      simp [Global.binding?]
    · rw [if_neg same]
  · intro name
    change (if name = f.name.text then _ else scopes.funcs name) = _
    rw [first, holds.func]
    by_cases same : f.name.text = name
    · simp [same, Global.known?]
    · rw [if_neg same, if_neg (Ne.symm same)]
  · exact holds.distinct

end ScopeStack.Holds

namespace Global

variable {state : CheckState} {scopes : Scopes} {sooner : List Global}

theorem resolve_var_holds (holds : scopes.Holds sooner) (vars : VarDecl) (d : Declarator) :
    (vars.resolveDeclarator d scopes).behind.Holds (sooner ++ [.var vars d]) := by
  have atTop : scopes.outer.isEmpty = true := List.isEmpty_iff.mpr holds.outer
  unfold VarDecl.resolveDeclarator Resolver.declare
  rw [atTop, Bool.true_and]
  by_cases isFunc : (scopes.funcs d.name.text).isSome = true
  · rw [if_pos isFunc]
    exact holds.passed ((holds.taken_iff _).mpr (.inr isFunc))
  rw [if_neg isFunc]
  by_cases isVar : scopes.isDeclaredHere d.name.text = true
  · rw [if_pos isVar]
    exact holds.passed ((holds.taken_iff _).mpr (.inl isVar))
  · rw [if_neg isVar]
    have free : ¬ (first? sooner d.name.text).isSome = true := by
      rw [holds.taken_iff]
      exact not_or_intro isVar isFunc
    exact holds.declare (Option.not_isSome_iff_eq_none.mp free)

theorem resolve_func_holds (holds : scopes.Holds sooner) (number : Nat) (f : FuncDecl) :
    (f.resolve number scopes).behind.Holds (sooner ++ [.func number f]) := by
  have taken : (first? sooner f.name.text).isSome = true ↔
      ((scopes.var? f.name.text).isSome || (scopes.funcs f.name.text).isSome) = true := by
    rw [holds.taken_iff, Bool.or_eq_true, holds.var?_eq]
    rfl
  unfold FuncDecl.resolve
  by_cases isTaken : (first? sooner f.name.text).isSome = true
  · rw [if_pos (taken.mp isTaken)]
    exact holds.passed isTaken
  · rw [if_neg (mt taken.mpr isTaken)]
    exact holds.addFunc (Option.not_isSome_iff_eq_none.mp isTaken)

/-- What the resolver comes to behind one more declaration. -/
theorem resolve_holds (holds : scopes.Holds sooner) (g : Global) :
    (g.resolve scopes).behind.Holds (sooner ++ [g]) := by
  cases g with
  | var vars d => exact resolve_var_holds holds vars d
  | func number f => exact resolve_func_holds holds number f

/-- The table of the checker shows it. -/
theorem check_shows (shows : state.scope.Pictures scopes) (g : Global) :
    (g.check.run state).state.scope.Pictures (g.resolve scopes).behind := by
  cases g with
  | var vars d =>
    rw [check, ← vars.checker_checkDeclarator]
    exact (vars.checkDeclarator_follows d state scopes shows).shows
  | func number f =>
    rw [check, ← f.checker_check]
    exact (f.check_follows number state scopes shows).shows

/-- A declaration whose name is taken is reported, and nothing else is done. -/
theorem check_taken (shows : state.scope.Pictures scopes) (holds : scopes.Holds sooner) (g : Global)
    (taken : (first? sooner g.name.text).isSome = true) :
    g.check.run state =
      ⟨(), state, [.problem ((Problem.redeclared g.name.text).diagnose g.name.pos)]⟩ := by
  rw [holds.taken_iff] at taken
  cases g with
  | var vars d =>
    -- a function of that name is looked for first, then another variable
    have opened : (vars.checkDeclarator d).run state = Checker.run
        (if (state.scope.isGlobal && (state.scope.func? d.name.text).isSome) = true then
          pure false >>= vars.checkEntered d
        else Checker.declare d.name.text (vars.typeOf d) vars.isConst >>= vars.checkEntered d)
        state := rfl
    rw [check, opened, Pictures.clash shows]
    by_cases clash : (scopes.outer.isEmpty && (scopes.funcs d.name.text).isSome) = true
    · rw [if_pos clash]
      rfl
    · rw [if_neg clash]
      rw [holds.outer, List.isEmpty_nil, Bool.true_and] at clash
      have refused : state.scope.addVar d.name.text (vars.typeOf d) vars.isConst = none :=
        shows.addVar_none (taken.resolve_right clash)
      simp only [Bind.bind, Checker.bind, Checker.run_declare_none refused]
      rfl
  | func number f =>
    have isTaken : ((scopes.var? f.name.text).isSome || (scopes.funcs f.name.text).isSome) = true := by
      rw [Bool.or_eq_true, holds.var?_eq]
      exact taken
    rw [check, f.run_check, f.enter?_none number shows isTaken]
    rfl

/-- Behind all of them the names stand for their first declarations. -/
theorem checkAll_holds (shows : state.scope.Pictures scopes) (holds : scopes.Holds sooner)
    (globals : List Global) : ∃ behind,
      ((checkAll globals).run state).state.scope.Pictures behind ∧
        behind.Holds (sooner ++ globals) := by
  -- both go on side by side: the table shows the scopes, and the scopes hold the names
  induction globals generalizing state scopes sooner with
  | nil =>
    rw [List.append_nil]
    exact ⟨scopes, shows, holds⟩
  | cons g rest ih =>
    obtain ⟨behind, shown, held⟩ := ih (check_shows shows g) (resolve_holds holds g)
    rw [List.append_assoc, List.singleton_append] at held
    exact ⟨behind, shown, held⟩

end Global

namespace Checker

variable {α β γ : Type}

theorem pure_bind (a : α) (f : α → Checker β) : pure a >>= f = f a := rfl

theorem bind_assoc (c : Checker α) (f : α → Checker β) (g : β → Checker γ) :
    c >>= f >>= g = c >>= fun a => f a >>= g := by
  simp only [Bind.bind, Checker.bind, List.append_assoc]

theorem bind_pure (c : Checker Unit) : (c >>= fun _ => pure ()) = c := by
  simp only [Bind.bind, Checker.bind, Pure.pure, Checker.pure, List.append_nil]

end Checker

/-- A file is checked name by name. -/
theorem Global.checkAll_append (sooner later : List Global) :
    checkAll (sooner ++ later) = checkAll sooner >>= fun _ => checkAll later := by
  induction sooner with
  | nil => rfl
  | cons g rest ih => rw [List.cons_append, checkAll, ih, checkAll, Checker.bind_assoc]

theorem VarDecl.checkAll_eq (vars : VarDecl) (list : List Declarator) :
    vars.checkAll list = Global.checkAll (list.map (.var vars)) := by
  induction list with
  | nil => rfl
  | cons d rest ih => rw [checkAll, ih, List.map_cons, Global.checkAll, Global.check]

theorem Decl.check_eq (number : Nat) (decl : Decl) :
    decl.check number = Global.checkAll (decl.globals number) := by
  cases decl with
  | bad => rfl
  | func _ f => exact (Checker.bind_pure (f.check number)).symm
  | vars _ v => exact v.checkAll_eq v.declarators

theorem File.checkDecls_eq (number : Nat) (decls : List Decl) :
    checkDecls number decls = Global.checkAll (globalsFrom number decls) := by
  induction decls generalizing number with
  | nil => rfl
  | cons decl rest ih => rw [checkDecls, ih, decl.check_eq, globalsFrom, Global.checkAll_append]

section Names

theorem Decl.globals_names (number : Nat) (decl : Decl) :
    (decl.globals number).map (·.name.text) = File.declaredNames decl := by
  cases decl with
  | bad | func => rfl
  | vars _ v =>
    rw [globals, List.map_map]
    rfl

theorem File.globalsFrom_names (number : Nat) (decls : List Decl) :
    (globalsFrom number decls).map (·.name.text) = decls.flatMap declaredNames := by
  induction decls generalizing number with
  | nil => rfl
  | cons decl rest ih =>
    rw [globalsFrom, List.map_append, ih, decl.globals_names, List.flatMap_cons]

theorem mem_names_iff {file : File} {name : String} :
    name ∈ file.names ↔ (Global.first? file.globals name).isSome = true := by
  rw [File.names, List.mem_eraseDups, ← File.globalsFrom_names 0, Global.isSome_first?]
  rfl

theorem nodup_eraseDups (names : List String) : names.eraseDups.Nodup := by
  induction length : names.length using Nat.strongRecOn generalizing names with
  | ind n ih =>
    cases names with
    | nil => exact List.nodup_nil
    | cons name rest =>
      have shorter : (rest.filter fun other => !other == name).length < n := by
        rw [← length, List.length_cons]
        exact Nat.lt_succ_of_le (List.length_filter_le _ _)
      rw [List.eraseDups_cons, List.nodup_cons]
      constructor
      · simp
      · exact ih _ shorter _ rfl

end Names

/-- The variables in the global block are the names that are variables first. -/
theorem ScopeStack.Holds.visibleCount {scopes : Scopes} {file : File}
    (holds : scopes.Holds file.globals) : scopes.visibleCount =
      file.names.countP fun name => (Global.first? file.globals name).any Global.isVar := by
  have isVar (name : String) : (Global.first? file.globals name).any Global.isVar = true ↔
      name ∈ scopes.inner.map Symbol.name := by
    have present : (named scopes.inner name).isSome = true ↔
        name ∈ scopes.inner.map Symbol.name := by
      unfold named
      rw [List.find?_isSome, List.mem_map]
      simp
    rw [← present, ← Option.isSome_map (f := Symbol.binding), holds.var]
    cases Global.first? file.globals name with
    | none => simp
    | some g => cases g <;> simp [Global.isVar, Global.binding?]
  have same : (scopes.inner.map Symbol.name).Perm
      (file.names.filter fun name => (Global.first? file.globals name).any Global.isVar) := by
    have distinct : file.names.Nodup := nodup_eraseDups _
    refine (List.perm_ext_iff_of_nodup holds.distinct (distinct.filter _)).mpr fun name => ?_
    rw [List.mem_filter, isVar, mem_names_iff]
    constructor
    · intro member
      exact ⟨Option.isSome_of_any ((isVar name).mpr member), member⟩
    · exact And.right
  rw [List.countP_eq_length_filter, ← same.length_eq, List.length_map]
  unfold ScopeStack.visibleCount frames
  rw [holds.outer]
  simp

end MiniC
