import MiniC.Proofs.Static.Stmts

/-!
Functions and whole files against their rules. A function is checked in a block
that is closed again, so that it leaves its name alone; the declarations of a
file follow each other in the global block, where functions and variables share
their names.
-/

namespace MiniC

open Checker

theorem Param.Grammatical.isInvalid {param : Param} (grammatical : param.Grammatical) :
    param.ty.isInvalid = false := by
  rcases grammatical with same | same <;> rw [same] <;> rfl

theorem Param.Grammatical.leaf {param : Param} (grammatical : param.Grammatical) :
    param.ty.leaf ≠ .invalid := by
  rcases grammatical with same | same <;> rw [same] <;> nofun

/-- Inside a block, parameters are declared if no two share a name. -/
theorem declareParams_settles {params : List Param} (grammatical : ∀ p ∈ params, p.Grammatical)
    (state : CheckState) (sound : SoundScope state.scope)
    (isLocal : state.scope.isGlobal = false) :
    Settles (declareParams params) state
      (Fresh state.scope ((params.map Param.binding).map Binding.name))
      fun _ after => SoundScope after.scope ∧
        Declares (params.map Param.binding) state.scope after.scope := by
  induction params generalizing state with
  | nil => exact (Settles.pure ⟨sound, .refl _⟩).congr (iff_of_true (fresh_nil _) trivial)
  | cons param rest ih =>
    obtain ⟨good, later⟩ := List.forall_mem_cons.mp grammatical
    let report := Checker.report param.name.pos (.duplicateParameter param.name.text)
    have run : (declareParams (param :: rest)).run state =
        (Checker.declare param.name.text param.ty false >>= fun isEntered =>
          if !isEntered then report >>= fun _ => declareParams rest
          else declareParams rest).run state := by
      rw [declareParams, if_pos (by rw [good.isInvalid]; rfl)]
    have fails : ¬ (report >>= fun _ => declareParams rest).IsSilent state := by
      rw [isSilent_bind_iff]
      exact fun silent => List.cons_ne_nil _ _ silent.1
    rw [List.map_cons, List.map_cons]
    apply Settles.of_run_eq _ run
    apply Settles.declare fails
    · intro fresh
      exact (fresh.free _ List.mem_cons_self).1
    · intro symbol after added
      have declares : Declares [param.binding] state.scope after := .addVar added
      have free : Fresh state.scope [param.name.text] :=
        fresh_singleton_iff.mpr ⟨SymbolTable.not_isDeclaredHere added, by simp [isLocal]⟩
      have localAfter : after.isGlobal = false := by
        unfold SymbolTable.isGlobal
        rw [declares.level]
        exact isLocal
      have settles := ih later ⟨after, state.returnsValue⟩ (sound.addVar good.leaf added) localAfter
      apply (settles.congr _).mono
      · rintro _ last _ ⟨soundLast, declaresRest⟩
        exact ⟨soundLast, declares.trans declaresRest⟩
      · exact declares.takes.fresh_append_iff.trans (and_iff_right free)

namespace FuncDecl

variable {f : FuncDecl}

theorem Grammatical.returns_ne_invalid (grammatical : f.Grammatical) : f.returns ≠ .invalid := by
  rcases grammatical.returns with same | same | same <;> rw [same] <;> nofun

/-- At the end of a function, where a value has to have been returned. -/
theorem close_settles (valid : f.returns ≠ .invalid) {outer : Scope} {bindings : List Binding}
    {last : CheckState} (ordered : outer.IsOrdered) (sound : SoundScope last.scope)
    (declares : Declares bindings outer.openBlock last.scope) :
    Settles (if f.context.needsValue && !last.returnsValue then
        Checker.report f.name.pos (.neverReturns f.name.text f.returns) >>= fun _ => closeBlock
      else closeBlock) last (f.returns = .void ∨ last.returnsValue = true) fun _ after =>
        SoundScope after.scope ∧ Declares [] outer after.scope := by
  have lacking_iff : (f.context.needsValue && !last.returnsValue) = true ↔
      ¬ (f.returns = .void ∨ last.returnsValue = true) := by
    rw [Bool.and_eq_true, FunctionContext.needsValue_iff valid, not_or]
    simp [FuncDecl.context]
  by_cases lacking : (f.context.needsValue && !last.returnsValue) = true
  · rw [if_pos lacking]
    apply (Settles.never _).congr
    · exact iff_of_false (lacking_iff.mp lacking) not_false
    · rw [isSilent_bind_iff]
      exact fun silent => List.cons_ne_nil _ _ silent.1
  · rw [if_neg lacking]
    apply ((Settles.closeBlock ordered sound declares).congr _).mono
    · exact fun _ _ _ both => ⟨both.1, both.2.1⟩
    · rw [lacking_iff, Decidable.not_not] at lacking
      exact iff_of_true lacking trivial

/-- The inside of a function, where the function is known already. -/
theorem checkBody_settles (grammatical : f.Grammatical) (env : Env) (state : CheckState)
    (sound : SoundScope state.scope) (known : envOf state.scope = env.enter f) :
    Settles f.checkBody state (f.Valid env ∧ ∀ v ∈ Stmt.allVarDecls f.body, v.LeavesEmpty)
      fun _ after => SoundScope after.scope ∧ Declares [] state.scope after.scope := by
  have valid := grammatical.returns_ne_invalid
  have opened : Fresh state.scope.openBlock ((f.params.params.map Param.binding ++
      Stmt.allBindings f.body).map Binding.name) ↔ Binding.AreDistinct _ :=
    fresh_openBlock_iff sound.ordered
  rw [List.map_append] at opened
  apply Settles.openBlock.bind (fun _ => trivial)
  rintro _ _ _ rfl
  have params := declareParams_settles grammatical.params
    ⟨state.scope.openBlock, state.returnsValue⟩ sound.openBlock rfl
  apply params.bind (fun rules => (opened.mpr rules.1.distinct).left)
  rintro _ inner fresh ⟨soundInner, declares⟩
  -- the body is judged behind the parameters
  have inside : envOf inner.scope = (env.enter f).declare (f.params.params.map Param.binding) :=
    known ▸ declares.envOf_eq
  have split : Fresh state.scope.openBlock (_ ++ (Stmt.allBindings f.body).map Binding.name) ↔ _ :=
    declares.takes.fresh_append_iff
  have reset : Settles (setReturnsValue false) inner True fun _ after =>
      after = ⟨inner.scope, false⟩ := ⟨iff_of_true rfl trivial, fun _ => rfl⟩
  apply reset.bind (fun _ => trivial)
  rintro _ _ _ rfl
  have body := f.context.checkStmts_enforces valid f.body grammatical.body ⟨inner.scope, false⟩
    soundInner
  rw [inside] at body
  apply body.bind
  · rintro ⟨rules, nonempty⟩
    exact ⟨(split.mp (opened.mpr rules.distinct)).2, rules.body, nonempty⟩
  · rintro _ last ⟨freshBody, validBody, nonempty⟩ ⟨soundLast, declaresBody, flag⟩
    -- what is left to be judged is whether a value is returned
    have same : (f.Valid env ∧ ∀ v ∈ Stmt.allVarDecls f.body, v.LeavesEmpty) ↔
        f.returns = .void ∨ last.returnsValue = true := by
      rw [flag, Bool.false_or, Stmt.anyReturnsValue_iff]
      constructor
      · exact fun rules => rules.1.returns
      · intro returned
        have distinct := opened.mp (split.mpr ⟨fresh, freshBody⟩)
        exact ⟨⟨distinct, validBody, returned⟩, nonempty⟩
    have closed := close_settles valid sound.ordered soundLast (declares.trans declaresBody)
    exact (closed.congr same).of_run_eq rfl

end FuncDecl

/-- At the top level a name is free if it is no variable and no function. -/
theorem isFree_global_iff {scope : Scope} (ordered : scope.IsOrdered)
    (isGlobal : scope.isGlobal = true) (name : String) :
    IsFree scope name ↔ scope.var? name = none ∧ scope.func? name = none := by
  have level : scope.level = 0 := by simpa [SymbolTable.isGlobal] using isGlobal
  have here : scope.isDeclaredHere name = false ↔ scope.var? name = none := by
    unfold SymbolTable.isDeclaredHere SymbolTable.var?
    rw [List.any_eq_false, List.find?_eq_none]
    apply forall₂_congr
    intro symbol member
    have outer := ordered.levels symbol member
    have same : symbol.level = scope.level := by omega
    simp [same]
  unfold IsFree
  rw [here, isGlobal]
  exact and_congr_right fun _ => ⟨fun none => none rfl, fun none _ => none⟩

/-- What a declaration at the top level leaves behind. -/
structure Enters (decl : Decl) (before after : Scope) : Prop where
  sound : SoundScope after
  isGlobal : after.isGlobal = true
  env : envOf after = decl.extend (envOf before)
  takes : Takes decl.names before after

/-- The scope behind the name of a function. -/
def entered (f : FuncDecl) (number : Nat) (scope : Scope) : Scope :=
  { scope with funcs := (f.name.text, ⟨number, f⟩) :: scope.funcs }

theorem enter?_eq (f : FuncDecl) (number : Nat) (scope : Scope) :
    f.enter? number scope =
      if scope.var? f.name.text = none ∧ scope.func? f.name.text = none then
        some (entered f number scope)
      else none := by
  unfold FuncDecl.enter? SymbolTable.addFunc
  cases scope.var? f.name.text with
  | some symbol => simp
  | none =>
    cases scope.func? f.name.text with
    | some known => simp
    | none => simp [entered]

theorem entered_takes {f : FuncDecl} {number : Nat} {scope : Scope} (ordered : scope.IsOrdered)
    (orderedNext : (entered f number scope).IsOrdered) (isGlobal : scope.isGlobal = true) :
    Takes [f.name.text] scope (entered f number scope) := by
  intro name
  have vars : (entered f number scope).var? name = scope.var? name := rfl
  have funcs : (entered f number scope).func? name = none ↔
      scope.func? name = none ∧ name ∉ [f.name.text] := by
    unfold entered SymbolTable.func?
    rw [List.lookup_cons, List.mem_singleton]
    by_cases same : name = f.name.text
    · simp [same]
    · have differs : (name == f.name.text) = false := by simpa using same
      simp [differs, same]
  rw [isFree_global_iff ordered isGlobal, isFree_global_iff orderedNext isGlobal, vars, funcs,
    and_assoc]

/-- The function itself is known inside, and stays known. -/
theorem FuncDecl.check_settles {f : FuncDecl} (grammatical : f.Grammatical) (pos : Position)
    (number : Nat) {state : CheckState} (sound : SoundScope state.scope)
    (isGlobal : state.scope.isGlobal = true) :
    Settles (f.check number) state
      (Fresh state.scope [f.name.text] ∧ f.Valid (envOf state.scope) ∧
        ∀ v ∈ Stmt.allVarDecls f.body, v.LeavesEmpty)
      fun _ after => Enters (.func pos f) state.scope after.scope := by
  have free := isFree_global_iff sound.ordered isGlobal f.name.text
  apply Settles.of_run_eq _ (f.run_check number state)
  have isEntered := enter?_eq f number state.scope
  by_cases isFree : IsFree state.scope f.name.text
  · rw [if_pos (free.mp isFree)] at isEntered
    have soundNext := sound.enter grammatical.returns_ne_invalid isEntered
    rw [isEntered]
    have known : Settles (setScope (entered f number state.scope)
        [.checkFunction f.name.text f.returns f.params.params.length]) state True fun _ after =>
          after = ⟨entered f number state.scope, state.returnsValue⟩ :=
      ⟨iff_of_true rfl trivial, fun _ => rfl⟩
    apply known.bind (fun _ => trivial)
    rintro _ _ _ rfl
    have body := checkBody_settles grammatical (envOf state.scope)
      ⟨entered f number state.scope, state.returnsValue⟩ soundNext rfl
    apply (body.congr _).mono
    · rintro _ last _ ⟨soundLast, restored⟩
      constructor
      · exact soundLast
      · unfold SymbolTable.isGlobal
        rw [restored.level]
        exact isGlobal
      · exact restored.envOf_eq
      · intro name
        rw [restored.takes name, entered_takes sound.ordered soundNext.ordered isGlobal name]
        exact and_iff_left List.not_mem_nil
    · exact and_iff_right (fresh_singleton_iff.mpr isFree)
  · rw [if_neg (fun both => isFree (free.mpr both))] at isEntered
    rw [isEntered]
    apply (Settles.report _ _).congr
    apply iff_of_false _ not_false
    exact fun rules => isFree (fresh_singleton_iff.mp rules.1)

/-- One declaration at the top level. -/
theorem Decl.check_settles {decl : Decl} (grammatical : decl.Grammatical) (number : Nat)
    {state : CheckState} (sound : SoundScope state.scope)
    (isGlobal : state.scope.isGlobal = true) :
    Settles (decl.check number) state
      (Fresh state.scope decl.names ∧ decl.Valid (envOf state.scope) ∧
        ∀ v ∈ decl.varDecls, v.LeavesEmpty)
      fun _ after => Enters decl state.scope after.scope := by
  cases decl with
  | bad pos => exact grammatical.elim
  | func pos f => exact FuncDecl.check_settles grammatical pos number sound isGlobal
  | vars pos v =>
    apply ((VarDecl.check_enforces grammatical state sound).congr _).mono
    · rintro _ last _ ⟨soundLast, declares, _⟩
      constructor
      · exact soundLast
      · unfold SymbolTable.isGlobal
        rw [declares.level]
        exact isGlobal
      · exact declares.envOf_eq
      · exact declares.takes
    · simp [Decl.names, Decl.Valid, Decl.varDecls]

/-- The declarations of a file, one after the other. -/
theorem checkDecls_settles {decls : List Decl} (grammatical : ∀ decl ∈ decls, decl.Grammatical)
    (number : Nat) (state : CheckState) (sound : SoundScope state.scope)
    (isGlobal : state.scope.isGlobal = true) :
    Settles (File.checkDecls number decls) state
      (Fresh state.scope (decls.flatMap Decl.names) ∧ Decl.AllValid (envOf state.scope) decls ∧
        ∀ v ∈ decls.flatMap Decl.varDecls, v.LeavesEmpty)
      fun _ after => envOf after.scope = decls.foldl Decl.extend (envOf state.scope) := by
  induction decls generalizing number state with
  | nil =>
    apply Settles.congr (Settles.pure (a := ()) rfl)
    simp [Decl.AllValid, fresh_nil]
  | cons decl rest ih =>
    obtain ⟨good, later⟩ := List.forall_mem_cons.mp grammatical
    rw [List.flatMap_cons, List.flatMap_cons, Decl.AllValid, List.forall_mem_append]
    apply (Decl.check_settles good number sound isGlobal).bind
    · rintro ⟨fresh, ⟨valid, _⟩, nonempty, _⟩
      exact ⟨fresh.left, valid, nonempty⟩
    · rintro _ after ⟨fresh, valid, nonempty⟩ enters
      have settles := ih later (number + 1) after enters.sound enters.isGlobal
      rw [enters.env] at settles
      apply settles.congr
      rw [enters.takes.fresh_append_iff]
      constructor
      · rintro ⟨⟨_, freshLater⟩, ⟨_, validLater⟩, _, nonemptyLater⟩
        exact ⟨freshLater, validLater, nonemptyLater⟩
      · rintro ⟨freshLater, validLater, nonemptyLater⟩
        exact ⟨⟨fresh, freshLater⟩, ⟨valid, validLater⟩, nonempty, nonemptyLater⟩

/-- The functions that are known behind some declarations. -/
theorem lookup_extend_isSome_iff (decls : List Decl) (env : Env) (name : String) :
    ((decls.foldl Decl.extend env).funcs.lookup name).isSome = true ↔
      (env.funcs.lookup name).isSome = true ∨
        ∃ f ∈ decls.filterMap Decl.func?, f.name.text = name := by
  induction decls generalizing env with
  | nil => simp
  | cons decl rest ih =>
    rw [List.foldl_cons, ih]
    cases decl with
    | func pos f =>
      by_cases same : name = f.name.text
      · simp [Decl.extend, Env.enter, Decl.func?, same]
      · have differs : (name == f.name.text) = false := by simpa using same
        simp [Decl.extend, Env.enter, Decl.func?, List.lookup_cons, differs, Ne.symm same]
    | _ => simp [Decl.extend, Env.declare, Decl.func?]

namespace File

variable {file : File}

theorem Grammatical.badCount (grammatical : file.Grammatical) : file.badCount = 0 := by
  unfold File.badCount
  rw [List.countP_eq_zero]
  intro decl member isBad
  cases decl with
  | bad pos => exact grammatical _ member
  | _ => simp [Decl.isBad] at isBad

theorem checkMain_settles (grammatical : file.Grammatical) {state : CheckState}
    (known : envOf state.scope = file.decls.foldl Decl.extend .empty) :
    Settles file.checkMain state (∃ f ∈ file.funcs, f.name.text = "main") fun _ _ => True := by
  have isKnown : (state.scope.func? "main").isSome = true ↔
      ∃ f ∈ file.funcs, f.name.text = "main" := by
    have shown := envOf_lookup state.scope "main"
    rw [known] at shown
    rw [← Option.isSome_map (f := KnownFunction.decl), ← shown, lookup_extend_isSome_iff]
    simp [Env.empty, File.funcs]
  have missing : Settles (if (state.scope.func? "main").isNone && file.badCount = 0 then
      Checker.report .unknown (.missingMain file.name) else Pure.pure ()) state _ fun _ _ => True :=
    Settles.reportIf _ _ _ trivial
  have run : file.checkMain.run state =
      Checker.run (if (state.scope.func? "main").isNone && file.badCount = 0 then
        Checker.report .unknown (.missingMain file.name) else Pure.pure ()) state := rfl
  apply (missing.congr _).of_run_eq run
  rw [← isKnown, grammatical.badCount]
  simp [Option.isSome_iff_ne_none]

/-- A file is checked without a problem just when it keeps all rules. -/
theorem check_settles (grammatical : file.Grammatical) :
    Settles file.check .start (file.Valid ∧ ∀ v ∈ file.varDecls, v.LeavesEmpty)
      fun _ _ => True := by
  have empty : Fresh .empty (file.decls.flatMap Decl.names) ↔
      (file.decls.flatMap Decl.names).Nodup := by
    constructor
    · exact Fresh.distinct
    · exact fun distinct => ⟨distinct, fun name _ => ⟨rfl, fun _ => rfl⟩⟩
  have decls := checkDecls_settles grammatical 0 .start .empty rfl
  apply decls.bind
  · rintro ⟨rules, nonempty⟩
    exact ⟨empty.mpr rules.distinct, rules.decls, nonempty⟩
  · rintro _ after ⟨fresh, valid, nonempty⟩ known
    have main := checkMain_settles grammatical known
    apply main.bind
    · exact fun both => both.1.main
    · intro _ last isMain _
      have rules : file.Valid := ⟨isMain, fresh.distinct, valid⟩
      exact ⟨iff_of_true rfl ⟨rules, nonempty⟩, fun _ => trivial⟩

end File

end MiniC
