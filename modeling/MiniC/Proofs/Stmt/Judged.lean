import MiniC.Proofs.Expr.Filled
import MiniC.Proofs.Scope.Declares

/-!
The parts of statements that are judged in one scope, against the rules for
them. Each verdict is silent just when its rule holds in the environment of the
scope; that some expression has no type is never passed over, since such an
expression is reported itself.
-/

namespace MiniC

open Verdict

theorem Ty.eq_string_of_isText {view : View} {e : Expr} {ty : Ty} (isText : e.isText = true)
    (typed : HasType view e ty) : ty = .string := by
  cases typed <;> simp_all [Expr.isText]

namespace Expr

theorem Grammatical.unparen {e : Expr} (grammatical : e.Grammatical) : e.unparen.Grammatical := by
  fun_induction Expr.unparen e with
  | case1 pos inner ih => exact ih grammatical
  | case2 e => exact grammatical

/-- A text is of no basic type. -/
theorem not_isBasic_of_isText {env : Env} {e : Expr} (isText : e.isText = true) :
    ¬ e.IsBasic env := by
  rintro ⟨ty, basic, typed⟩
  rw [Ty.eq_string_of_isText isText typed] at basic
  simp [Ty.isBasic] at basic

end Expr

section Judged

variable {scope : Scope} (sound : SoundScope scope)

include sound

theorem decides_env {e : Expr} (grammatical : e.Grammatical) :
    (e.type scope).Decides (HasType (envOf scope).view e) :=
  type_decides sound.shows_env (Expr.Grammatical.noBad e grammatical)

theorem Expr.check_isSilent_iff {e : Expr} (grammatical : e.Grammatical) :
    (e.check scope).IsSilent ↔ e.IsTyped (envOf scope) := by
  unfold Expr.check
  rw [isSilent_discard_iff]
  exact (decides_env sound grammatical).isSilent_iff

theorem Expr.checkCondition_isSilent_iff {cond : Expr} (grammatical : cond.Grammatical) :
    (cond.checkCondition scope).IsSilent ↔ cond.IsComparison (envOf scope) := by
  have good := grammatical.unparen
  unfold Expr.checkCondition Expr.IsComparison
  generalize cond.unparen = inner at good
  cases inner with
  | bad => exact good.elim
  | binary pos op left right =>
    obtain ⟨_, _, goodLeft, goodRight⟩ := good
    dsimp only
    by_cases relational : op.isRelational = true
    · rw [if_pos relational, visit_eq, visit_eq, isSilent_bind_iff,
        Expr.check_isSilent_iff sound goodLeft, Expr.check_isSilent_iff sound goodRight]
      constructor
      · rintro ⟨typedLeft, typedRight⟩
        exact ⟨pos, op, left, right, rfl, relational, typedLeft, typedRight⟩
      · rintro ⟨_, _, _, _, same, _, typedLeft, typedRight⟩
        cases same
        exact ⟨typedLeft, typedRight⟩
    · rw [if_neg relational]
      apply iff_of_false
      · exact fun silent => not_isSilent_report _ _ (isSilent_bind_iff.mp silent).2
      · rintro ⟨_, _, _, _, same, isRelational, _⟩
        cases same
        exact relational isRelational
  | _ =>
    apply iff_of_false
    · exact fun silent => not_isSilent_report _ _ (isSilent_bind_iff.mp silent).2
    · rintro ⟨_, _, _, _, same, _⟩
      cases same

omit sound in
theorem isConstName_iff {name : String} :
    isConstName scope name = true ↔
      ∃ binding, (envOf scope).var? name = some binding ∧ binding.isConst = true := by
  unfold isConstName
  rw [envOf_var?]
  cases scope.var? name <;> simp [Symbol.binding]

/-- A name stands for a variable that may be written. -/
theorem checkTargetName_isSilent_iff (pos : Position) (name : String) :
    (checkTargetName scope pos name).IsSilent ↔ (envOf scope).IsWritable name := by
  unfold checkTargetName Env.IsWritable
  rw [envOf_var?]
  cases found : scope.var? name with
  | none =>
    rw [Expr.check_isSilent_iff sound (e := .ident pos name) (by simp [Expr.Grammatical])]
    apply iff_of_false
    · rintro ⟨ty, typed⟩
      obtain ⟨symbol, isVar, _⟩ :=
        (sound.shows_env.var name ty).mp (HasType.ident_iff.mp typed)
      simp [found] at isVar
    · simp
  | some symbol =>
    dsimp only
    by_cases isConst : symbol.isConst = true
    · rw [if_pos isConst]
      apply iff_of_false (not_isSilent_report _ _)
      simp [Symbol.binding, isConst]
    · rw [if_neg isConst, visit_eq, lift_self, isSilent_reportIf_iff]
      simp [Symbol.binding, isConst]

/-- What is said of writing to an element, once its type is known. -/
def checkWritten (scope : Scope) (ty : Ty) (e : Expr) : Verdict Unit :=
  match e.indexBase with
  | .ident _ name =>
    if !ty.isInvalid && isConstName scope name then report e.pos (.assignToConstElement name)
    else pure ()
  | _ => pure ()

/-- An element of an array may be written unless the array is const. -/
theorem checkElement_isSilent_iff {pos : Position} {base subscript : Expr}
    (grammatical : (Expr.index pos base subscript).Grammatical) :
    (checkTarget scope (.index pos base subscript)).IsSilent ↔
      (Expr.index pos base subscript).IsTarget (envOf scope) := by
  have decides := decides_env sound grammatical
  unfold checkTarget Expr.IsTarget Expr.IsTyped
  rw [decides.isSilent_bind_iff]
  have written (ty : Ty) (typed : HasType (envOf scope).view (.index pos base subscript) ty) :
      IsSilent (checkWritten scope ty (.index pos base subscript)) ↔
      ∃ place name binding, base.indexBase = .ident place name ∧
        (envOf scope).var? name = some binding ∧ binding.isConst = false := by
    obtain ⟨place, name, array, isName, ⟨binding, isVar, _⟩, _⟩ := HasType.index_iff.mp typed
    have valid := decides.isInvalid_eq_false typed
    unfold checkWritten
    rw [Expr.indexBase, isName]
    dsimp only
    rw [isSilent_reportIf_iff, valid, Bool.not_false, Bool.true_and, isConstName_iff, isVar]
    constructor
    · intro notConst
      refine ⟨place, name, binding, rfl, isVar, ?_⟩
      rw [← Bool.not_eq_true]
      exact fun isConst => notConst ⟨binding, rfl, isConst⟩
    · rintro ⟨_, _, other, same, isOther, writable⟩ ⟨found, isFound, isConst⟩
      cases same
      rw [isVar, Option.some.injEq] at isOther
      rw [Option.some.injEq] at isFound
      rw [← isFound, isOther, writable] at isConst
      cases isConst
  constructor
  · rintro ⟨ty, typed, silent⟩
    exact ⟨⟨ty, typed⟩, (written ty typed).mp silent⟩
  · rintro ⟨⟨ty, typed⟩, writable⟩
    exact ⟨ty, typed, (written ty typed).mpr writable⟩

theorem checkTarget_isSilent_iff {target : Expr} (grammatical : target.Grammatical) :
    (checkTarget scope target).IsSilent ↔ target.IsTarget (envOf scope) := by
  cases target with
  | ident pos name => exact checkTargetName_isSilent_iff sound pos name
  | index pos base subscript => exact checkElement_isSilent_iff sound grammatical
  | _ =>
    apply iff_of_false
    · exact fun silent => not_isSilent_report _ _ (isSilent_bind_iff.mp silent).2
    · exact id

theorem Simple.check_isSilent_iff {s : Simple} (grammatical : s.Grammatical) :
    (s.check scope).IsSilent ↔ s.Valid (envOf scope) := by
  cases s with
  | expr pos e => exact Expr.check_isSilent_iff sound grammatical
  | assign pos target value =>
    obtain ⟨goodTarget, goodValue⟩ := grammatical
    unfold Simple.check Simple.Valid
    rw [isSilent_bind_iff, checkTarget_isSilent_iff sound goodTarget,
      Expr.check_isSilent_iff sound goodValue]

theorem Simple.checkCondition_isSilent_iff {s : Simple} (grammatical : s.Grammatical) :
    (s.checkCondition scope).IsSilent ↔ s.IsComparison (envOf scope) := by
  cases s with
  | expr pos e => exact Expr.checkCondition_isSilent_iff sound grammatical
  | assign pos target value =>
    apply iff_of_false
    · exact fun silent => not_isSilent_report _ _ (isSilent_bind_iff.mp silent).2
    · exact id

theorem checkScan_isSilent_iff {target : Expr} (grammatical : target.Grammatical) :
    (checkScan target scope).IsSilent ↔
      ∃ pos name, target = .ident pos name ∧ (envOf scope).IsWritable name := by
  cases target with
  | ident pos name =>
    have decides := decides_env sound grammatical
    have same : (∃ place other, Expr.ident pos name = .ident place other ∧
        (envOf scope).IsWritable other) ↔ (envOf scope).IsWritable name := by
      constructor
      · rintro ⟨_, _, same, writable⟩
        cases same
        exact writable
      · exact fun writable => ⟨pos, name, rfl, writable⟩
    unfold checkScan
    rw [same, decides.isSilent_bind_iff]
    constructor
    · rintro ⟨ty, typed, silent⟩
      obtain ⟨binding, isVar, rfl⟩ := HasType.ident_iff.mp typed
      have valid := decides.isInvalid_eq_false typed
      rw [valid, Bool.not_false, if_pos rfl] at silent
      by_cases isArray : binding.ty.isArray = true
      · rw [if_pos isArray] at silent
        exact (not_isSilent_report _ _ silent).elim
      · rw [if_neg isArray, lift_self, isSilent_reportIf_iff, isConstName_iff] at silent
        refine ⟨binding, isVar, ?_, Bool.not_eq_true _ ▸ isArray⟩
        rw [← Bool.not_eq_true]
        exact fun isConst => silent ⟨binding, isVar, isConst⟩
    · rintro ⟨binding, isVar, writable, flat⟩
      have typed : HasType (envOf scope).view (.ident pos name) binding.ty :=
        HasType.ident_iff.mpr ⟨binding, isVar, rfl⟩
      have valid := decides.isInvalid_eq_false typed
      refine ⟨binding.ty, typed, ?_⟩
      rw [valid, Bool.not_false, if_pos rfl, flat, if_neg Bool.false_ne_true, lift_self,
        isSilent_reportIf_iff, isConstName_iff, isVar]
      rintro ⟨found, isFound, isConst⟩
      rw [Option.some.injEq] at isFound
      rw [← isFound, writable] at isConst
      cases isConst
  | _ =>
    apply iff_of_false
    · exact fun silent => not_isSilent_report _ _ (isSilent_bind_iff.mp silent).2
    · rintro ⟨_, _, same, _⟩
      cases same

/-- A text may be printed first, and a value alone or behind it. -/
theorem checkPrinted_isSilent_iff {arg : Expr} (grammatical : arg.Grammatical)
    (count index : Nat) :
    (checkPrinted scope count index arg).IsSilent ↔
      (arg.isText = true ∧ arg.IsTyped (envOf scope) ∧ index = 0) ∨
        (¬ (index = 0 ∧ count = 2) ∧ arg.IsBasic (envOf scope)) := by
  have value : IsSilent (do
      if index = 0 && count = 2 then report arg.pos .printWithoutFormat
      let found ← arg.type scope
      if !found.isInvalid && !found.isBasic then report arg.pos (.printValue found)) ↔
        ¬ (index = 0 ∧ count = 2) ∧ arg.IsBasic (envOf scope) := by
    dsimp only
    rw [isSilent_reportIf_bind_iff, (decides_env sound grammatical).isSilent_unless_iff]
    simp [Expr.IsBasic, and_comm]
  by_cases isText : arg.isText = true
  · have notBasic : ¬ arg.IsBasic (envOf scope) := Expr.not_isBasic_of_isText isText
    cases arg with
    | lit pos kind text =>
      cases kind with
      | string =>
        have decides := literal_decides (envOf scope).view pos .string text
        simp only [checkPrinted, visit_eq, lift_self]
        rw [isSilent_bind_iff, isSilent_discard_iff, decides.isSilent_iff, isSilent_reportIf_iff]
        simp [Expr.IsTyped, Expr.isText, notBasic]
      | _ => simp [Expr.isText] at isText
    | _ => simp [Expr.isText] at isText
  · have plain : (checkPrinted scope count index arg).IsSilent ↔
        ¬ (index = 0 ∧ count = 2) ∧ arg.IsBasic (envOf scope) := by
      unfold checkPrinted
      split
      · simp [Expr.isText] at isText
      · exact value
    rw [plain]
    simp [isText]

theorem checkPrint_isSilent_iff {args : List Expr} (grammatical : ∀ e ∈ args, e.Grammatical)
    (pos : Position) :
    (checkPrint pos args scope).IsSilent ↔ Expr.ArePrintable (envOf scope) args := by
  simp only [checkPrint, lift_self]
  rw [isSilent_reportIf_bind_iff]
  match args with
  | [] => simp [Expr.ArePrintable]
  | [e] =>
    have good := grammatical e (List.mem_singleton_self e)
    simp [checkPrintedFrom, isSilent_bind_iff, isSilent_pure, Expr.ArePrintable,
      checkPrinted_isSilent_iff sound good]
  | [format, e] =>
    obtain ⟨goodFormat, later⟩ := List.forall_mem_cons.mp grammatical
    have good := later e (List.mem_singleton_self e)
    simp [checkPrintedFrom, isSilent_bind_iff, isSilent_pure, Expr.ArePrintable,
      checkPrinted_isSilent_iff sound goodFormat, checkPrinted_isSilent_iff sound good]
  | _ :: _ :: _ :: _ => simp [Expr.ArePrintable]

theorem checkSubject_decides {subject : Expr} (grammatical : subject.Grammatical) :
    (checkSubject subject scope).Decides fun ty =>
      ty.isBasic = true ∧ HasType (envOf scope).view subject ty := by
  have decides := decides_env sound grammatical
  unfold checkSubject
  apply (decides.bind fun found typed => Decides.reportIf <|
    decides_of_silent found (isSilent_pure found) rfl (decides.ne_invalid typed)
      (P := (· = found)) fun _ => Iff.rfl).congr
  intro ty
  constructor
  · rintro ⟨basic, typed⟩
    exact ⟨ty, typed, by simp [basic], rfl⟩
  · rintro ⟨found, typed, allowed, rfl⟩
    have valid := decides.isInvalid_eq_false typed
    exact ⟨by simpa [valid] using allowed, typed⟩

theorem checkLabel_isSilent_iff {label : Expr} (grammatical : label.Grammatical) {subject : Ty}
    (basic : subject.isBasic = true) :
    (checkLabel subject label scope).IsSilent ↔ HasType (envOf scope).view label subject := by
  unfold checkLabel
  simp only [basic, Bool.and_true]
  exact (decides_env sound grammatical).isSilent_expect_iff

theorem checkReturned_isSilent_iff (context : FunctionContext) {value : Expr}
    (grammatical : value.Grammatical) (valid : context.returns ≠ .invalid) :
    (context.checkReturned value scope).IsSilent ↔
      HasType (envOf scope).view value context.returns := by
  have notInvalid := Ty.isInvalid_eq_false valid
  unfold FunctionContext.checkReturned
  simp only [notInvalid, Bool.not_false, Bool.and_true]
  exact (decides_env sound grammatical).isSilent_expect_iff

end Judged

end MiniC
