import MiniC.Proofs.Expr.Reports
import MiniC.Proofs.Syntax.Shaped
import MiniC.Stmt.Check

/-!
What is reported by what is judged in one scope, and where. Nothing of it speaks
of returns, of defaults, or of a function as a whole.
-/

namespace MiniC

open Verdict (Reports)

variable {scope : Scope} {allowed : Position → Problem → Prop}

namespace Shape

theorem addElement_reports {sofar : Elements} {pos : Position} {found : Ty}
    (notBasic : found ≠ .invalid → allowed pos (.compositeElement found))
    (mixed : found ≠ .invalid → ∀ first, first ≠ found → allowed pos (.mixedElements first found)) :
    (addElement sofar pos found).Reports allowed := by
  have refused {problem : Problem} (isAllowed : allowed pos problem) : Reports allowed (do
      Verdict.report pos problem
      pure { sofar with areGood := false }) := by
    apply Reports.bind (Reports.report isAllowed)
    exact Reports.pure _
  apply Reports.ite
  · exact fun _ => Reports.pure _
  intro valid
  have typed := mt Ty.isInvalid_iff.mpr valid
  apply Reports.ite
  · exact fun _ => refused (notBasic typed)
  intro isBasic
  cases sofar.leaf with
  | none => exact Reports.pure _
  | some first =>
    apply Reports.ite
    · exact fun _ => Reports.pure _
    · exact fun differ => refused (mixed typed first differ)

theorem addElements_reports (sofar : Elements) {level : List Expr}
    (single : ∀ e ∈ level, e.items? = none) (rooted : Expr.AllRooted level) :
    (addElements scope sofar level).Reports (Voiced (Expr.itemSitesOfAll level)) := by
  induction level generalizing sofar with
  | nil => exact .pure _
  | cons e rest ih =>
    obtain ⟨isSingle, others⟩ := List.forall_mem_cons.mp single
    obtain ⟨onFirst, onRest⟩ := rooted
    rw [Expr.itemSitesOfAll, Expr.itemSites_of_single isSingle]
    have speaks (typed : (e.type scope).value ≠ .invalid) :
        Speaks (Voiced (e.sites false ++ Expr.itemSitesOfAll rest)) e.pos :=
      (Expr.type_speaks onFirst typed).before
    apply Reports.bind (Expr.type_reports onFirst).before
    apply Reports.bind
    · exact addElement_reports (fun typed => speaks typed _ rfl) fun typed _ _ => speaks typed _ rfl
    · exact (ih _ others onRest).behind

/-- A fault of shape is reported at the place of the literal, others at the elements. -/
theorem ofLevel_reports {sites : List Site} {pos : Position} (speaks : Speaks (Voiced sites) pos)
    (sizes : List Nat) {level : List Expr} (within : Expr.itemSitesOfAll level ⊆ sites)
    (rooted : Expr.AllRooted level) :
    (ofLevel scope pos sizes level).Reports (Voiced sites) := by
  fun_induction ofLevel scope pos sizes level with
  | case1 _ level single =>
    have isSingle := List.filterMap_eq_nil_iff.mp single
    apply Reports.bind ((addElements_reports ⟨none, true⟩ isSingle rooted).within within)
    split
    · exact Reports.pure _
    · exact Reports.pure _
  | case2 sizes level first others rows ih =>
    rw [← rows] at ih ⊢
    apply Reports.ite
    · exact fun _ => Reports.reject (speaks _ rfl)
    intro notMixed
    apply Reports.ite
    · exact fun _ => Reports.reject (speaks _ rfl)
    intro even
    apply Reports.ite
    · exact fun _ => Reports.reject (speaks _ rfl)
    · exact fun _ => ih (List.Subset.trans Expr.itemSites_below within) rooted.below

end Shape

section Expressions

variable {e : Expr} (rooted : e.IsRooted)

include rooted

theorem checkInit_reports (declared : Ty) :
    (checkInit declared e scope).Reports (Voiced (e.initialSites declared.isArray)) := by
  have literal {pos : Position} {items : List Expr} (onItems : Expr.AllRooted items) :
      (Expr.compositeType scope (.composite pos items)).Reports
        (Voiced ((Expr.composite pos items).itemSites)) := by
    have own : Expr.itemSitesOfAll [.composite pos items] = (Expr.composite pos items).itemSites :=
      List.append_nil _
    exact Shape.ofLevel_reports .first [] (own ▸ List.Subset.refl _) ⟨onItems, trivial⟩
  have spoken : (e.check scope).Reports (Voiced (e.sites true)) :=
    (Expr.check_reports rooted).spoken
  apply Reports.ite
  · intro isArray
    rw [isArray]
    cases e with
    | composite pos items =>
      apply Reports.bind (literal rooted)
      exact Reports.reportIf fun _ => Speaks.first _ rfl
    | _ =>
      apply Reports.bind spoken
      exact Reports.report (Expr.speaks_spoken rooted _ rfl)
  · intro isScalar
    rw [Bool.not_eq_true] at isScalar
    rw [isScalar]
    cases e with
    | composite pos items => exact Reports.report (Speaks.first _ rfl)
    | _ =>
      apply Reports.bind (Expr.type_reports rooted)
      exact Reports.reportIf fun found =>
        Expr.type_speaks rooted (Ty.ne_invalid_of_and found) _ rfl

theorem checkTarget_reports : (checkTarget scope e).Reports (Voiced e.targetSites) := by
  have spoken : (e.check scope).Reports (Voiced (e.sites true)) :=
    (Expr.check_reports rooted).spoken
  cases e with
  | ident pos name =>
    change (checkTargetName scope pos name).Reports _
    unfold checkTargetName
    split
    · exact spoken
    · apply Reports.ite
      · exact fun _ => Reports.report (Speaks.first _ rfl)
      · exact fun _ => Reports.reportIf fun _ => Speaks.first _ rfl
  | index =>
    apply Reports.bind (Expr.type_reports rooted)
    split
    · exact Reports.reportIf fun found =>
        Expr.type_speaks rooted (Ty.ne_invalid_of_and found) _ rfl
    · exact Reports.pure ()
  | _ =>
    apply Reports.bind spoken
    exact Reports.report (Expr.speaks_spoken rooted _ rfl)

theorem checkScan_reports : (checkScan e scope).Reports (Voiced (e.sites true)) := by
  cases e with
  | ident pos name =>
    apply Reports.bind (Expr.type_reports rooted).spoken
    apply Reports.ite
    · intro typed
      apply Reports.ite
      · exact fun _ => Reports.report (Speaks.first _ rfl)
      · exact fun _ => Reports.reportIf fun _ => Speaks.first _ rfl
    · exact fun _ => Reports.pure ()
  | _ =>
    apply Reports.bind (Expr.check_reports rooted).spoken
    exact Reports.report (Expr.speaks_spoken rooted _ rfl)

theorem checkPrinted_reports (count before : Nat) :
    (checkPrinted scope count before e).Reports (Voiced (e.sites (before = 0 && count = 2))) := by
  have value : Reports (Voiced (e.sites (before = 0 && count = 2))) (do
      let found ← e.type scope
      if !found.isInvalid && !found.isBasic then Verdict.report e.pos (.printValue found)) := by
    apply Reports.bind (Expr.type_reports rooted).spoken
    apply Reports.reportIf
    exact fun found => .spoken (Expr.type_speaks rooted (Ty.ne_invalid_of_and found) _ rfl)
  unfold checkPrinted
  split
  · next pos text =>
    have speaks : Speaks (Voiced ((Expr.lit pos .string text).sites (before = 0 && count = 2)))
        pos := .first
    have content := Literal.check_reports .string text (fun _ => speaks _ rfl)
      fun _ _ => speaks _ rfl
    apply Reports.bind (Reports.discard content)
    exact Reports.reportIf fun _ => speaks _ rfl
  · apply Reports.ite
    · intro first
      rw [first] at value ⊢
      apply Reports.bind (Reports.report (Expr.speaks_spoken rooted _ rfl))
      exact value
    · exact fun _ => value

theorem checkSubject_reports : (checkSubject e scope).Reports (Voiced (e.sites false)) := by
  apply Reports.bind (Expr.type_reports rooted)
  apply Reports.ite
  · intro found
    have speaks := Expr.type_speaks rooted (Ty.ne_invalid_of_and found)
    apply Reports.bind (Reports.report (speaks _ rfl))
    exact Reports.pure _
  · exact fun _ => Reports.pure _

theorem checkLabel_reports (subject : Ty) :
    (checkLabel subject e scope).Reports (Voiced (e.sites false)) := by
  apply Reports.bind (Expr.type_reports rooted)
  apply Reports.reportIf
  intro found
  rw [Bool.and_assoc] at found
  exact Expr.type_speaks rooted (Ty.ne_invalid_of_and found) _ rfl

theorem checkReturned_reports (context : FunctionContext) :
    (context.checkReturned e scope).Reports (Voiced (e.sites false)) := by
  apply Reports.bind (Expr.type_reports rooted)
  apply Reports.reportIf
  intro found
  rw [Bool.and_assoc] at found
  exact Expr.type_speaks rooted (Ty.ne_invalid_of_and found) _ rfl

end Expressions

theorem checkPrint_reports (pos : Position) {args : List Expr} (rooted : ∀ e ∈ args, e.IsRooted) :
    (checkPrint pos args scope).Reports
      (Voiced (⟨pos, .plain⟩ :: Expr.printedSites args.length 0 args)) := by
  have each (count before : Nat) : (checkPrintedFrom scope count before args).Reports
      (Voiced (Expr.printedSites count before args)) := by
    induction args generalizing before with
    | nil => exact Reports.pure ()
    | cons arg rest ih =>
      obtain ⟨onFirst, onRest⟩ := List.forall_mem_cons.mp rooted
      apply Reports.bind (checkPrinted_reports onFirst count before).before
      exact (ih onRest _).behind
  have all : (checkPrintedFrom scope args.length 0 args).Reports
      (Voiced (⟨pos, .plain⟩ :: Expr.printedSites args.length 0 args)) :=
    (each args.length 0).after
  apply Reports.ite
  · exact fun _ => Reports.bind (Reports.report (Speaks.first _ rfl)) all
  · exact fun _ => all

/-- Where something may be said of a target, it may be said of it as any expression. -/
theorem targetSites_spoken {e : Expr} {v : Verdict Unit} (reports : v.Reports (Voiced e.targetSites)) :
    v.Reports (Voiced (e.sites true)) := by
  cases e with
  | index pos base subscript => exact Reports.spoken reports
  | _ => exact reports

section Simple

variable {s : Simple} (shaped : s.IsShaped Expr.IsRooted)

include shaped

theorem Simple.check_reports : (s.check scope).Reports (Voiced s.sites) := by
  cases s with
  | expr pos e => exact Expr.check_reports shaped.2
  | assign pos target value =>
    obtain ⟨_, onTarget, onValue⟩ := shaped
    apply Reports.bind (checkTarget_reports onTarget).before
    exact (Expr.check_reports onValue).behind

theorem Simple.checkCondition_reports :
    (s.checkCondition scope).Reports (Voiced s.conditionSites) := by
  cases s with
  | expr pos e => exact Expr.checkCondition_reports shaped.2
  | assign pos target value =>
    obtain ⟨root, onTarget, onValue⟩ := shaped
    have onAssign : Reports (Voiced (target.sites true ++ value.sites false))
        (Simple.check scope (.assign pos target value)) := by
      apply Reports.bind (targetSites_spoken (checkTarget_reports onTarget)).before
      exact (Expr.check_reports onValue).behind
    apply Reports.bind onAssign
    exact Reports.report (root ▸ (Expr.speaks_spoken onTarget).before _ rfl)

end Simple

end MiniC
