import MiniC.Check.Basic
import MiniC.Proofs.Check.Decides
import MiniC.Proofs.Parser.Quiet

/-!
What a check comes to, from a state: under which condition it reports nothing,
and what it leaves behind if it does not. A problem met earlier stays in the
log, so a sequence of checks is silent just when all of them are.
-/

namespace MiniC.Checker

variable {α β : Type} {state : CheckState} {C D : Prop} {post : α → CheckState → Prop}

def IsSilent (c : Checker α) (state : CheckState) : Prop := (c.run state).log.raised = []

theorem isSilent_bind_iff {c : Checker α} {f : α → Checker β} :
    IsSilent (c >>= f) state ↔
      c.IsSilent state ∧ (f (c.run state).value).IsSilent (c.run state).state := by
  change Log.raised (_ ++ _) = [] ↔ _
  rw [Log.raised_append, List.append_eq_nil_iff]
  rfl

theorem isSilent_judge_iff {look : Scope → Verdict α} :
    (judge look).IsSilent state ↔ (look state.scope).IsSilent := by
  have same : (((judge look).run state).log).raised = (look state.scope).problems := by
    exact Log.raised_problems (look state.scope).problems
  exact Iff.of_eq (congrArg (· = []) same)

/-- From `state`, the check is silent under `C`, and then leaves what `post`
says. -/
structure Settles (c : Checker α) (state : CheckState) (C : Prop)
    (post : α → CheckState → Prop) : Prop where
  isSilent_iff : c.IsSilent state ↔ C
  leaves : C → post (c.run state).value (c.run state).state

namespace Settles

theorem pure {a : α} (holds : post a state) : Settles (pure a) state True post where
  isSilent_iff := iff_of_true rfl trivial
  leaves _ := holds

theorem report (pos : Position) (problem : Problem) {post : Unit → CheckState → Prop} :
    Settles (report pos problem) state False post where
  isSilent_iff := iff_of_false (List.cons_ne_nil _ _) not_false
  leaves := False.elim

theorem judge {look : Scope → Verdict α} (silent : (look state.scope).IsSilent ↔ C)
    (holds : C → post (look state.scope).value state) : Settles (judge look) state C post where
  isSilent_iff := isSilent_judge_iff.trans silent
  leaves := holds

/-- A check and what comes behind it. The condition on both is judged again
where the first is silent. -/
theorem bind {c : Checker α} {f : α → Checker β} {later : β → CheckState → Prop}
    (first : Settles c state C post) (requires : D → C)
    (next : ∀ a after, C → post a after → Settles (f a) after D later) :
    Settles (c >>= f) state D later := by
  constructor
  · rw [isSilent_bind_iff, first.isSilent_iff]
    constructor
    · rintro ⟨holds, silent⟩
      exact (next _ _ holds (first.leaves holds)).isSilent_iff.mp silent
    · intro both
      have holds := requires both
      exact ⟨holds, (next _ _ holds (first.leaves holds)).isSilent_iff.mpr both⟩
  · intro both
    have holds := requires both
    exact (next _ _ holds (first.leaves holds)).leaves both

theorem congr {c : Checker α} (settles : Settles c state C post) (same : D ↔ C) :
    Settles c state D post where
  isSilent_iff := settles.isSilent_iff.trans same.symm
  leaves holds := settles.leaves (same.mp holds)

theorem mono {c : Checker α} {later : α → CheckState → Prop} (settles : Settles c state C post)
    (implies : ∀ a after, C → post a after → later a after) : Settles c state C later where
  isSilent_iff := settles.isSilent_iff
  leaves holds := implies _ _ holds (settles.leaves holds)

theorem of_run_eq {c d : Checker α} (settles : Settles d state C post)
    (same : c.run state = d.run state) : Settles c state C post := by
  constructor
  · unfold IsSilent
    rw [same]
    exact settles.isSilent_iff
  · rw [same]
    exact settles.leaves

/-- A check that reports whatever comes after it. -/
theorem never {c : Checker α} (reported : ¬ c.IsSilent state) : Settles c state False post where
  isSilent_iff := iff_of_false reported not_false
  leaves := False.elim

/-- A problem that is reported under a condition on what was met so far. -/
theorem reportIf (p : Prop) [Decidable p] (pos : Position) (problem : Problem)
    {post : Unit → CheckState → Prop} (holds : post () state) :
    Settles (if p then Checker.report pos problem else Pure.pure ()) state (¬ p) post := by
  by_cases isProblem : p
  · rw [if_pos isProblem]
    exact (report pos problem).congr (iff_of_false (not_not_intro isProblem) not_false)
  · rw [if_neg isProblem]
    exact (pure holds).congr (iff_of_true isProblem trivial)

end Settles

end MiniC.Checker
