import MiniC.Check.Basic

/-!
Verdicts that decide a question. A verdict is silent when it reports nothing,
and it decides which types something may have when it is silent just on the
only one of them. What has no type is reported, so the type that stands for
none is never found in silence.
-/

namespace MiniC

namespace Ty

theorem isInvalid_iff {ty : Ty} : ty.isInvalid = true ↔ ty = .invalid := by
  cases ty <;> simp [isInvalid]

theorem isInvalid_eq_false {ty : Ty} (valid : ty ≠ .invalid) : ty.isInvalid = false := by
  rwa [← Bool.not_eq_true, isInvalid_iff]

end Ty

namespace Verdict

variable {α β : Type}

def IsSilent (v : Verdict α) : Prop := v.problems = []

theorem isSilent_pure (a : α) : IsSilent (pure a) := rfl

theorem not_isSilent_report (pos : Position) (problem : Problem) :
    ¬ IsSilent (report pos problem) :=
  List.cons_ne_nil _ _

theorem not_isSilent_reject (pos : Position) (problem : Problem) :
    ¬ IsSilent (reject pos problem) :=
  List.cons_ne_nil _ _

theorem isSilent_bind_iff {v : Verdict α} {f : α → Verdict β} :
    IsSilent (v >>= f) ↔ v.IsSilent ∧ IsSilent (f v.value) :=
  List.append_eq_nil_iff

theorem value_bind {v : Verdict α} {f : α → Verdict β} : (v >>= f).value = (f v.value).value := rfl

theorem isSilent_discard_iff {v : Verdict α} : IsSilent (discard v) ↔ v.IsSilent := by
  change v.problems ++ [] = [] ↔ v.problems = []
  rw [List.append_nil]

/-- A problem that is reported only under a condition. -/
theorem isSilent_reportIf_iff {c : Prop} [Decidable c] {pos : Position} {problem : Problem} :
    IsSilent (if c then report pos problem else pure ()) ↔ ¬ c := by
  by_cases holds : c
  · rw [if_pos holds]
    exact iff_of_false (not_isSilent_report pos problem) (not_not_intro holds)
  · rw [if_neg holds]
    exact iff_of_true (isSilent_pure ()) holds

/-- A problem that is reported under a condition before the verdict goes on. -/
theorem isSilent_reportIf_bind_iff {c : Prop} [Decidable c] {pos : Position} {problem : Problem}
    {f : Unit → Verdict α} :
    IsSilent (if c then report pos problem >>= f else f ()) ↔ ¬ c ∧ (f ()).IsSilent := by
  by_cases holds : c
  · rw [if_pos holds, isSilent_bind_iff]
    exact iff_of_false (fun silent => not_isSilent_report _ _ silent.1) (fun both => both.1 holds)
  · rw [if_neg holds]
    exact (and_iff_right holds).symm

/-- The verdict finds the type for which `P` holds, and reports if there is
none. -/
structure Decides (v : Verdict Ty) (P : Ty → Prop) : Prop where
  found_iff (ty : Ty) : P ty ↔ v.IsSilent ∧ v.value = ty
  valid : ¬ P .invalid

namespace Decides

variable {v : Verdict Ty} {P : Ty → Prop}

theorem isSilent_iff (decides : v.Decides P) : v.IsSilent ↔ ∃ ty, P ty := by
  constructor
  · intro silent
    exact ⟨v.value, (decides.found_iff _).mpr ⟨silent, rfl⟩⟩
  · rintro ⟨ty, holds⟩
    exact ((decides.found_iff ty).mp holds).1

theorem value_eq (decides : v.Decides P) {ty : Ty} (holds : P ty) : v.value = ty :=
  ((decides.found_iff ty).mp holds).2

theorem ne_invalid (decides : v.Decides P) {ty : Ty} (holds : P ty) : ty ≠ .invalid := by
  rintro rfl
  exact decides.valid holds

theorem isInvalid_eq_false (decides : v.Decides P) {ty : Ty} (holds : P ty) :
    ty.isInvalid = false :=
  Ty.isInvalid_eq_false (decides.ne_invalid holds)

theorem not_isSilent (decides : v.Decides P) (isInvalid : v.value = .invalid) : ¬ v.IsSilent := by
  intro silent
  exact decides.valid ((decides.found_iff _).mpr ⟨silent, isInvalid⟩)

/-- What goes on from the type found goes on from a type for which `P` holds. -/
theorem isSilent_bind_iff (decides : v.Decides P) {f : Ty → Verdict α} :
    IsSilent (v >>= f) ↔ ∃ ty, P ty ∧ (f ty).IsSilent := by
  rw [Verdict.isSilent_bind_iff]
  constructor
  · rintro ⟨silent, later⟩
    exact ⟨v.value, (decides.found_iff _).mpr ⟨silent, rfl⟩, later⟩
  · rintro ⟨ty, holds, later⟩
    obtain ⟨silent, rfl⟩ := (decides.found_iff ty).mp holds
    exact ⟨silent, later⟩

/-- Types that are found, but must not be, are reported; what has no type has
been reported before. -/
theorem isSilent_unless_iff (decides : v.Decides P) {unwanted : Ty → Bool} {pos : Position}
    {problem : Ty → Problem} :
    IsSilent (do
      let found ← v
      if !found.isInvalid && unwanted found then report pos (problem found)) ↔
        ∃ ty, P ty ∧ unwanted ty = false := by
  rw [decides.isSilent_bind_iff]
  apply exists_congr
  intro ty
  apply and_congr_right
  intro holds
  rw [isSilent_reportIf_iff, decides.isInvalid_eq_false holds]
  simp

/-- One type is wanted. -/
theorem isSilent_expect_iff (decides : v.Decides P) {wanted : Ty} {pos : Position}
    {problem : Ty → Problem} :
    IsSilent (do
      let found ← v
      if !found.isInvalid && found ≠ wanted then report pos (problem found)) ↔ P wanted := by
  rw [decides.isSilent_unless_iff]
  simp

theorem congr {Q : Ty → Prop} (decides : v.Decides P) (same : ∀ ty, Q ty ↔ P ty) :
    v.Decides Q := by
  constructor
  · intro ty
    rw [same, decides.found_iff]
  · rw [same]
    exact decides.valid

/-- Whatever type is found is decided about in turn. -/
theorem bind {f : Ty → Verdict Ty} {R : Ty → Ty → Prop} (decides : v.Decides P)
    (each : ∀ found, P found → (f found).Decides (R found)) :
    (v >>= f).Decides fun ty => ∃ found, P found ∧ R found ty := by
  constructor
  · intro ty
    rw [Verdict.isSilent_bind_iff, value_bind]
    constructor
    · rintro ⟨found, holds, related⟩
      obtain ⟨silent, rfl⟩ := (decides.found_iff found).mp holds
      obtain ⟨later, same⟩ := ((each _ holds).found_iff ty).mp related
      exact ⟨⟨silent, later⟩, same⟩
    · rintro ⟨⟨silent, later⟩, same⟩
      have holds := (decides.found_iff _).mpr ⟨silent, rfl⟩
      exact ⟨v.value, holds, ((each _ holds).found_iff ty).mpr ⟨later, same⟩⟩
  · rintro ⟨found, holds, related⟩
    exact (each found holds).valid related

/-- What comes first is silent under a condition of its own. -/
theorem after {u : Verdict α} {f : α → Verdict Ty} {C : Prop} (silent : u.IsSilent ↔ C)
    (later : u.IsSilent → (f u.value).Decides P) : (u >>= f).Decides fun ty => C ∧ P ty := by
  constructor
  · intro ty
    rw [Verdict.isSilent_bind_iff, value_bind, ← silent, and_assoc]
    exact and_congr_right fun isSilent => (later isSilent).found_iff ty
  · rintro ⟨holds, isInvalid⟩
    exact (later (silent.mpr holds)).valid isInvalid

theorem reportIf {c : Prop} [Decidable c] {pos : Position} {problem : Problem}
    {f : Unit → Verdict Ty} (later : (f ()).Decides P) :
    (if c then report pos problem >>= f else f ()).Decides fun ty => ¬ c ∧ P ty := by
  constructor
  · intro ty
    have value : (if c then report pos problem >>= f else f ()).value = (f ()).value := by
      by_cases holds : c
      · rw [if_pos holds, value_bind]
      · rw [if_neg holds]
    rw [isSilent_reportIf_bind_iff, value, later.found_iff, and_assoc]
  · exact fun both => later.valid both.2

end Decides

theorem decides_of_silent (ty : Ty) {v : Verdict Ty} (silent : v.IsSilent) (same : v.value = ty)
    (valid : ty ≠ .invalid) {P : Ty → Prop} (only : ∀ other, P other ↔ other = ty) :
    v.Decides P := by
  constructor
  · intro other
    rw [only other, same]
    exact ⟨fun isTy => ⟨silent, isTy.symm⟩, fun found => found.2.symm⟩
  · rw [only .invalid]
    exact fun isInvalid => valid isInvalid.symm

theorem decides_of_not_silent {v : Verdict Ty} (reported : ¬ v.IsSilent) {P : Ty → Prop}
    (none : ∀ ty, ¬ P ty) : v.Decides P := by
  constructor
  · intro ty
    exact ⟨fun holds => (none ty holds).elim, fun found => (reported found.1).elim⟩
  · exact none .invalid

end Verdict

end MiniC
