import MiniC.Diagnostic
import Mathlib.Data.List.Basic
import Mathlib.Data.List.Induction

/-!
What a report keeps of all that was raised. At each line and column it keeps the
last remark, one behind the other in the order of the places; the remarks
without a known place come behind these, all of them.
-/

namespace MiniC

namespace Position

/-- The line and the column. -/
def spot (p : Position) : Nat × Nat := (p.line, p.column)

theorem compareSpot_eq_lt {left right : Position} :
    left.compareSpot right = .lt ↔
      left.line < right.line ∨ left.line = right.line ∧ left.column < right.column := by
  unfold compareSpot
  rw [Ordering.then_eq_lt, Nat.compare_eq_lt, Nat.compare_eq_lt, Nat.compare_eq_eq]

theorem compareSpot_eq_gt {left right : Position} :
    left.compareSpot right = .gt ↔
      right.line < left.line ∨ left.line = right.line ∧ right.column < left.column := by
  unfold compareSpot
  rw [Ordering.then_eq_gt, Nat.compare_eq_gt, Nat.compare_eq_gt, Nat.compare_eq_eq]

theorem compareSpot_eq_eq {left right : Position} :
    left.compareSpot right = .eq ↔ left.spot = right.spot := by
  unfold compareSpot spot
  rw [Ordering.then_eq_eq, Nat.compare_eq_eq, Nat.compare_eq_eq, Prod.mk.injEq]

theorem spot_ne_of_gt {left right : Position} (behind : left.compareSpot right = .gt) :
    left.spot ≠ right.spot := by
  intro same
  rw [compareSpot_eq_eq.mpr same] at behind
  cases behind

theorem compareSpot_gt_trans {first second third : Position}
    (behind : first.compareSpot second = .gt) (further : second.compareSpot third = .gt) :
    first.compareSpot third = .gt := by
  rw [compareSpot_eq_gt] at *
  omega

/-- What is before a place has that place behind it. -/
theorem compareSpot_gt_of_lt {left right : Position} (before : left.compareSpot right = .lt) :
    right.compareSpot left = .gt := by
  rw [compareSpot_eq_lt] at before
  rw [compareSpot_eq_gt]
  omega

end Position

/-- The last of the remarks with its key, those without a known place set aside. -/
def IsLast {κ : Type} (key : Position → κ) (raised : List Diagnostic) (d : Diagnostic) : Prop :=
  ∃ sooner later, raised = sooner ++ d :: later ∧
    ∀ e ∈ later, e.pos.isValid = true → key e.pos ≠ key d.pos

/-- One more remark is the last one, and takes the place of one with its key. -/
theorem isLast_concat_iff {κ : Type} {key : Position → κ} {raised : List Diagnostic}
    {d e : Diagnostic} :
    IsLast key (raised ++ [e]) d ↔
      d = e ∨ IsLast key raised d ∧ (e.pos.isValid = true → key e.pos ≠ key d.pos) := by
  constructor
  · -- what is last is the new remark itself, or the new remark is the last one behind it
    rintro ⟨sooner, later, split, others⟩
    rcases List.eq_nil_or_concat' later with rfl | ⟨before, last, rfl⟩
    · left
      exact (List.append_inj' split rfl).2 |> List.singleton_inj.mp |> Eq.symm
    · right
      have shape : raised ++ [e] = (sooner ++ d :: before) ++ [last] := by simpa using split
      obtain ⟨same, isLast⟩ := List.append_inj' shape rfl
      rw [List.singleton_inj.mp isLast]
      constructor
      · exact ⟨sooner, before, same, fun f member =>
          others f (List.mem_append_left _ member)⟩
      · exact others last (List.mem_append_right _ (List.mem_singleton_self _))
  · rintro (rfl | ⟨⟨sooner, later, rfl, others⟩, other⟩)
    · exact ⟨raised, [], rfl, nofun⟩
    · use sooner, later ++ [e]
      constructor
      · rw [List.append_assoc, List.cons_append]
      · intro f member
        rcases List.mem_append.mp member with isLater | isLast
        · exact others f isLater
        · rw [List.mem_singleton.mp isLast]
          exact other

namespace Report

/-- Against the order of the places, and no two at one spot. -/
def IsOrdered (list : List Diagnostic) : Prop :=
  list.Pairwise fun d e => d.pos.compareSpot e.pos = .gt

theorem enter_cons (d e : Diagnostic) (rest : List Diagnostic) :
    enter d (e :: rest) =
      match d.pos.compareSpot e.pos with
      | .gt => d :: e :: rest
      | .eq => d :: rest
      | .lt => e :: enter d rest := rfl

namespace IsOrdered

variable {list : List Diagnostic} (ordered : IsOrdered list) (d : Diagnostic)

include ordered

/-- A remark that is entered replaces the one at its spot. -/
theorem mem_enter_iff (e : Diagnostic) :
    e ∈ enter d list ↔ e = d ∨ e ∈ list ∧ d.pos.spot ≠ e.pos.spot := by
  induction list with
  | nil => simp [Report.enter]
  | cons f rest ih =>
    obtain ⟨behind, others⟩ := List.pairwise_cons.mp ordered
    rw [enter_cons]
    cases found : d.pos.compareSpot f.pos with
    | gt =>
      -- all that was entered before stands further in front
      have apart : ∀ g ∈ f :: rest, d.pos.spot ≠ g.pos.spot := by
        intro g member
        rcases List.mem_cons.mp member with rfl | isLater
        · exact Position.spot_ne_of_gt found
        · exact Position.spot_ne_of_gt (Position.compareSpot_gt_trans found (behind g isLater))
      rw [List.mem_cons]
      exact or_congr_right ⟨fun member => ⟨member, apart e member⟩, And.left⟩
    | eq =>
      have same := Position.compareSpot_eq_eq.mp found
      have apart : ∀ g ∈ rest, d.pos.spot ≠ g.pos.spot := by
        intro g isLater
        rw [same]
        exact Position.spot_ne_of_gt (behind g isLater)
      rw [List.mem_cons, List.mem_cons]
      apply or_congr_right
      constructor
      · exact fun member => ⟨.inr member, apart e member⟩
      · rintro ⟨rfl | member, other⟩
        · exact absurd same other
        · exact member
    | lt =>
      have apart := Position.spot_ne_of_gt (Position.compareSpot_gt_of_lt found)
      rw [List.mem_cons, List.mem_cons, ih others]
      constructor
      · rintro (rfl | isNew | ⟨member, other⟩)
        · exact .inr ⟨.inl rfl, apart.symm⟩
        · exact .inl isNew
        · exact .inr ⟨.inr member, other⟩
      · rintro (isNew | ⟨rfl | member, other⟩)
        · exact .inr (.inl isNew)
        · exact .inl rfl
        · exact .inr (.inr ⟨member, other⟩)

theorem enter : IsOrdered (Report.enter d list) := by
  induction list with
  | nil => exact List.pairwise_singleton _ _
  | cons f rest ih =>
    obtain ⟨behind, others⟩ := List.pairwise_cons.mp ordered
    rw [enter_cons]
    cases found : d.pos.compareSpot f.pos with
    | gt =>
      apply List.pairwise_cons.mpr
      constructor
      · intro g member
        rcases List.mem_cons.mp member with rfl | isLater
        · exact found
        · exact Position.compareSpot_gt_trans found (behind g isLater)
      · exact ordered
    | eq =>
      -- the new remark stands to the others as the one it replaces
      obtain ⟨line, column⟩ := Prod.mk.inj (Position.compareSpot_eq_eq.mp found)
      apply List.pairwise_cons.mpr
      constructor
      · intro g isLater
        have before := behind g isLater
        rw [Position.compareSpot_eq_gt] at before ⊢
        rwa [line, column]
      · exact others
    | lt =>
      apply List.pairwise_cons.mpr
      constructor
      · intro g member
        rcases (mem_enter_iff others d g).mp member with rfl | ⟨isLater, _⟩
        · exact Position.compareSpot_gt_of_lt found
        · exact behind g isLater
      · exact ih others

end IsOrdered

theorem ofRaised_concat (raised : List Diagnostic) (d : Diagnostic) :
    ofRaised (raised ++ [d]) = (ofRaised raised).add d :=
  List.foldl_append

/-- The history is all that was raised. -/
theorem raised_ofRaised (raised : List Diagnostic) : (ofRaised raised).raised = raised := by
  induction raised using List.reverseRecOn with
  | nil => rfl
  | append_singleton raised d ih =>
    have kept (report : Report) : (report.add d).history = d :: report.history := by
      unfold add
      split <;> rfl
    rw [ofRaised_concat, Report.raised, kept, List.reverse_cons]
    exact congrArg (· ++ [d]) ih

/-- The last remark at each spot is kept, in the order of the spots. -/
theorem placed_spec (raised : List Diagnostic) :
    IsOrdered (ofRaised raised).placed ∧
      ∀ d, d ∈ (ofRaised raised).placed ↔
        d.pos.isValid = true ∧ IsLast Position.spot raised d := by
  induction raised using List.reverseRecOn with
  | nil =>
    constructor
    · exact List.Pairwise.nil
    · intro d
      constructor
      · exact nofun
      · rintro ⟨_, sooner, later, split, _⟩
        exact absurd split.symm (List.append_ne_nil_of_right_ne_nil _ (List.cons_ne_nil _ _))
  | append_singleton raised e ih =>
    obtain ⟨ordered, kept⟩ := ih
    rw [ofRaised_concat]
    unfold add
    by_cases valid : e.pos.isValid = true
    · rw [if_pos valid]
      constructor
      · exact ordered.enter e
      · intro d
        rw [ordered.mem_enter_iff, kept, isLast_concat_iff]
        constructor
        · rintro (rfl | ⟨⟨isValid, isLast⟩, other⟩)
          · exact ⟨valid, .inl rfl⟩
          · exact ⟨isValid, .inr ⟨isLast, fun _ => other⟩⟩
        · rintro ⟨isValid, rfl | ⟨isLast, other⟩⟩
          · exact .inl rfl
          · exact .inr ⟨⟨isValid, isLast⟩, other valid⟩
    · rw [if_neg valid]
      constructor
      · exact ordered
      · intro d
        rw [kept, isLast_concat_iff]
        constructor
        · rintro ⟨isValid, isLast⟩
          exact ⟨isValid, .inr ⟨isLast, fun isValid => absurd isValid valid⟩⟩
        · rintro ⟨isValid, rfl | ⟨isLast, _⟩⟩
          · exact absurd isValid valid
          · exact ⟨isValid, isLast⟩

/-- All remarks without a known place are kept. -/
theorem unplaced_eq (raised : List Diagnostic) :
    (ofRaised raised).unplaced = raised.filter fun d => !d.pos.isValid := by
  induction raised using List.reverseRecOn with
  | nil => rfl
  | append_singleton raised d ih =>
    rw [ofRaised_concat, List.filter_append, ← ih]
    unfold add
    by_cases valid : d.pos.isValid = true
    · rw [if_pos valid, List.filter_cons_of_neg (by simpa using valid)]
      exact (List.append_nil _).symm
    · rw [if_neg valid, List.filter_cons_of_pos (by simpa using valid)]
      rfl

/-- Nothing is reported just when nothing was raised. -/
theorem isEmpty_ofRaised_iff (raised : List Diagnostic) :
    (ofRaised raised).isEmpty = true ↔ raised = [] := by
  constructor
  · intro none
    have nothing : (ofRaised raised).toList = [] :=
      List.length_eq_zero_iff.mp (beq_iff_eq.mp none)
    obtain ⟨noPlaced, noUnplaced⟩ := List.append_eq_nil_iff.mp nothing
    rcases List.eq_nil_or_concat' raised with same | ⟨before, last, rfl⟩
    · exact same
    · -- what was raised last is kept in one of the two parts
      by_cases valid : last.pos.isValid = true
      · have kept := (placed_spec (before ++ [last])).2 last |>.mpr
          ⟨valid, isLast_concat_iff.mpr (.inl rfl)⟩
        rw [List.reverse_eq_nil_iff.mp noPlaced] at kept
        cases kept
      · rw [unplaced_eq, List.filter_eq_nil_iff] at noUnplaced
        exact absurd (by simpa using valid) (noUnplaced last (by simp))
  · rintro rfl
    rfl

end Report

end MiniC
