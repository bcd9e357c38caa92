import MiniC.Compilation
import MiniC.Proofs.Diagnostic.Latest
import Mathlib.Data.Prod.Lex

/-!
A report told as one list. Every line and column that was remarked on has one
entry, its last remark, and these stand in the order of the source; the remarks
without a known place follow in the order in which they were raised. What is
counted and printed is counted and printed from this list, not from all that was
raised, and nothing that is raised later can empty it.
-/

namespace MiniC

namespace Report

/-- The last remark at a line and column. -/
def lastAt? (raised : List Diagnostic) (spot : Nat × Nat) : Option Diagnostic :=
  raised.reverse.find? fun d => d.pos.isValid && d.pos.spot == spot

theorem lastAt?_eq_some_iff {raised : List Diagnostic} {spot : Nat × Nat} {d : Diagnostic} :
    lastAt? raised spot = some d ↔
      d.pos.isValid = true ∧ d.pos.spot = spot ∧ IsLast Position.spot raised d := by
  unfold lastAt?
  rw [List.find?_eq_some_iff_append]
  simp only [Bool.and_eq_true, beq_iff_eq, Bool.not_eq_true', Bool.and_eq_false_iff]
  constructor
  · rintro ⟨⟨valid, rfl⟩, later, sooner, split, others⟩
    refine ⟨valid, rfl, sooner.reverse, later.reverse, ?_, ?_⟩
    · rw [← List.reverse_reverse raised, split, List.reverse_append, List.reverse_cons,
        List.append_assoc, List.singleton_append]
    · intro e member isValid same
      rcases others e (List.mem_reverse.mp member) with notValid | other
      · rw [isValid] at notValid
        cases notValid
      · exact beq_eq_false_iff_ne.mp other same
  · rintro ⟨valid, rfl, sooner, later, rfl, others⟩
    refine ⟨⟨valid, rfl⟩, later.reverse, sooner.reverse, ?_, ?_⟩
    · rw [List.reverse_append, List.reverse_cons, List.append_assoc, List.singleton_append]
    · intro e member
      by_cases isValid : e.pos.isValid = true
      · right
        exact beq_eq_false_iff_ne.mpr (others e (List.mem_reverse.mp member) isValid)
      · left
        exact Bool.eq_false_of_not_eq_true isValid

/-- A spot that was remarked on has a last remark. -/
theorem exists_lastAt? {raised : List Diagnostic} {d : Diagnostic} (member : d ∈ raised)
    (valid : d.pos.isValid = true) : ∃ last, lastAt? raised d.pos.spot = some last := by
  apply Option.isSome_iff_exists.mp
  unfold lastAt?
  rw [List.find?_isSome]
  exact ⟨d, List.mem_reverse.mpr member, by simp [valid]⟩

variable (raised : List Diagnostic)

theorem mem_placed_iff (d : Diagnostic) :
    d ∈ (ofRaised raised).placed ↔ lastAt? raised d.pos.spot = some d := by
  rw [(placed_spec raised).2, lastAt?_eq_some_iff]
  exact and_congr_right fun _ => (and_iff_right rfl).symm

/-- The placed remarks in the order of the source. -/
theorem placed_pairwise :
    ((ofRaised raised).placed.reverse.map (·.pos.spot)).Pairwise
      (Prod.Lex (· < ·) (· < ·)) := by
  rw [List.pairwise_map, List.pairwise_reverse]
  apply (placed_spec raised).1.imp
  intro d e behind
  rw [Position.compareSpot_eq_gt] at behind
  rw [Prod.lex_def]
  exact behind.imp_right (And.imp_left Eq.symm)

/-- The spots with an entry are those that were remarked on. -/
theorem mem_placed_spots_iff (spot : Nat × Nat) :
    spot ∈ (ofRaised raised).placed.reverse.map (·.pos.spot) ↔
      ∃ d ∈ raised, d.pos.isValid = true ∧ d.pos.spot = spot := by
  simp only [List.mem_map, List.mem_reverse]
  constructor
  · rintro ⟨d, member, rfl⟩
    obtain ⟨valid, sooner, later, rfl, _⟩ := ((placed_spec raised).2 d).mp member
    exact ⟨d, by simp, valid, rfl⟩
  · rintro ⟨d, member, valid, rfl⟩
    obtain ⟨last, found⟩ := exists_lastAt? member valid
    have same := (lastAt?_eq_some_iff.mp found).2.1
    rw [← same] at found
    exact ⟨last, (mem_placed_iff raised last).mpr found, same⟩

theorem raised_add (report : Report) (d : Diagnostic) :
    (report.add d).raised = report.raised ++ [d] := by
  unfold add raised
  split <;> exact List.reverse_cons

theorem addAll_ofRaised (more : List Diagnostic) :
    (ofRaised raised).addAll more = ofRaised (raised ++ more) :=
  List.foldl_append.symm

theorem countOf_eq (report : Report) (kind : DiagnosticKind) :
    report.countOf kind = report.kinds.count kind := by
  rw [List.count, kinds, List.countP_map]
  rfl

theorem syntacticCount_eq (report : Report) :
    report.syntacticCount = report.kinds.countP DiagnosticKind.isSyntactic := by
  rw [kinds, List.countP_map]
  rfl

/-- The list a report comes to, and that all it tells is told from this list. -/
theorem keeps_latest_per_spot :
    let report := ofRaised raised
    ∃ spots : List (Nat × Nat), ∃ kept : List Diagnostic,
      spots.Pairwise (Prod.Lex (· < ·) (· < ·)) ∧
      (∀ spot, spot ∈ spots ↔ ∃ d ∈ raised, d.pos.isValid = true ∧ d.pos.spot = spot) ∧
      spots.map (lastAt? raised) = kept.map some ∧
      report.toList = kept ++ raised.filter (fun d => !d.pos.isValid) ∧
      report.size = spots.length + raised.countP (fun d => !d.pos.isValid) ∧
      report.kinds = report.toList.map (·.kind) ∧
      (∀ kind, report.countOf kind = report.kinds.count kind) ∧
      report.syntacticCount = report.kinds.countP DiagnosticKind.isSyntactic ∧
      report.render =
        String.join (report.toList.map fun d => d.pos.display ++ " :: " ++ d.message ++ "\n") ∧
      report.raised = raised ∧
      (∀ d, (report.add d).raised = raised ++ [d]) ∧
      (∀ more, (report.addAll more).isEmpty = true ↔ raised = [] ∧ more = []) ∧
      ∀ name source,
        (compile name source).isClean = true ↔ (compile name source).work.raised = [] := by
  intro report
  have listed : report.toList =
      report.placed.reverse ++ raised.filter (fun d => !d.pos.isValid) := by
    rw [toList, unplaced_eq]
  use report.placed.reverse.map (·.pos.spot), report.placed.reverse
  refine ⟨placed_pairwise raised, mem_placed_spots_iff raised, ?latest, listed, ?size, rfl,
    countOf_eq report, syntacticCount_eq report, rfl, raised_ofRaised raised, ?sink, ?never,
    fun name source => isEmpty_ofRaised_iff _⟩
  case latest =>
    rw [List.map_map]
    apply List.map_congr_left
    intro d member
    exact (mem_placed_iff raised d).mp (List.mem_reverse.mp member)
  case size =>
    rw [size, listed, List.length_append, List.length_map, List.countP_eq_length_filter]
  case sink =>
    intro d
    rw [raised_add, raised_ofRaised]
  case never =>
    intro more
    rw [addAll_ofRaised, isEmpty_ofRaised_iff, List.append_eq_nil_iff]

-- The second remark at (2, 3) replaces the first one, although it is raised for another offset.
example :
    (ofRaised [⟨⟨"t.c", 9, 2, 3⟩, .undefine, "first"⟩, ⟨.unknown, .missingMain, "no main"⟩,
      ⟨⟨"t.c", 4, 1, 5⟩, .undefine, "before"⟩, ⟨⟨"t.c", 8, 2, 3⟩, .redefine, "second"⟩]).toList
      = [⟨⟨"t.c", 4, 1, 5⟩, .undefine, "before"⟩, ⟨⟨"t.c", 8, 2, 3⟩, .redefine, "second"⟩,
        ⟨.unknown, .missingMain, "no main"⟩] := by
  decide

end Report

end MiniC
