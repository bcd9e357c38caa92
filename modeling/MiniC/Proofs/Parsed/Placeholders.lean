import MiniC.Proofs.Parsed.Ends
import MiniC.Proofs.Parsed.Placed
import MiniC.Proofs.Parsed.Shaped
import MiniC.Proofs.Stmt.Placeholders

/-!
What could not be read is reported once. The check says nothing where a bad
expression stands, as the sites of a file all stand at different offsets; so what
reading reported there is what the report keeps. Where the check asks for a kind of
expression before it asks whether the expression is bad, it speaks of a bad one too,
and that is not so.
-/

namespace MiniC

theorem ofScanned_ascends (name source : String) :
    (Stream.ofScanned (Scanned.ofSource name source)).Ascends := by
  constructor
  · have increasing := Scanned.offsets_increasing name source
    rw [Scanned.tokens, List.map_map, List.pairwise_map] at increasing
    rw [Stream.all_ofScanned]
    exact increasing
  · rw [Stream.all_ofScanned]
    intro lexeme member
    exact (Scanned.tokens_ordered name source).2 lexeme.token (List.mem_map_of_mem member)

/-- The sites of a file stand one behind the other. -/
theorem parse_places_ascend (name source : String) :
    ∃ low high, Ascent low (parse name source).file.places high :=
  ⟨_, _, fileParser_covers name (Scanned.ofSource name source).lineCount _
    (ofScanned_ascends name source)⟩

/-- What comes later at other keys changes nothing. -/
theorem isLast_append_iff {κ : Type} {key : Position → κ} {raised later : List Diagnostic}
    {d : Diagnostic} (valid : d.pos.isValid = true)
    (others : ∀ e ∈ later, e.pos.isValid = true → key e.pos ≠ key d.pos) :
    IsLast key (raised ++ later) d ↔ IsLast key raised d := by
  induction later using List.reverseRecOn with
  | nil => rw [List.append_nil]
  | append_singleton before e ih =>
    obtain ⟨sooner, last⟩ := List.forall_mem_append.mp others
    have other := last e List.mem_cons_self
    rw [← List.append_assoc, isLast_concat_iff, ih sooner, and_iff_left other]
    refine or_iff_right fun same => ?_
    rw [same] at valid
    exact other valid (congrArg (key ·.pos) same.symm)

variable {name source : String} {p : Position}

/-- The site of a bad expression that is not spoken of is silent. -/
theorem site_of_bad {e : Expr} (isExpr : e ∈ (parse name source).file.exprs)
    (isBad : .bad p ∈ e.parts) (unspoken : ⟨p, .plain⟩ ∉ (parse name source).file.sites) :
    ⟨p, .silent⟩ ∈ (parse name source).file.sites := by
  have shaped := parse_isInShape name source
  have place := shaped.haveBads e isExpr p isBad
  obtain ⟨⟨pos, voice⟩, isSite, rfl⟩ := List.mem_map.mp place
  cases voice with
  | silent => exact isSite
  | plain => exact absurd isSite unspoken
  | braced => exact absurd rfl (shaped.sites _ isSite)

/-- Nothing is said at a silent site, nor at a site beside it. -/
theorem checking_silent (isSilent : ⟨p, .silent⟩ ∈ (parse name source).file.sites) :
    ∀ d ∈ (compile name source).checkingLog.raised, d.pos.isValid = true →
      d.pos.offset ≠ p.offset := by
  intro d raised valid same
  obtain ⟨low, high, ascent⟩ := parse_places_ascend name source
  have apart : ((parse name source).file.sites.map (·.pos.offset)).Nodup := by
    have pairwise := ascent.pairwise
    rw [File.places, List.pairwise_map] at pairwise
    exact List.pairwise_map.mpr (pairwise.imp Nat.ne_of_lt)
  obtain ⟨place, problem, allowed, rfl⟩ :=
    File.check_reports (parse_rooted name source) .start d raised
  rcases allowed with ⟨site, isSite, rfl, permits⟩ | ⟨rfl, _⟩
  · have one := List.inj_on_of_nodup_map apart isSite isSilent same
    rw [one] at permits
    exact permits
  · cases valid

/-- Where a bad expression stands that is not spoken of, the check reports nothing, and the
report keeps what reading reported there last. -/
theorem placeholders_kept {e : Expr} (isExpr : e ∈ (parse name source).file.exprs)
    (isBad : .bad p ∈ e.parts) (unspoken : ⟨p, .plain⟩ ∉ (parse name source).file.sites) :
    let compilation := compile name source
    (∀ d ∈ compilation.checkingLog.raised, d.pos ≠ p) ∧
      ∀ d, d.pos = p →
        (d ∈ compilation.report.toList ↔ IsLast Position.offset compilation.readingLog.raised d) := by
  intro compilation
  have isSilent := site_of_bad isExpr isBad unspoken
  have silent := checking_silent isSilent
  obtain ⟨low, high, ascent⟩ := parse_places_ascend name source
  have valid := (ascent.forall_mem p (List.mem_map_of_mem isSilent)).1
  constructor
  · rintro d raised rfl
    exact silent d raised valid rfl
  · rintro d rfl
    obtain ⟨_, _, placed, listed, _, kept⟩ := positions_exact name source
    have unplaced : d ∉ compilation.work.raised.filter (fun d => !d.pos.isValid) := by
      simp [valid]
    have split : compilation.work.raised =
        compilation.readingLog.raised ++ compilation.checkingLog.raised :=
      Log.raised_append _ _
    rw [listed, List.mem_append, or_iff_left unplaced, kept, and_iff_right valid, split]
    exact isLast_append_iff valid silent

/-- An operand is missing behind a name that is not known. -/
def missingOperand : String := "void main() \x7b int a; a = b + ; \x7d"

def missingSum : Expr :=
  .binary ⟨"t.c", 25, 1, 26⟩ .add (.ident ⟨"t.c", 25, 1, 26⟩ "b") (.bad ⟨"t.c", 29, 1, 30⟩)

theorem placeholders_kept_missingOperand :
    let compilation := compile "t.c" missingOperand
    let p : Position := ⟨"t.c", 29, 1, 30⟩
    (missingSum ∈ compilation.file.exprs ∧ .bad p ∈ missingSum.parts ∧
      ⟨p, .plain⟩ ∉ compilation.file.sites) ∧
      (∀ d ∈ compilation.checkingLog.raised, d.pos ≠ p) ∧
      ∀ d, d.pos = p →
        (d ∈ compilation.report.toList ↔ IsLast Position.offset compilation.readingLog.raised d) := by
  have exprs : (parse "t.c" missingOperand).file.exprs =
      [.ident ⟨"t.c", 21, 1, 22⟩ "a", missingSum] := by
    with_unfolding_all rfl
  have isExpr : missingSum ∈ (parse "t.c" missingOperand).file.exprs := by
    rw [exprs]
    exact List.mem_cons_of_mem _ List.mem_cons_self
  have isBad : .bad ⟨"t.c", 29, 1, 30⟩ ∈ missingSum.parts :=
    List.mem_cons_of_mem _ (List.mem_cons_of_mem _ List.mem_cons_self)
  have unspoken : ⟨⟨"t.c", 29, 1, 30⟩, .plain⟩ ∉ (parse "t.c" missingOperand).file.sites := by
    decide +kernel
  exact ⟨⟨isExpr, isBad, unspoken⟩, placeholders_kept isExpr isBad unspoken⟩

/-- The target of a scan is missing. -/
def missingTarget : String := "void main() \x7b int x; scanf(); \x7d"

/-- The check speaks of the missing target, and of what was reported there nothing is kept. -/
theorem placeholder_overwritten :
    ¬ ∀ name source, ∀ e ∈ (parse name source).file.exprs, ∀ p, .bad p ∈ e.parts →
      ∀ d ∈ (compile name source).checkingLog.raised, d.pos ≠ p := by
  intro all
  have exprs : (parse "t.c" missingTarget).file.exprs = [.bad ⟨"t.c", 27, 1, 28⟩] := by
    with_unfolding_all rfl
  have places : (compile "t.c" missingTarget).checkingLog.raised.map (·.pos) =
      [⟨"t.c", 27, 1, 28⟩] := by
    with_unfolding_all rfl
  have isExpr : .bad ⟨"t.c", 27, 1, 28⟩ ∈ (parse "t.c" missingTarget).file.exprs := by
    rw [exprs]
    exact List.mem_cons_self
  have isPlace : ⟨"t.c", 27, 1, 28⟩ ∈ (compile "t.c" missingTarget).checkingLog.raised.map (·.pos) := by
    rw [places]
    exact List.mem_cons_self
  obtain ⟨d, raised, same⟩ := List.mem_map.mp isPlace
  exact all "t.c" missingTarget _ isExpr _ List.mem_cons_self d raised same

end MiniC
