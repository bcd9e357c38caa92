import MiniC.Proofs.Diagnostic.Latest
import MiniC.Proofs.Layout.Invariance
import MiniC.Proofs.Token.Resolved

/-!
The places that are reported. Each is a place that a scan gave, so it is exact
and no two of different offsets have one line and column. A report that keeps
one remark for each line and column thus keeps one for each offset, in the order
of the source.
-/

namespace MiniC

/-- The places that some scans of a source have given. -/
def Cursor.scannedPlaces (name source : String) (scans : Nat) : List Position :=
  ((atStart name source).scanMany scans).1.flatMap Lexeme.places

namespace Cursor

variable {name source : String} {scans : Nat} {p : Position}

/-- A place that was given is resolved alike by the lines known behind any later
scan, which put it where its newlines do. -/
theorem scannedPlaces_resolved (member : p ∈ scannedPlaces name source scans) (more : Nat) :
    p.offset ≤ (Text.bytes source).length ∧
      ((atStart name source).scanMany (scans + more)).2.lines.position p.offset = p ∧
      p = Text.place name (Text.bytes source) p.offset := by
  -- later scans only add places, so what is known behind them resolves this one too
  have kept : p ∈ scannedPlaces name source (scans + more) := by
    unfold scannedPlaces
    rw [scanMany_add, List.flatMap_append]
    exact List.mem_append_left _ member
  obtain ⟨offset, read, resolved⟩ :=
    scanMany_places (scans + more) (Follows.atStart name source) p kept
  obtain ⟨n, stop⟩ := scanMany_stop (scans + more) (atStart name source)
  have own : p.offset = offset := congrArg Position.offset resolved
  rw [← own] at read resolved
  constructor
  · rw [stop] at read
    exact Nat.le_trans read ((Follows.atStart name source).advance n).bound
  constructor
  · exact resolved.symm
  · rw [stop] at read resolved
    exact resolved.trans (position_advance name source n p.offset read)

/-- Places of one source compare as their offsets do. -/
theorem compareSpot_scannedPlaces {q : Position} (left : p ∈ scannedPlaces name source scans)
    (right : q ∈ scannedPlaces name source scans) :
    p.compareSpot q = compare p.offset q.offset := by
  obtain ⟨_, sameLeft, _⟩ := scannedPlaces_resolved left 0
  obtain ⟨_, sameRight, _⟩ := scannedPlaces_resolved right 0
  have order := LineIndex.compareSpot_position
    ((atStart name source).scanMany (scans + 0)).2.lines p.offset q.offset
  rwa [sameLeft, sameRight] at order

end Cursor

namespace Compilation

variable {name source : String} {d e : Diagnostic}

/-- A remark stands where a scan found something, or nowhere. -/
theorem raised_scanned (member : d ∈ (compile name source).work.raised)
    (valid : d.pos.isValid = true) :
    d.pos ∈ Cursor.scannedPlaces name source
      ((Scanned.ofSource name source).lexemes.length + 1) := by
  have all : (Scanned.ofSource name source).all.flatMap Lexeme.places =
      Cursor.scannedPlaces name source ((Scanned.ofSource name source).lexemes.length + 1) :=
    congrArg (fun scans => scans.1.flatMap Lexeme.places)
      (Cursor.scanMany_scanAll (Cursor.atStart name source)).symm
  rcases raised_at_places (fun p place => all ▸ place) d member with isPlace | unknown
  · exact isPlace
  · rw [unknown] at valid
    cases valid

theorem spot_eq_iff (left : d ∈ (compile name source).work.raised)
    (right : e ∈ (compile name source).work.raised) (isLeft : d.pos.isValid = true)
    (isRight : e.pos.isValid = true) :
    d.pos.spot = e.pos.spot ↔ d.pos.offset = e.pos.offset := by
  rw [← Position.compareSpot_eq_eq, Cursor.compareSpot_scannedPlaces (raised_scanned left isLeft)
    (raised_scanned right isRight), Nat.compare_eq_eq]

/-- The last remark at a line and column is the last one at an offset. -/
theorem isLast_spot_iff (valid : d.pos.isValid = true) :
    IsLast Position.spot (compile name source).work.raised d ↔
      IsLast Position.offset (compile name source).work.raised d := by
  -- a later remark that is compared has a place, so it was raised where a scan put it
  have same {sooner later : List Diagnostic}
      (split : (compile name source).work.raised = sooner ++ d :: later) (e : Diagnostic)
      (isLater : e ∈ later) (isValid : e.pos.isValid = true) :
      e.pos.spot = d.pos.spot ↔ e.pos.offset = d.pos.offset := by
    have isRaised : e ∈ (compile name source).work.raised := by
      rw [split]
      exact List.mem_append_right _ (List.mem_cons_of_mem _ isLater)
    have own : d ∈ (compile name source).work.raised := by
      rw [split]
      exact List.mem_append_right _ List.mem_cons_self
    exact spot_eq_iff isRaised own isValid valid
  constructor
  · rintro ⟨sooner, later, split, others⟩
    use sooner, later, split
    intro e isLater isValid
    exact fun offset => others e isLater isValid ((same split e isLater isValid).mpr offset)
  · rintro ⟨sooner, later, split, others⟩
    use sooner, later, split
    intro e isLater isValid
    exact fun spot => others e isLater isValid ((same split e isLater isValid).mp spot)

end Compilation

theorem IsLast.mem {κ : Type} {key : Position → κ} {raised : List Diagnostic} {d : Diagnostic}
    (isLast : IsLast key raised d) : d ∈ raised := by
  obtain ⟨sooner, later, rfl, _⟩ := isLast
  exact List.mem_append_right _ List.mem_cons_self

/-- Every place that a scan gives is where the newlines before it put it, stays
there whatever is scanned later, and compares with the others as its offset
does. So a report keeps the last remark at each offset, in the order of offsets,
and behind these what has no place. -/
theorem positions_exact (name source : String) :
    let bytes := Text.bytes source
    let raised := (compile name source).work.raised
    (∀ scans, ∀ p ∈ Cursor.scannedPlaces name source scans,
        p.offset ≤ bytes.length ∧ p = Text.place name bytes p.offset ∧
        (∀ more, ((Cursor.atStart name source).scanMany (scans + more)).2.lines.position
          p.offset = p) ∧
        ∀ q ∈ Cursor.scannedPlaces name source scans,
          p.compareSpot q = compare p.offset q.offset) ∧
      (∀ d ∈ raised, d.pos.isValid = true →
        ∃ scans, d.pos ∈ Cursor.scannedPlaces name source scans) ∧
      ∃ placed, (compile name source).report.toList =
          placed ++ raised.filter (fun d => !d.pos.isValid) ∧
        placed.Pairwise (fun d e => d.pos.offset < e.pos.offset) ∧
        ∀ d, d ∈ placed ↔ d.pos.isValid = true ∧ IsLast Position.offset raised d := by
  intro bytes raised
  obtain ⟨ordered, kept⟩ := Report.placed_spec raised
  constructor
  · intro scans p member
    obtain ⟨bound, _, isExact⟩ := Cursor.scannedPlaces_resolved member 0
    constructor
    · exact bound
    constructor
    · exact isExact
    constructor
    · exact fun more => (Cursor.scannedPlaces_resolved member more).2.1
    · exact fun q other => Cursor.compareSpot_scannedPlaces member other
  constructor
  · exact fun d member valid => ⟨_, Compilation.raised_scanned member valid⟩
  use (Report.ofRaised raised).placed.reverse
  constructor
  · exact congrArg (_ ++ ·) (Report.unplaced_eq raised)
  constructor
  · -- kept in the order of the spots, and of places that scans give that is the order of offsets
    apply List.pairwise_reverse.mpr
    apply ordered.imp_of_mem
    intro d e isKept isOther behind
    obtain ⟨valid, isLast⟩ := (kept d).mp isKept
    obtain ⟨isValid, otherLast⟩ := (kept e).mp isOther
    rw [Cursor.compareSpot_scannedPlaces (Compilation.raised_scanned isLast.mem valid)
      (Compilation.raised_scanned otherLast.mem isValid)] at behind
    exact Nat.compare_eq_gt.mp behind
  · intro d
    rw [List.mem_reverse, kept]
    exact and_congr_right fun valid => Compilation.isLast_spot_iff valid

/-- The end of a source stays on the line of the newline in front of it. -/
theorem positions_exact_final_newline :
    ⟨"m.c", 4, 2, 3⟩ ∈ Cursor.scannedPlaces "m.c" "/\n$\n" 4 ∧
      ((⟨"m.c", 4, 2, 3⟩ : Position) = Text.place "m.c" (Text.bytes "/\n$\n") 4 ∧
        ((Cursor.atStart "m.c" "/\n$\n").scanMany 9).2.lines.position 4 = ⟨"m.c", 4, 2, 3⟩) := by
  have member : ⟨"m.c", 4, 2, 3⟩ ∈ Cursor.scannedPlaces "m.c" "/\n$\n" 4 := by decide
  obtain ⟨_, isExact, stays, _⟩ := (positions_exact "m.c" "/\n$\n").1 4 _ member
  exact ⟨member, isExact, stays 5⟩

end MiniC
