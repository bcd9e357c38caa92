import MiniC.Compilation
import MiniC.Proofs.Layout.Checking
import MiniC.Proofs.Layout.Ranks
import MiniC.Proofs.Layout.Reading

/-!
Layout does not matter. Blanks, line breaks and comments move the tokens of a
source; reading and checking take the move along, and the report depends only
on the order of the tokens. With their places replaced by ranks, two sources
that differ in layout are the same stream.
-/

namespace MiniC

open Position

/-- The kind and the text of a remark, without its place. -/
def Diagnostic.bare (d : Diagnostic) : DiagnosticKind × String := (d.kind, d.message)

theorem bare_relocateAll (move : Position → Position) (raised : List Diagnostic) :
    (relocateAll move raised).map Diagnostic.bare = raised.map Diagnostic.bare := by
  unfold relocateAll
  rw [List.map_map]
  rfl

theorem bare_of_relocateAll_eq {first second : Position → Position} {left right : List Diagnostic}
    (same : relocateAll first left = relocateAll second right) :
    left.map Diagnostic.bare = right.map Diagnostic.bare :=
  calc left.map Diagnostic.bare
    _ = (relocateAll first left).map Diagnostic.bare := (bare_relocateAll first left).symm
    _ = (relocateAll second right).map Diagnostic.bare := by rw [same]
    _ = right.map Diagnostic.bare := bare_relocateAll second right

theorem File.bare_relocate (move : Position → Position) (file : File) :
    (file.relocate move).decls.map Decl.bare = file.decls.map Decl.bare := by
  unfold relocate
  rw [List.map_map]
  exact List.map_congr_left fun decl _ => decl.bare_relocate

namespace Stream

/-- The file that is read from a stream. -/
def file (name : String) (lineCount : Nat) (stream : Stream) : File :=
  ((fileParser name lineCount).run stream).value

/-- All that is raised while the file is read and checked. -/
def raised (name : String) (lineCount : Nat) (stream : Stream) : List Diagnostic :=
  stream.arrival.raised ++ ((fileParser name lineCount).run stream).log.raised ++
    ((stream.file name lineCount).check.run .start).log.raised

variable {move : Position → Position}

theorem relocate_file (name : String) (lineCount other : Nat) (stream : Stream) :
    (stream.relocate move).file name other = (stream.file name lineCount).relocate move :=
  (fileParser_moves name lineCount other stream).value

/-- What is raised on moved tokens, however many lines there are. -/
theorem relocate_raised (fixed : move unknown = unknown) (name : String)
    (lineCount other : Nat) (stream : Stream) :
    (stream.relocate move).raised name other = relocateAll move (stream.raised name lineCount) := by
  have arrived : (stream.relocate move).arrival.raised = relocateAll move stream.arrival.raised :=
    stream.relocate_arrival move
  have read : ((fileParser name other).run (stream.relocate move)).log.raised =
      relocateAll move ((fileParser name lineCount).run stream).log.raised :=
    (fileParser_moves name lineCount other stream).raised
  have checked := ((stream.file name lineCount).check_moves fixed .start).raised
  unfold raised
  rw [arrived, read, relocate_file name lineCount other]
  unfold relocateAll at checked ⊢
  rw [List.map_append, List.map_append]
  exact congrArg _ checked

end Stream

theorem parse_file (name source : String) :
    (parse name source).file = (Stream.ofScanned (Scanned.ofSource name source)).file
      name (Scanned.ofSource name source).lineCount := rfl

theorem Compilation.raised_work (name source : String) :
    (compile name source).work.raised = (Stream.ofScanned (Scanned.ofSource name source)).raised
      name (Scanned.ofSource name source).lineCount := by
  unfold work Stream.raised
  rw [Log.raised_append]
  apply congrArg (· ++ _)
  exact Log.raised_append _ _

theorem Scanned.ordered (name source : String) : Ordered (Scanned.ofSource name source).places := by
  obtain ⟨increasing, valid⟩ := Scanned.tokens_ordered name source
  constructor
  · exact increasing
  · intro p member
    obtain ⟨token, isToken, rfl⟩ := List.mem_map.mp member
    exact valid token isToken

theorem rankIn_unknown {places : List Position} (ordered : Ordered places) :
    rankIn places unknown = unknown := by
  unfold rankIn
  rw [if_neg ordered.unknown_not_mem]

theorem within_unknown (places : List Position) : within places unknown = unknown := by
  unfold within
  split <;> rfl

theorem of_within_eq {places : List Position} {p : Position} (kept : within places p = p) :
    p ∈ places ∨ p = unknown := by
  unfold within at kept
  split at kept
  · next member => exact .inl member
  · exact .inr kept.symm

/-- Every remark stands at a place of the source or nowhere: nothing changes when
all other places are forgotten. -/
theorem raised_at_places {name source : String} {kept : List Position}
    (all : ∀ p ∈ (Scanned.ofSource name source).all.flatMap Lexeme.places, p ∈ kept) :
    ∀ d ∈ (compile name source).work.raised, d.pos ∈ kept ∨ d.pos = unknown := by
  let scanned := Scanned.ofSource name source
  have moved := (Stream.ofScanned scanned).relocate_raised (within_unknown kept) name
    scanned.lineCount scanned.lineCount
  -- the lexemes stand where they stood, so what is raised on them is the same
  rw [Scanned.relocate_within all, ← Compilation.raised_work] at moved
  intro d member
  have same : d.relocate (within kept) = d :=
    List.map_inj_left.mp (moved.symm.trans (List.map_id _).symm) d member
  exact of_within_eq (congrArg (fun d : Diagnostic => d.pos) same)

/-- In a source without lexical faults every remark stands at a token or nowhere. -/
theorem raised_at_tokens {name source : String}
    (quiet : (Scanned.ofSource name source).faults = []) :
    ∀ d ∈ (compile name source).work.raised,
      d.pos ∈ (Scanned.ofSource name source).places ∨ d.pos = unknown := by
  apply raised_at_places
  intro p member
  obtain ⟨lexeme, isLexeme, isPlace⟩ := List.mem_flatMap.mp member
  unfold Lexeme.places at isPlace
  rw [Scanned.faults_eq_nil quiet lexeme isLexeme] at isPlace
  rw [List.mem_singleton.mp isPlace]
  exact List.mem_map_of_mem (List.mem_map_of_mem isLexeme)

/-- The report, with every token placed by its rank. -/
theorem relocate_report {name source : String}
    (quiet : (Scanned.ofSource name source).faults = []) :
    relocateAll (rankIn (Scanned.ofSource name source).places)
        (compile name source).report.toList =
      (Report.ofRaised (relocateAll (rankIn (Scanned.ofSource name source).places)
        (compile name source).work.raised)).toList := by
  have keeps := (Scanned.ordered name source).keepsOrder
  rw [Report.relocate_ofRaised keeps (raised_at_tokens quiet)]
  exact (Report.relocate_toList _).symm

/-- Sources without lexical faults whose tokens have the same kinds and texts are
read as the same tree up to positions, and all that is raised on them and all
that is reported agrees in kinds and texts. -/
theorem layout_irrelevant (name left right : String)
    (leftQuiet : (Scanned.ofSource name left).faults = [])
    (rightQuiet : (Scanned.ofSource name right).faults = [])
    (same : (Scanned.ofSource name left).spellings = (Scanned.ofSource name right).spellings) :
    (parse name left).file.name = (parse name right).file.name ∧
    (parse name left).file.decls.map Decl.bare = (parse name right).file.decls.map Decl.bare ∧
    (compile name left).work.raised.map Diagnostic.bare =
      (compile name right).work.raised.map Diagnostic.bare ∧
    (compile name left).report.toList.map Diagnostic.bare =
      (compile name right).report.toList.map Diagnostic.bare := by
  have leftOrdered := Scanned.ordered name left
  have rightOrdered := Scanned.ordered name right
  -- by rank both sources are one stream, and all the rest follows from that
  have streams := Scanned.relocate_stream_eq leftOrdered rightOrdered leftQuiet rightQuiet same
  have raised :
      relocateAll (rankIn (Scanned.ofSource name left).places) (compile name left).work.raised =
      relocateAll (rankIn (Scanned.ofSource name right).places)
        (compile name right).work.raised := by
    rw [Compilation.raised_work, Compilation.raised_work,
      ← Stream.relocate_raised (rankIn_unknown leftOrdered) name _ 0,
      ← Stream.relocate_raised (rankIn_unknown rightOrdered) name _ 0, streams]
  constructor
  · rfl
  constructor
  · rw [parse_file, parse_file, ← File.bare_relocate, ← Stream.relocate_file name _ 0, streams,
      Stream.relocate_file name _ 0, File.bare_relocate]
  constructor
  · exact bare_of_relocateAll_eq raised
  · apply bare_of_relocateAll_eq
    rw [relocate_report leftQuiet, relocate_report rightQuiet, raised]

namespace Layout

/-- A variable that nobody declared, twice on one line. -/
def narrow : String := "void main()\x7bx=x;\x7d"

/-- The same, on two lines. -/
def wide : String := "void main() // entry\n\x7b x =\n /* again */ x; \x7d\n"

end Layout

open Layout in
theorem layout_irrelevant_lines :
    (Scanned.ofSource "x.c" narrow).spellings = (Scanned.ofSource "x.c" wide).spellings ∧
    (compile "x.c" narrow).report.toList.map Diagnostic.bare =
      (compile "x.c" wide).report.toList.map Diagnostic.bare := by
  have narrowQuiet : (Scanned.ofSource "x.c" narrow).faults = [] := by decide +kernel
  have wideQuiet : (Scanned.ofSource "x.c" wide).faults = [] := by decide +kernel
  have same : (Scanned.ofSource "x.c" narrow).spellings =
      (Scanned.ofSource "x.c" wide).spellings := by decide +kernel
  constructor
  · exact same
  · exact (layout_irrelevant "x.c" narrow wide narrowQuiet wideQuiet same).2.2.2

end MiniC
