import MiniC.Compilation
import MiniC.Proofs.Diagnostic.Latest
import MiniC.Proofs.Parser.Passing
import MiniC.Proofs.Token.Tiling

/-!
Reading a source and scanning it alone find the same. The reader passes every
token of the source, the end among them, and raises on its way what the scanner
raises, at the same places and in the same order. Only at the end does it look
again, and then it finds the end.
-/

namespace MiniC

theorem LexicalFault.kind_phase (fault : LexicalFault) : fault.kind.phase = .scanning := by
  cases fault <;> rfl

namespace Cursor

theorem scan_isLexical (cursor : Cursor) : cursor.scan.1.IsLexical := by
  intro d member
  rcases List.mem_append.mp member with inGap | inPiece
  · obtain ⟨placed, _, rfl⟩ := List.mem_map.mp inGap
    exact placed.fault.kind_phase
  · obtain ⟨placed, _, rfl⟩ := List.mem_map.mp inPiece
    exact placed.fault.kind_phase

/-- Every scan finds faults of the scanner's kinds, and only the last one finds
the end. -/
theorem scanAll_found (cursor : Cursor) :
    (∀ lexeme ∈ cursor.scanAll.all, lexeme.IsLexical) ∧
      (∀ lexeme ∈ cursor.scanAll.lexemes, lexeme.token.kind ≠ .eof) ∧
      cursor.scanAll.ending.token.kind = .eof := by
  fun_induction scanAll cursor with
  | case1 cursor found isEnd =>
    exact ⟨List.forall_mem_singleton.mpr cursor.scan_isLexical, List.forall_mem_nil _, isEnd⟩
  | case2 cursor found more later ih =>
    obtain ⟨lexical, present, ending⟩ := ih
    constructor
    · exact List.forall_mem_cons.mpr ⟨cursor.scan_isLexical, lexical⟩
    constructor
    · exact List.forall_mem_cons.mpr ⟨more, present⟩
    · exact ending

end Cursor

namespace Stream

theorem ending_ofScanned (name source : String) :
    (ofScanned (Scanned.ofSource name source)).ending =
      (Scanned.ofSource name source).ending := by
  have whole : Text.IsEncoded ([] ++ (Cursor.atStart name source).rest) :=
    Text.isEncoded_bytes source
  obtain ⟨_, _, tiles⟩ := (Cursor.atStart name source).scanAll_tiles [] whole
  have token := tiles.ending_token
  change (Scanned.ofSource name source).ending.token = _ at token
  have place : (ofScanned (Scanned.ofSource name source)).endPos = _ :=
    congrArg Token.pos token
  unfold ending
  rw [place, ← token]
  rfl

theorem all_ofScanned (name source : String) :
    (ofScanned (Scanned.ofSource name source)).upcoming ++
      [(ofScanned (Scanned.ofSource name source)).ending] =
        (Scanned.ofSource name source).all := by
  rw [ending_ofScanned]
  rfl

/-- The first lexeme of a source and those behind it are all that it has. -/
theorem current_later_ofScanned (name source : String) :
    let stream := ofScanned (Scanned.ofSource name source)
    stream.current :: stream.later = (Scanned.ofSource name source).all := by
  intro stream
  rw [current_cons_later, ending_ofScanned]
  rfl

end Stream

namespace Parser

/-- A loop stops where it takes no more. -/
theorem manyRun_stopped {α : Type} (more : TokenKind → Bool) (item : Parser α) (stream : Stream) :
    takes more (manyRun more item stream).rest = false := by
  fun_induction manyRun more item stream with
  | case1 stream _ first _ ih => exact ih
  | case2 stream stopped => exact Bool.eq_false_iff.mpr stopped

end Parser

/-- The file is read to its end. -/
theorem fileParser_ended (name : String) (lineCount : Nat) (stream : Stream) :
    ((fileParser name lineCount).run stream).rest.upcoming = [] := by
  have stopped := Parser.manyRun_stopped (fun _ => true) topLevelDecl stream
  change Parser.takes _ ((fileParser name lineCount).run stream).rest = false at stopped
  unfold Parser.takes at stopped
  rw [Bool.and_true, decide_eq_false_iff_not, Stream.remaining_eq] at stopped
  exact List.length_eq_zero_iff.mp (Nat.eq_zero_of_not_pos stopped)

/-- What a reading passes on from the scanner: each lexeme of the source, and
then the end some more times. -/
theorem parse_scanned (name source : String) :
    ∃ again, (parse name source).log.scanned =
      ((Scanned.ofSource name source).all ++
        List.replicate again (Scanned.ofSource name source).again).flatMap Lexeme.log := by
  let scanned := Scanned.ofSource name source
  let stream := Stream.ofScanned scanned
  have all : stream.current :: stream.later = scanned.all :=
    Stream.current_later_ofScanned name source
  have lexical : ∀ lexeme ∈ stream.current :: stream.later, lexeme.IsLexical := by
    rw [all]
    exact (Cursor.scanAll_found _).1
  obtain ⟨first, others⟩ := List.forall_mem_cons.mp lexical
  obtain ⟨again, passed⟩ := ((fileParser name scanned.lineCount).passage stream).scanned
    (fileParser_ended name scanned.lineCount stream) others
  use again
  have arrived : stream.arrival.scanned = stream.current.log := first.scanned_log
  change (stream.arrival ++ _).scanned = (scanned.all ++ _).flatMap Lexeme.log
  rw [Log.scanned_append, arrived, passed, ← all, List.cons_append, List.flatMap_cons,
    List.flatMap_append, List.flatMap_replicate, Stream.ending_ofScanned]
  congr 2
  exact (List.flatten_replicate_singleton ..).symm

namespace Lexeme

theorem tokens_flatMap_log (lexemes : List Lexeme) :
    Log.tokens (lexemes.flatMap log) = lexemes.map (·.token) := by
  induction lexemes with
  | nil => rfl
  | cons lexeme rest ih =>
    rw [List.flatMap_cons, Log.tokens_append, tokens_log, ih]
    rfl

theorem raised_flatMap_log (lexemes : List Lexeme) :
    Log.raised (lexemes.flatMap log) = lexemes.flatMap (·.faults) := by
  induction lexemes with
  | nil => rfl
  | cons lexeme rest ih => rw [List.flatMap_cons, Log.raised_append, raised_log, ih, List.flatMap_cons]

end Lexeme

/-- What reading raises of the scanner's kinds is what scanning raises. -/
theorem parse_raised_scanning (name source : String) :
    (parse name source).log.raised.filter (·.kind.phase = .scanning) =
      (tokenize name source).2.raised := by
  let scanned := Scanned.ofSource name source
  obtain ⟨again, passed⟩ := parse_scanned name source
  change (parse name source).log.scanned =
    (scanned.all ++ List.replicate again scanned.again).flatMap _ at passed
  -- looking at the end again raises nothing
  have quiet : (List.replicate again scanned.again).flatMap (·.faults) = [] := by
    apply List.flatMap_eq_nil_iff.mpr
    intro lexeme member
    rw [List.eq_of_mem_replicate member]
    rfl
  rw [← Log.raised_scanned, passed, Lexeme.raised_flatMap_log, List.flatMap_append, quiet,
    List.append_nil]
  exact (Report.raised_ofRaised scanned.faults).symm

/-- A clean source raised nothing while it was read. -/
theorem parse_silent_of_clean {name source : String}
    (clean : (compile name source).isClean = true) : (parse name source).log.raised = [] := by
  have none : (parse name source).log.raised ++ _ = [] :=
    (Log.raised_append ..).symm.trans ((Report.isEmpty_ofRaised_iff _).mp clean)
  exact (List.append_eq_nil_iff.mp none).1

/-- Reading reaches the tokens that scanning gives, each once and in order, and
behind them nothing but the end again; it stops at the end. What it logs of them
is the log of so many scans, and what it raises of the scanner's kinds is what
scanning raises. So a source with a lexical fault is not clean. -/
theorem parse_passes_all_tokens (name source : String) :
    let parsed := parse name source
    let tokens := (tokenize name source).1
    let faults := (tokenize name source).2.raised
    (∃ found ending again, tokens = found ++ [ending] ∧
        (∀ token ∈ found, token.kind ≠ .eof) ∧ ending.kind = .eof ∧
        parsed.log.tokens = tokens ++ List.replicate again ending) ∧
      (∃ scans, parsed.log.scanned =
        ((Cursor.atStart name source).scanMany scans).1.flatMap Lexeme.log) ∧
      ((fileParser name parsed.lineCount).run
        (.ofScanned (Scanned.ofSource name source))).rest.upcoming = [] ∧
      parsed.log.raised.filter (·.kind.phase = .scanning) = faults ∧
      (faults ≠ [] → (compile name source).isClean = false) := by
  intro parsed tokens faults
  let scanned := Scanned.ofSource name source
  obtain ⟨again, passed⟩ := parse_scanned name source
  change parsed.log.scanned = (scanned.all ++ List.replicate again scanned.again).flatMap _ at passed
  obtain ⟨_, present, isEnd⟩ := (Cursor.atStart name source).scanAll_found
  constructor
  · use scanned.lexemes.map (·.token), scanned.ending.token, again
    constructor
    · exact List.map_append
    constructor
    · rintro token member
      obtain ⟨lexeme, found, rfl⟩ := List.mem_map.mp member
      exact present lexeme found
    constructor
    · exact isEnd
    · rw [← Log.tokens_scanned, passed, Lexeme.tokens_flatMap_log, List.map_append,
        List.map_replicate]
      rfl
  constructor
  · use scanned.lexemes.length + 1 + again
    rw [passed, Scanned.scans_ofSource]
  constructor
  · exact fileParser_ended name parsed.lineCount _
  constructor
  · exact parse_raised_scanning name source
  · -- a clean source raised nothing while it was read, and so nothing while it was scanned
    intro faulty
    by_contra clean
    apply faulty
    change (tokenize name source).2.raised = []
    rw [← parse_raised_scanning, parse_silent_of_clean (Bool.not_eq_false _ |>.mp clean)]
    rfl

/-- Faults that stand where the reading has gone wrong as well. -/
theorem parse_passes_all_tokens_faulty :
    (tokenize "m.c" "int a = ) 'xy' $ /*").2.raised ≠ [] ∧
      (compile "m.c" "int a = ) 'xy' $ /*").isClean = false := by
  have faulty : (tokenize "m.c" "int a = ) 'xy' $ /*").2.raised ≠ [] := by decide +kernel
  exact ⟨faulty, (parse_passes_all_tokens "m.c" "int a = ) 'xy' $ /*").2.2.2.2 faulty⟩

end MiniC
