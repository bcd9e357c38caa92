import MiniC.Command
import MiniC.Proofs.Decl.Words
import MiniC.Proofs.Diagnostic.Latest
import MiniC.Proofs.Parsed.Scanning
import MiniC.Proofs.Stmt.OneLine

/-!
One line of output for each item. What is found in a source is told in words of one
line, however the source is broken, if its name is of one line. So a printed report
has a line for each remark it keeps, and a listing of tokens has one for each of them.
-/

namespace MiniC

open Text (IsLine bytes newline)

theorem Position.display_lined (pos : Position) : IsLine pos.display := by
  unfold display
  split
  · have opened := (by decide : IsLine "(").append (Text.isLine_toString pos.line)
    have divided := (opened.append (by decide : IsLine ", ")).append
      (Text.isLine_toString pos.column)
    exact divided.append (by decide : IsLine ")")
  · decide

theorem Diagnostic.display_lined {d : Diagnostic} (lined : d.IsLined) : IsLine d.display :=
  (d.pos.display_lined.append (by decide : IsLine " :: ")).append lined

theorem TokenKind.code_lined (kind : TokenKind) : IsLine kind.code := by
  cases kind <;> decide

/-- Without its quotes a text has no new characters. -/
theorem Token.content_lined {token : Token} (lined : IsLine token.text) : IsLine token.content := by
  unfold content
  split
  · exact lined
  dsimp only
  split
  · refine Text.isLine_ofList fun isBreak => ?_
    exact lined (List.mem_of_mem_tail (List.mem_of_mem_dropLast isBreak))
  · exact lined

/-- The line of a listing without the newline that ends it. -/
def Token.entry (token : Token) : String := token.kind.code ++ " " ++ token.content

theorem Token.entry_lined {token : Token} (lined : IsLine token.text) : IsLine token.entry :=
  (token.kind.code_lined.append (by decide)).append (Token.content_lined lined)

theorem listing_eq (tokens : List Token) :
    listing tokens =
      String.join (((tokens.filter (·.kind ≠ .eof)).map Token.entry).map (· ++ "\n")) := by
  rw [List.map_map]
  rfl

namespace Report

variable {raised : List Diagnostic}

theorem mem_of_mem_toList {d : Diagnostic} (kept : d ∈ (ofRaised raised).toList) : d ∈ raised := by
  rcases List.mem_append.mp kept with isPlaced | isUnplaced
  · obtain ⟨_, sooner, later, rfl, _⟩ :=
      ((placed_spec raised).2 d).mp (List.mem_reverse.mp isPlaced)
    exact List.mem_append_right _ (List.mem_cons_self ..)
  · rw [unplaced_eq] at isUnplaced
    exact List.mem_of_mem_filter isUnplaced

theorem display_lined (lined : ∀ d ∈ raised, d.IsLined) :
    ∀ line ∈ (ofRaised raised).toList.map Diagnostic.display, IsLine line :=
  List.forall_mem_map.mpr fun d kept => Diagnostic.display_lined (lined d (mem_of_mem_toList kept))

theorem render_eq (report : Report) :
    report.render = String.join ((report.toList.map Diagnostic.display).map (· ++ "\n")) := by
  rw [List.map_map]
  rfl

end Report

theorem Scanned.ofSource_lined (name source : String) :
    ∀ lexeme ∈ (Scanned.ofSource name source).all, lexeme.IsLined :=
  (Cursor.atStart name source).scanAll_lined

theorem Stream.ofScanned_lined (name source : String) :
    (ofScanned (Scanned.ofSource name source)).IsLined := by
  unfold IsLined
  rw [all_ofScanned]
  exact Scanned.ofSource_lined name source

theorem tokenize_lined (name source : String) :
    (∀ token ∈ (tokenize name source).1, IsLine token.text) ∧
      ∀ d ∈ (tokenize name source).2.raised, d.IsLined := by
  have lined := Scanned.ofSource_lined name source
  constructor
  · exact List.forall_mem_map.mpr fun lexeme member => (lined lexeme member).text
  · intro d member
    change d ∈ (Report.ofRaised (Scanned.ofSource name source).faults).raised at member
    rw [Report.raised_ofRaised] at member
    obtain ⟨lexeme, found, isFault⟩ := List.mem_flatMap.mp member
    exact (lined lexeme found).faults d isFault

/-- Nothing is in scope when the check starts, so all that it quotes is in the tree. -/
theorem compile_lined {name : String} (source : String) (named : IsLine name) :
    (compile name source).work.IsLined := by
  have stream := Stream.ofScanned_lined name source
  obtain ⟨file, reading⟩ := fileParser_lined name (Scanned.ofSource name source).lineCount _ stream
  have empty : CheckState.start.scope.IsNamed IsLine := nofun
  exact (stream.arrival.append reading).append (File.check_lined file named empty)

/-- Every message raised and every token's text is of one line. A report is printed
as one line for each remark it keeps, and a listing as one line for each token but
the end, followed by such a report of the scanning. -/
theorem prints_line_by_line (name source : String) (named : newline ∉ bytes name) :
    let compiled := compile name source
    let tokens := (tokenize name source).1
    let lexical := (tokenize name source).2
    (∀ d ∈ compiled.work.raised, newline ∉ bytes d.message) ∧
      (∀ d ∈ lexical.raised, newline ∉ bytes d.message) ∧
      (∀ token ∈ tokens, newline ∉ bytes token.text) ∧
      Text.lines compiled.report.render = (compiled.report.toList.map Diagnostic.display, "") ∧
      (Text.lines compiled.report.render).1.length = compiled.report.size ∧
      ∀ command : Command, command.input = name → command.emit = .tokens →
        Text.lines (command.product source).text =
          ((tokens.filter (·.kind ≠ .eof)).map Token.entry ++
            lexical.toList.map Diagnostic.display, "") := by
  intro compiled tokens lexical
  have work := compile_lined source (Text.isLine_iff.mpr named)
  obtain ⟨texts, faults⟩ := tokenize_lined name source
  have rendered :
      Text.lines compiled.report.render = (compiled.report.toList.map Diagnostic.display, "") := by
    rw [Report.render_eq]
    exact Text.lines_join (Report.display_lined work)
  refine ⟨fun d member => Text.isLine_iff.mp (work d member),
    fun d member => Text.isLine_iff.mp (faults d member),
    fun token member => Text.isLine_iff.mp (texts token member), rendered, ?size, ?listing⟩
  case size =>
    rw [rendered]
    exact List.length_map _
  case listing =>
    rintro command rfl emits
    have printed : (command.product source).text = String.join
        (((tokens.filter (·.kind ≠ .eof)).map Token.entry ++
          lexical.toList.map Diagnostic.display).map (· ++ "\n")) := by
      have product : (command.product source).text = listing tokens ++ lexical.render := by
        unfold Command.product
        rw [emits]
      rw [product, Report.render_eq, listing_eq, List.map_append, String.join_append]
    -- it splits where the newlines were put if there are no others
    rw [printed]
    refine Text.lines_join (List.forall_mem_append.mpr ⟨?_, ?_⟩)
    · exact List.forall_mem_map.mpr fun token kept =>
        Token.entry_lined (texts token (List.mem_of_mem_filter kept))
    · change ∀ d ∈ (Report.ofRaised _).raised, _ at faults
      rw [Report.raised_ofRaised] at faults
      exact Report.display_lined faults

/-- A literal and an escape that the end of the line cuts off. -/
theorem prints_line_by_line_cut :
    newline ∉ bytes "cut.c" ∧
      Text.lines (Command.product { input := "cut.c", emit := .tokens } "int 'x\n\"\\\n").text =
        (["INTTK int", "CHARCON 'x", "STRCON \"\\", "(1, 5) :: char literal not terminated",
          "(2, 1) :: string literal not terminated",
          "(2, 3) :: escape sequence not terminated"], "") := by
  have named : newline ∉ bytes "cut.c" := by decide
  refine ⟨named, ?_⟩
  rw [(prints_line_by_line "cut.c" _ named).2.2.2.2.2 _ rfl rfl]
  decide +kernel

end MiniC
