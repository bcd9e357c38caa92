import MiniC.Proofs.Syntax.Recovers

/-!
The text that is left inside braces. It is that of statements with clauses
behind them, and it is of that form again wherever skipping ends in it: at the
closing brace, or at the last semicolon of a statement, which is then read as an
empty one. A clause may be left for another behind it.
-/

namespace MiniC

open MiniC.Parser

namespace Stmt

/-- Statements and clauses up to a closing brace. -/
def sequel (stmts clauses : List Stmt) (text : List Written) : List Written :=
  printedAll stmts ++ (printedAll clauses ++ .symbol .rBrace :: text)

/-- Statements, and clauses behind them, whose reading on a level stays in step. -/
structure Sound (levels : Nat) (stmts clauses : List Stmt) : Prop where
  grammatical : ∀ t ∈ stmts, t.Grammatical
  areClauses : ∀ t ∈ clauses, t.IsClause ∧ t.labelLevels ≤ levels
  recovers : ∀ t ∈ stmts ++ bodies clauses, t.Recovers levels
  inStep : InStep levels (stmts ++ bodies clauses)

theorem InStep.subset {levels : Nat} {fewer stmts : List Stmt} (inStep : InStep levels stmts)
    (within : fewer ⊆ stmts) : InStep levels fewer :=
  inStep.imp (fun bounded t member => bounded t (within member))
    fun behind t member => behind t (within member)

theorem bodies_subset {fewer clauses : List Stmt} (within : fewer ⊆ clauses) :
    bodies fewer ⊆ bodies clauses := by
  intro t member
  obtain ⟨clause, isClause, isWithin⟩ := List.mem_flatMap.mp member
  exact List.mem_flatMap.mpr ⟨clause, within isClause, isWithin⟩

theorem last_subset {left stmts : List Stmt} (within : left <:+ stmts) (later : List Stmt) :
    left ++ later ⊆ stmts ++ later :=
  List.append_subset.mpr ⟨fun _ member => List.mem_append_left later (within.subset member),
    List.subset_append_right _ _⟩

namespace Sound

variable {levels : Nat} {t : Stmt} {stmts clauses : List Stmt}

theorem last {left : List Stmt} (sound : Sound levels stmts clauses) (within : left <:+ stmts) :
    Sound levels left clauses where
  grammatical u member := sound.grammatical u (within.subset member)
  areClauses := sound.areClauses
  recovers u member := sound.recovers u (last_subset within _ member)
  inStep := sound.inStep.subset (last_subset within _)

/-- The statements of the first clause are next. -/
theorem enter {pos : Position} {label : Option Expr} {body later : List Stmt}
    (sound : Sound levels [] (clause pos label body :: later)) : Sound levels body later where
  grammatical := (allGrammatical_iff body).mp (sound.areClauses _ List.mem_cons_self).1.2
  areClauses u member := sound.areClauses u (List.mem_cons_of_mem _ member)
  recovers := sound.recovers
  inStep := sound.inStep

theorem within {fewer : List Stmt} (sound : Sound levels [] clauses) (suffix : fewer <:+ clauses) :
    Sound levels [] fewer where
  grammatical := nofun
  areClauses u member := sound.areClauses u (suffix.subset member)
  recovers u member := sound.recovers u (bodies_subset suffix.subset member)
  inStep := sound.inStep.subset (bodies_subset suffix.subset)

/-- A semicolon alone is a statement like the others. -/
theorem semicolon (sound : Sound levels stmts clauses) (pos : Position)
    (behind : ∀ u ∈ stmts ++ bodies clauses, u.ElseBehindBrace) :
    Sound levels (.empty pos :: stmts) clauses where
  grammatical := List.forall_mem_cons.mpr ⟨trivial, sound.grammatical⟩
  areClauses := sound.areClauses
  recovers := List.forall_mem_cons.mpr ⟨by cases levels <;> trivial, sound.recovers⟩
  inStep := .inr (List.forall_mem_cons.mpr ⟨trivial, behind⟩)

/-- What stands in braces begins with no `else`. -/
theorem front_ne_else (sound : Sound levels stmts clauses) {text : List Written}
    {from_ rest : List Lexeme} (spelled : Spelled (sequel stmts clauses text) from_ rest) :
    frontKind from_ ≠ .elseKw := by
  cases stmts with
  | cons t stmts =>
    obtain ⟨written, later, shape, starts⟩ :=
      t.printed_starts (sound.grammatical t List.mem_cons_self)
    rw [sequel, printedAll, shape] at spelled
    rw [spelled.frontKind_eq]
    exact fun same => by simp [same, startsStmt, startsExpr] at starts
  | nil =>
    cases clauses with
    | cons t clauses =>
      obtain ⟨written, later, shape, starts⟩ :=
        (sound.areClauses t List.mem_cons_self).1.printed_starts
      rw [sequel, printedAll, printedAll, shape] at spelled
      rw [spelled.frontKind_eq]
      rcases starts with same | same <;> rw [same] <;> decide
    | nil =>
      rw [spelled.frontKind_eq]
      decide

end Sound

/-- Skipping from within a list of statements ends at a semicolon of one of
them, or behind the list as it would from there. -/
theorem skipped_stmts {stmts : List Stmt} (grammatical : ∀ t ∈ stmts, t.Grammatical)
    (behind : ∀ t ∈ stmts, t.ElseBehindBrace) {tail : List Written} {from_ rest : List Lexeme}
    (spelled : Spelled (printedAll stmts ++ tail) from_ rest) :
    (∃ left, left <:+ stmts ∧
      Spelled (.symbol .semicolon :: printedAll left ++ tail) (skipped from_) rest) ∨
    ∃ middle, Spelled tail middle rest ∧ skipped from_ = skipped middle := by
  induction stmts generalizing from_ with
  | nil => exact .inr ⟨from_, spelled, rfl⟩
  | cons t later ih =>
    obtain ⟨goodFirst, goodLater⟩ := List.forall_mem_cons.mp grammatical
    obtain ⟨behindFirst, behindLater⟩ := List.forall_mem_cons.mp behind
    obtain ⟨text, skips, shape⟩ := behindFirst.printed_skips t goodFirst
    rw [printedAll, shape, List.append_assoc, List.append_assoc] at spelled
    obtain ⟨middle, sooner, spelled⟩ := spelled.split
    rw [skips.skipped_eq sooner]
    cases ends : t.endsInSemicolon with
    | true =>
      rw [ending, ends] at spelled
      rw [skipped_of_ends (by rw [spelled.frontKind_eq]; rfl)]
      exact .inl ⟨later, List.suffix_cons t later, spelled⟩
    | false =>
      rw [ending, ends] at spelled
      refine (ih goodLater behindLater spelled).imp_left ?_
      rintro ⟨left, within, spelled⟩
      exact ⟨left, within.trans (List.suffix_cons t later), spelled⟩

/-- Where skipping ends in braces, the reading is in step. -/
theorem Sound.skipped {levels : Nat} {stmts clauses : List Stmt} {text : List Written}
    {from_ rest : List Lexeme} (sound : Sound levels stmts clauses)
    (behind : ∀ t ∈ stmts ++ bodies clauses, t.ElseBehindBrace)
    (spelled : Spelled (sequel stmts clauses text) from_ rest) :
    ∃ left later, later <:+ clauses ∧ Sound levels left later ∧
      Spelled (sequel left later text) (skipped from_) rest := by
  induction clauses generalizing stmts from_ with
  | nil =>
    have behindStmts := fun t member => behind t (List.mem_append_left _ member)
    rcases skipped_stmts sound.grammatical behindStmts spelled with
      ⟨left, within, spelled⟩ | ⟨middle, spelled, same⟩
    · refine ⟨.empty .unknown :: left, [], List.suffix_rfl, ?_, spelled⟩
      exact (sound.last within).semicolon _ fun u member => behind u (last_subset within _ member)
    · refine ⟨[], [], List.suffix_rfl, sound.last List.nil_suffix, ?_⟩
      rw [same, skipped_of_ends (by rw [spelled.frontKind_eq]; rfl)]
      exact spelled
  | cons clause later ih =>
    have behindStmts := fun t member => behind t (List.mem_append_left _ member)
    rcases skipped_stmts sound.grammatical behindStmts spelled with
      ⟨left, within, spelled⟩ | ⟨middle, spelled, same⟩
    · refine ⟨.empty .unknown :: left, clause :: later, List.suffix_rfl, ?_, spelled⟩
      exact (sound.last within).semicolon _ fun u member => behind u (last_subset within _ member)
    · have leave : Sound levels [] (clause :: later) := sound.last List.nil_suffix
      obtain ⟨isClause, _⟩ := leave.areClauses clause List.mem_cons_self
      cases clause with
      | clause pos label body =>
        -- The label is passed, and the statements behind it come next.
        rw [printedAll, printed, List.append_assoc, List.append_assoc] at spelled
        obtain ⟨inside, sooner, spelled⟩ := spelled.split
        rw [same, (Expr.printedLabel_skips label).skipped_eq sooner]
        obtain ⟨left, last, within, ended⟩ := ih leave.enter
          (fun u member => behind u (List.mem_append_right _ member)) spelled
        exact ⟨left, last, within.trans (List.suffix_cons _ _), ended⟩
      | _ => exact isClause.elim

end Stmt

end MiniC
