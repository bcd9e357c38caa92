import MiniC.Stmt.Parser
import MiniC.Proofs.Decl.Sound

/-!
Statements that were read without a problem. A statement that ends in an open
`if` is not followed by an `else`, as that `if` would have taken it.
-/

namespace MiniC

open MiniC.Parser
open Written (commas)

structure SoundContext (inner : StmtContext Parser) : Prop where
  expr : SoundExpr inner.expr
  stmt : SoundStmt inner.stmt

namespace SoundContext

variable {inner : StmtContext Parser} (sound : SoundContext inner)

include sound

theorem simple (s : Stream) :
    Quiet inner.simple s fun t r => t.Grammatical ∧ Spelled t.printed s.upcoming r.upcoming := by
  refine Quiet.bind_position (Quiet.bind (sound.expr s) fun target middle read => ?_)
  refine Quiet.bind (Quiet.accept rfl) fun taken next assigned => ?_
  rcases assigned with ⟨rfl, _, assigned⟩ | ⟨rfl, _, rfl⟩
  · refine Quiet.bind (sound.expr next) fun value r readValue => Quiet.pure ?_
    exact ⟨⟨read.1, readValue.1⟩, read.2.append (assigned.append readValue.2)⟩
  · exact Quiet.pure read

theorem header (close : TokenKind) (s : Stream) :
    Quiet (inner.header close) s fun t r =>
      (∀ part ∈ t, part.Grammatical) ∧
        Spelled (Simple.printedHeader t) s.upcoming r.upcoming := by
  refine Quiet.bind_peekKind (Quiet.ite (fun _ => Quiet.pure ⟨by simp, .nil _⟩) fun _ => ?_)
  exact Quiet.map ((sound.simple s).mono fun t r read => ⟨by simpa using read.1, read.2⟩)

theorem condition (s : Stream) :
    Quiet inner.condition s fun e r =>
      e.Grammatical ∧ Spelled e.printedCondition s.upcoming r.upcoming := by
  refine Quiet.bind (Quiet.require rfl) fun _ middle opened => ?_
  refine Quiet.bind (sound.expr middle) fun cond closing read => ?_
  refine Quiet.bind (Quiet.require rfl) fun _ r closed => Quiet.pure ?_
  exact ⟨read.1, (opened.append read.2).append closed⟩

theorem declStmt (pos : Position) (s : Stream) :
    Quiet (inner.declStmt pos) s (Stmt.Read s.upcoming) := by
  refine Quiet.bind (declaration_sound sound.expr sound.stmt false s) ?_
  rintro decl r ⟨good, isVars, spelled⟩
  refine Quiet.pure ?_
  cases decl with
  | vars _ vars => exact ⟨good, nofun, spelled⟩
  | _ => simp [Decl.vars?] at isVars

theorem simpleStmt (s : Stream) : Quiet inner.simpleStmt s (Stmt.Read s.upcoming) := by
  refine Quiet.bind (sound.simple s) fun t middle read => ?_
  refine Quiet.bind (Quiet.require rfl) fun _ r closed => Quiet.pure ?_
  exact ⟨read.1, nofun, read.2.append closed⟩

theorem block (pos : Position) (s : Stream) :
    Quiet (inner.block pos) s (Stmt.Read s.upcoming) := by
  refine Quiet.bind (braced_sound sound.stmt s) ?_
  rintro _ r ⟨body, rfl, good, spelled⟩
  exact Quiet.pure ⟨good, nofun, spelled⟩

/-- An `else` that is there has been taken, so one branch or the other tells
what may follow. -/
theorem branch (pos : Position) (s : Stream) :
    Quiet (inner.branch pos) s (Stmt.Read s.upcoming) := by
  refine Quiet.bind (Quiet.require rfl) fun _ opening begun => ?_
  refine Quiet.bind (sound.condition opening) fun cond middle tested => ?_
  refine Quiet.bind (sound.stmt middle) fun yes behind readYes => ?_
  have head := (begun.append tested.2).append readYes.spelled
  refine Quiet.bind (Quiet.accept rfl) fun taken next joined => ?_
  rcases joined with ⟨rfl, isElse, joined⟩ | ⟨rfl, notElse, rfl⟩
  · refine Quiet.bind (sound.stmt next) fun no r readNo => Quiet.pure ?_
    have closed : yes.dangles = false := by
      cases dangling : yes.dangles with
      | false => rfl
      | true => exact absurd isElse (readYes.closed dangling)
    exact ⟨⟨tested.1, readYes.grammatical, closed, readNo.grammatical⟩, readNo.closed,
      head.append (joined.append readNo.spelled)⟩
  · exact Quiet.pure ⟨⟨tested.1, readYes.grammatical⟩, fun _ => notElse, head⟩

theorem whileLoop (pos : Position) (s : Stream) :
    Quiet (inner.whileLoop pos) s (Stmt.Read s.upcoming) := by
  refine Quiet.bind (Quiet.require rfl) fun _ opening begun => ?_
  refine Quiet.bind (sound.condition opening) fun cond middle tested => ?_
  refine Quiet.bind (sound.stmt middle) fun body r read => Quiet.pure ?_
  exact ⟨⟨tested.1, read.grammatical⟩, read.closed, (begun.append tested.2).append read.spelled⟩

theorem forLoop (pos : Position) (s : Stream) :
    Quiet (inner.forLoop pos) s (Stmt.Read s.upcoming) := by
  refine Quiet.bind (Quiet.require rfl) fun _ _ begun => ?_
  refine Quiet.bind (Quiet.require rfl) fun _ _ opened => ?_
  refine Quiet.bind (sound.header _ _) fun init _ first => ?_
  refine Quiet.bind (Quiet.require rfl) fun _ _ firstEnd => ?_
  refine Quiet.bind (sound.header _ _) fun cond _ second => ?_
  refine Quiet.bind (Quiet.require rfl) fun _ _ secondEnd => ?_
  refine Quiet.bind (sound.header _ _) fun next _ third => ?_
  refine Quiet.bind (Quiet.require rfl) fun _ _ closed => ?_
  refine Quiet.bind (sound.stmt _) fun body r read => Quiet.pure ?_
  have head := begun.append (opened.append first.2)
  have tail := closed.append read.spelled
  refine ⟨⟨first.1, second.1, third.1, read.grammatical⟩, read.closed, ?_⟩
  simpa [Stmt.printed] using
    head.append (firstEnd.append (second.2.append (secondEnd.append (third.2.append tail))))

theorem label (s : Stream) :
    Quiet inner.label s fun label r => (∀ e ∈ label, e.Grammatical) ∧
      ∀ rest, Spelled [.symbol .colon] r.upcoming rest →
        Spelled (Expr.printedLabel label) s.upcoming rest := by
  refine Quiet.bind (Quiet.accept rfl) fun taken middle isDefault => ?_
  rcases isDefault with ⟨rfl, _, isDefault⟩ | ⟨rfl, _, rfl⟩
  · exact Quiet.pure ⟨by simp, fun rest colon => isDefault.append colon⟩
  · refine Quiet.bind (Quiet.require rfl) fun _ next isCase => ?_
    refine Quiet.map ((sound.expr next).mono fun e r read => ?_)
    exact ⟨by simpa using read.1, fun rest colon => (isCase.append read.2).append colon⟩

theorem clause (s : Stream) :
    Quiet inner.clause s fun t r => t.IsClause ∧ Spelled t.printed s.upcoming r.upcoming := by
  refine Quiet.bind_position (Quiet.bind (sound.label s) fun label middle labelled => ?_)
  refine Quiet.bind (Quiet.require rfl) fun _ next colon => ?_
  refine Quiet.bind (stmts_sound sound.stmt _ next) fun body r read => Quiet.pure ?_
  exact ⟨⟨labelled.1, read.1⟩, (labelled.2 _ colon).append read.2.1⟩

theorem clause? (s : Stream) :
    Quiet inner.clause? s fun t r =>
      ∃ clause, t = some clause ∧ clause.IsClause ∧
        Spelled clause.printed s.upcoming r.upcoming := by
  refine Quiet.bind_peekKind ?_
  split
  · exact Quiet.map ((sound.clause s).mono fun t r read => ⟨t, rfl, read⟩)
  · exact Quiet.map ((sound.clause s).mono fun t r read => ⟨t, rfl, read⟩)
  · exact Quiet.bind_missing

omit sound in
theorem exists_clauses (found : List (Option Stmt))
    (good : ∀ t ∈ found, ∃ clause, t = some clause ∧ clause.IsClause) :
    ∃ clauses, found = clauses.map some ∧ Stmt.AllClauses clauses := by
  induction found with
  | nil => exact ⟨[], rfl, trivial⟩
  | cons t rest ih =>
    obtain ⟨⟨clause, rfl, isClause⟩, later⟩ := List.forall_mem_cons.mp good
    obtain ⟨clauses, rfl, others⟩ := ih later
    rw [Stmt.allClauses_iff] at others
    exact ⟨clause :: clauses, rfl,
      (Stmt.allClauses_iff _).mpr (List.forall_mem_cons.mpr ⟨isClause, others⟩)⟩

theorem switch (pos : Position) (s : Stream) :
    Quiet (inner.switch pos) s (Stmt.Read s.upcoming) := by
  refine Quiet.bind (Quiet.require rfl) fun _ opening begun => ?_
  refine Quiet.bind (sound.condition opening) fun subject middle tested => ?_
  refine Quiet.bind (Quiet.require rfl) fun _ inside opened => ?_
  have loop : Quiet (manyWhile (· ≠ .rBrace) inner.clause?) inside fun found r =>
      (∀ t ∈ found, ∃ clause, t = some clause ∧ clause.IsClause) ∧
        Spelled (found.flatMap fun t => (t.map Stmt.printed).getD []) inside.upcoming r.upcoming ∧
          takes (· ≠ .rBrace) r = false := by
    refine Quiet.manyWhile fun s _ => (sound.clause? s).mono ?_
    rintro _ r ⟨clause, rfl, isClause, spelled⟩
    exact ⟨⟨clause, rfl, isClause⟩, spelled, ne_nil_of_starts isClause.printed_starts⟩
  refine Quiet.bind loop fun found closing read => ?_
  refine Quiet.bind (Quiet.require rfl) fun _ r closed => Quiet.pure ?_
  obtain ⟨clauses, rfl, areClauses⟩ := exists_clauses found read.1
  have listed : (clauses.map some).filterMap id = clauses := by simp [List.filterMap_map]
  have head := (begun.append tested.2).append opened
  rw [listed]
  refine ⟨⟨tested.1, areClauses⟩, nofun, ?_⟩
  simpa [Stmt.printed, Stmt.printedAll_eq, List.flatMap_map] using
    head.append (read.2.1.append closed)

theorem print (pos : Position) (s : Stream) :
    Quiet (inner.print pos) s (Stmt.Read s.upcoming) := by
  refine Quiet.bind (Quiet.require rfl) fun _ _ begun => ?_
  refine Quiet.bind (Quiet.require rfl) fun _ _ opened => ?_
  refine Quiet.bind (Quiet.commaList sound.expr) fun args _ read => ?_
  refine Quiet.bind (Quiet.require rfl) fun _ _ closed => ?_
  refine Quiet.bind (Quiet.require rfl) fun _ r ended => Quiet.pure ⟨read.1, nofun, ?_⟩
  rw [Stmt.printed, Expr.printedEach_eq_map]
  exact (begun.append (opened.append read.2)).append (closed.append ended)

theorem scan (pos : Position) (s : Stream) :
    Quiet (inner.scan pos) s (Stmt.Read s.upcoming) := by
  refine Quiet.bind (Quiet.require rfl) fun _ _ begun => ?_
  refine Quiet.bind (sound.condition _) fun target _ read => ?_
  refine Quiet.bind (Quiet.require rfl) fun _ r ended => Quiet.pure ?_
  exact ⟨read.1, nofun, (begun.append read.2).append ended⟩

theorem ret (pos : Position) (s : Stream) :
    Quiet (inner.ret pos) s (Stmt.Read s.upcoming) := by
  refine Quiet.bind (Quiet.require rfl) fun _ middle begun => ?_
  refine Quiet.bind_peekKind (Quiet.ite (fun _ => ?_) fun _ => ?_)
  · refine Quiet.bind_pure (Quiet.bind (Quiet.require rfl) fun _ r ended => Quiet.pure ?_)
    exact ⟨nofun, nofun, begun.append ended⟩
  · have valued : Quiet (some <$> inner.expr) middle fun value r =>
        ∃ e, value = some e ∧ e.Grammatical ∧ Spelled e.printed middle.upcoming r.upcoming :=
      Quiet.map ((sound.expr middle).mono fun e r read => ⟨e, rfl, read⟩)
    refine Quiet.bind valued ?_
    rintro _ _ ⟨e, rfl, good, spelled⟩
    refine Quiet.bind (Quiet.require rfl) fun _ r ended => Quiet.pure ?_
    exact ⟨by simpa [Stmt.Grammatical] using good, nofun, (begun.append spelled).append ended⟩

theorem any : SoundStmt inner.any := by
  intro s
  refine Quiet.bind_peek ?_
  split
  case h_1 | h_2 | h_3 | h_4 => exact sound.declStmt _ s
  case h_5 | h_6 | h_7 | h_8 | h_9 | h_10 | h_11 | h_12 => exact sound.simpleStmt s
  case h_13 => exact sound.branch _ s
  case h_14 => exact sound.whileLoop _ s
  case h_15 => exact sound.forLoop _ s
  case h_16 => exact sound.switch _ s
  case h_17 => exact sound.block _ s
  case h_18 => exact sound.print _ s
  case h_19 => exact sound.scan _ s
  case h_20 => exact sound.ret _ s
  case h_21 isEmpty =>
    refine Quiet.bind (Quiet.advance_symbol isEmpty rfl) fun _ r passed => Quiet.pure ?_
    exact ⟨trivial, nofun, passed⟩
  case h_22 | h_23 | h_24 => exact Quiet.bind_missing

end SoundContext

theorem statement_sound (levels : Nat) : SoundStmt (statement levels) := by
  induction levels with
  | zero => exact fun s => Quiet.bind_position Quiet.bind_refuseDepth
  | succ levels ih => exact SoundContext.any ⟨expression_sound levels, ih⟩

theorem topLevelDecl_sound (s : Stream) :
    Quiet topLevelDecl s fun decl r =>
      decl.Grammatical ∧ Spelled decl.printed s.upcoming r.upcoming :=
  (declaration_sound (expression_sound _) (statement_sound _) true s).mono
    fun _ _ read => ⟨read.1, read.2.2⟩

/-- A file read without a problem has been read to its end. -/
theorem fileParser_sound (name : String) (lineCount : Nat) (s : Stream) :
    Quiet (fileParser name lineCount) s fun file _ =>
      file.Grammatical ∧ Spelled file.printed s.upcoming [] := by
  have loop : Quiet (manyWhile (fun _ => true) topLevelDecl) s fun decls r =>
      (∀ decl ∈ decls, decl.Grammatical) ∧
        Spelled (decls.flatMap Decl.printed) s.upcoming r.upcoming ∧
          takes (fun _ => true) r = false :=
    Quiet.manyWhile fun s _ => (topLevelDecl_sound s).mono fun decl r read =>
      ⟨read.1, read.2, ne_nil_of_starts (Decl.printed_starts read.1)⟩
  refine Quiet.bind loop fun decls r read => ?_
  refine Quiet.bind (P := fun _ rest => rest = r) (fun _ _ => rfl) fun _ _ _ => Quiet.pure ?_
  have ended : r.upcoming = [] := by
    have none := read.2.2
    simp only [takes, Bool.and_true, decide_eq_false_iff_not, r.remaining_eq] at none
    exact List.length_eq_zero_iff.mp (by omega)
  exact ⟨read.1, ended ▸ read.2.1⟩

end MiniC
