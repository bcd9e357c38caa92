import MiniC.Proofs.Decl.Along
import MiniC.Proofs.Stmt.Shaped
import MiniC.Proofs.Stmt.Sound

/-!
Statements lie along their tokens, each from its first token on, and so do the
declarations of a file. What is no clause in a switch has been reported, and leaves
nothing on the course.
-/

namespace MiniC

open MiniC.Parser
open Waypoint (symbol commas)

variable {close : Prop}

namespace StmtContext

structure Follow (close : Prop) (inner : StmtContext Parser) : Prop where
  expr : Follows close inner.expr Expr.course
  stmt : Follows close inner.stmt Stmt.course
  sound : SoundStmt inner.stmt

namespace Follow

variable {inner : StmtContext Parser} (follow : inner.Follow close)

include follow

theorem simple : Follows close inner.simple Simple.course := by
  intro s
  refine Tracks.position (Tracks.bind (follow.expr s) fun target middle along => ?_)
  refine Tracks.accept (by decide) (fun assigned => ?_) (Tracks.pure (.node _ along))
  refine Tracks.bind (follow.expr _) fun value r further => Tracks.pure ?_
  exact .node _ (along.append (assigned.append further))

theorem header (kind : TokenKind) : Follows close (inner.header kind) Simple.headerCourse := by
  intro s
  refine Tracks.peekKind (Tracks.ite (fun _ => Tracks.pure (.done s)) fun _ => ?_)
  exact Tracks.map (follow.simple s)

theorem condition : Follows close inner.condition Expr.conditionCourse := by
  intro s
  refine Tracks.require (by decide) fun opened => ?_
  refine Tracks.bind (follow.expr _) fun cond r along => ?_
  exact Tracks.require (by decide) fun closed => Tracks.pure (opened.append (along.append closed))

theorem simpleStmt : Follows close inner.simpleStmt Stmt.course := by
  intro s
  refine Tracks.bind (follow.simple s) fun t r along => ?_
  exact Tracks.require (by decide) fun ended => Tracks.pure (along.append ended)

section Behind

variable (s : Stream)

theorem declStmt : Tracks close (inner.declStmt s.token.pos) s fun t r =>
    Along close t.course s r := by
  refine Tracks.bind ((declaration_along follow.expr follow.stmt follow.sound false s).gives
    declaration_local) ?_
  rintro decl r ⟨⟨same, along⟩, isLocal⟩
  refine Tracks.pure ?_
  cases decl with
  | bad pos =>
    subst same
    exact .node _ along
  | func => cases isLocal
  | vars pos v =>
    subst same
    exact .node _ along

theorem block : Tracks close (inner.block s.token.pos) s fun t r => Along close t.course s r := by
  refine Tracks.bind (braced_along follow.stmt follow.sound s).rest ?_
  rintro body r ⟨⟨ended, along⟩, isRest⟩
  refine Tracks.pure ?_
  cases body with
  | none => exact .node _ (.gone (ended rfl) isRest)
  | some stmts => exact .node _ (along stmts rfl)

theorem branch : Tracks close (inner.branch s.token.pos) s fun t r => Along close t.course s r := by
  refine Tracks.require (by decide) fun begun => ?_
  refine Tracks.bind (follow.condition _) fun cond _ tested => ?_
  refine Tracks.bind (follow.stmt _) fun yes _ along => ?_
  have head := begun.append (tested.append along)
  refine Tracks.accept (by decide) (fun joined => ?_) (Tracks.pure (.node _ head))
  refine Tracks.bind (follow.stmt _) fun no r other => Tracks.pure ?_
  exact .node _ (begun.append (tested.append (along.append (joined.append other))))

theorem whileLoop : Tracks close (inner.whileLoop s.token.pos) s fun t r =>
    Along close t.course s r := by
  refine Tracks.require (by decide) fun begun => ?_
  refine Tracks.bind (follow.condition _) fun cond _ tested => ?_
  refine Tracks.bind (follow.stmt _) fun body r along => Tracks.pure ?_
  exact .node _ (begun.append (tested.append along))

theorem forLoop : Tracks close (inner.forLoop s.token.pos) s fun t r =>
    Along close t.course s r := by
  refine Tracks.require (by decide) fun begun => Tracks.require (by decide) fun opened => ?_
  refine Tracks.bind (follow.header _ _) fun init _ first => ?_
  refine Tracks.require (by decide) fun firstEnd => ?_
  refine Tracks.bind (follow.header _ _) fun cond _ second => ?_
  refine Tracks.require (by decide) fun secondEnd => ?_
  refine Tracks.bind (follow.header _ _) fun next _ third => ?_
  refine Tracks.require (by decide) fun closed => ?_
  refine Tracks.bind (follow.stmt _) fun body r along => Tracks.pure ?_
  have tail := third.append (closed.append along)
  have middle := firstEnd.append (second.append (secondEnd.append tail))
  exact .node _ (begun.append (opened.append (first.append middle)))

theorem print : Tracks close (inner.print s.token.pos) s fun t r => Along close t.course s r := by
  refine Tracks.require (by decide) fun begun => Tracks.require (by decide) fun opened => ?_
  refine Tracks.bind (follow.expr.commaList _ _) fun args r along => ?_
  refine Tracks.require (by decide) fun closed => Tracks.require (by decide) fun ended => ?_
  refine Tracks.pure ?_
  rw [Stmt.course, Expr.courses_eq_map]
  exact .node _ (begun.append (opened.append (along.append (closed.append ended))))

theorem scan : Tracks close (inner.scan s.token.pos) s fun t r => Along close t.course s r := by
  refine Tracks.require (by decide) fun begun => ?_
  refine Tracks.bind (follow.condition _) fun target r along => ?_
  refine Tracks.require (by decide) fun ended => Tracks.pure ?_
  exact .node _ (begun.append (along.append ended))

theorem ret : Tracks close (inner.ret s.token.pos) s fun t r => Along close t.course s r := by
  refine Tracks.require (by decide) fun begun => ?_
  refine Tracks.peekKind (Tracks.ite (fun _ => ?_) fun _ => ?_)
  · refine Tracks.bind (P := fun value r => value = none ∧ r = s.passed) (fun _ => ⟨rfl, rfl⟩) ?_
    rintro _ _ ⟨rfl, rfl⟩
    exact Tracks.require (by decide) fun ended => Tracks.pure (.node _ (begun.append ended))
  · have valued : Tracks close (some <$> inner.expr) s.passed fun value r =>
        ∃ e, value = some e ∧ Along close e.course s.passed r :=
      Tracks.map ((follow.expr _).mono fun e r along => ⟨e, rfl, along⟩)
    refine Tracks.bind valued ?_
    rintro _ r ⟨e, rfl, along⟩
    refine Tracks.require (by decide) fun ended => Tracks.pure ?_
    exact .node _ (begun.append (along.append ended))

end Behind

section Clauses

theorem clause : Follows close inner.clause Stmt.course := by
  intro s
  refine Tracks.position ?_
  have labelled : Tracks close inner.label s fun label r =>
      Along close (label.elim [symbol .defaultKw] fun e => symbol .caseKw :: e.course) s r := by
    refine Tracks.accept (by decide) Tracks.pure (Tracks.require (by decide) fun begun => ?_)
    exact Tracks.map ((follow.expr _).mono fun e r along => begun.append along)
  refine Tracks.bind labelled fun label middle named => Tracks.require (by decide) fun colon => ?_
  refine Tracks.bind (stmts_follow follow.stmt follow.sound _ _) fun body r along => ?_
  refine Tracks.pure ?_
  cases label with
  | none => exact .node _ (named.append (colon.append along))
  | some e =>
    have whole := named.append (colon.append along)
    exact .node _ whole

theorem clause? : Follows close inner.clause? fun found => (found.map Stmt.course).getD [] := by
  intro s
  refine Tracks.peekKind ?_
  split
  · exact Tracks.map (follow.clause s)
  · exact Tracks.map (follow.clause s)
  · -- what stands in for a clause is dropped, and the token with it
    refine Tracks.missing fun loose => Tracks.advance (Tracks.pure ?_)
    exact .gone loose s.passed_isRest

omit follow in
theorem courseOfAll_filterMap (found : List (Option Stmt)) :
    Stmt.courseOfAll (found.filterMap id) =
      found.flatMap fun t => (t.map Stmt.course).getD [] := by
  induction found with
  | nil => rfl
  | cons t rest ih =>
    cases t with
    | none => exact ih
    | some t => exact congrArg (t.course ++ ·) ih

theorem switch (s : Stream) : Tracks close (inner.switch s.token.pos) s fun t r =>
    Along close t.course s r := by
  refine Tracks.require (by decide) fun begun => ?_
  refine Tracks.bind (follow.condition _) fun subject _ tested => ?_
  refine Tracks.require (by decide) fun opened => ?_
  refine Tracks.bind (follow.clause?.manyWhile inner.clause?_advances _) fun found _ along => ?_
  refine Tracks.require (by decide) fun closed => Tracks.pure ?_
  rw [Stmt.course, courseOfAll_filterMap]
  exact .node _ (begun.append (tested.append (opened.append (along.append closed))))

end Clauses

theorem any : Follows close inner.any Stmt.course := by
  intro s
  refine Tracks.peek ?_
  split
  case h_1 | h_2 | h_3 | h_4 => exact follow.declStmt s
  case h_5 | h_6 | h_7 | h_8 | h_9 | h_10 | h_11 | h_12 => exact follow.simpleStmt s
  case h_13 => exact follow.branch s
  case h_14 => exact follow.whileLoop s
  case h_15 => exact follow.forLoop s
  case h_16 => exact follow.switch s
  case h_17 => exact follow.block s
  case h_18 => exact follow.print s
  case h_19 => exact follow.scan s
  case h_20 => exact follow.ret s
  case h_21 isEmpty =>
    have more := Stream.upcoming_of_kind (s := s) (isEmpty ▸ by decide)
    exact Tracks.advance (Tracks.pure (.node _ (.passed _ fun _ => more)))
  case h_22 | h_23 => exact Tracks.missing fun loose => Tracks.pure (.node _ (.done s))
  case h_24 =>
    refine Tracks.missing fun loose => Tracks.advance (Tracks.pure ?_)
    exact .node _ (.gone loose s.passed_isRest)

end Follow

end StmtContext

theorem statement_follows (levels : Nat) : Follows close (statement levels) Stmt.course := by
  induction levels with
  | zero =>
    intro s
    refine Tracks.position (Tracks.refuseDepth fun loose r isRest => Tracks.pure ?_)
    exact .node _ (.gone loose isRest)
  | succ levels ih =>
    exact StmtContext.Follow.any ⟨expression_follows levels, ih, statement_sound levels⟩

theorem topLevelDecl_follows : Follows close topLevelDecl Decl.course := fun s =>
  (declaration_along (expression_follows _) (statement_follows _) (statement_sound _) true s).mono
    fun _ _ along => along.2

theorem fileParser_follows (name : String) (lineCount : Nat) :
    Follows close (fileParser name lineCount) File.course := by
  intro s
  refine Tracks.bind (topLevelDecl_follows.manyWhile topLevelDecl_advances s) fun decls r along => ?_
  exact Tracks.bind (P := fun _ later => later = r) (fun _ => rfl) fun _ _ same =>
    Tracks.pure (same ▸ along)

end MiniC
