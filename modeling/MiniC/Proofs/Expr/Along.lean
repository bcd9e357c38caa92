import MiniC.Proofs.Expr.Ascends
import MiniC.Proofs.Expr.CompositeSound
import MiniC.Proofs.Expr.Descends
import MiniC.Proofs.Parser.Tracks

/-!
Expressions lie along their tokens. A sign, a literal or a parenthesis is a node at
its own token; a call, a subscript or an operator is a node where the expression in
front of it is, which has been read before.
-/

namespace MiniC

open MiniC.Parser
open Waypoint (symbol commas withCommas)

variable {close : Prop}

section Reading

variable {inner : Parser Expr} (follows : Follows close inner Expr.course)

/-- Whatever is read behind an expression, its node stands where that one does. -/
theorem Expr.along_again {e : Expr} {s r : Stream} (along : Along close e.course s r)
    (kind : String) : Along close (.node kind e.pos :: e.course) s r := by
  obtain ⟨own, rest, begins⟩ := e.course_eq
  rw [begins] at along ⊢
  exact along.again kind

include follows

theorem operand_follows : Follows close (operand inner) Expr.course := by
  intro s
  refine Tracks.peek ?_
  split
  · next lit isLit =>
    have more := Stream.upcoming_of_literal isLit
    exact Tracks.advance (Tracks.pure (.node _ (.passed _ fun _ => more)))
  · split
    · next isIdent =>
      have more := Stream.upcoming_of_kind (s := s) (isIdent ▸ by decide)
      exact Tracks.advance (Tracks.pure (.node _ (.passed _ fun _ => more)))
    · next isMain =>
      have more := Stream.upcoming_of_kind (s := s) (isMain ▸ by decide)
      exact Tracks.advance (Tracks.pure (.node _ (.passed _ fun _ => more)))
    · next isParen =>
      have more := Stream.upcoming_of_kind (s := s) (isParen ▸ by decide)
      have opened : Along close [symbol .lParen] s s.passed := .passed _ fun _ => more
      refine Tracks.advance (Tracks.bind (follows _) fun e r along => ?_)
      refine Tracks.require (by decide) fun closed => Tracks.pure ?_
      exact .node _ (opened.append (along.append closed))
    · refine Tracks.missing fun loose => Tracks.ite (fun _ => ?_) fun _ => ?_
      · exact Tracks.advance (Tracks.pure (.node _ (.gone loose s.passed_isRest)))
      · exact Tracks.pure (.node _ (.done s))

theorem suffix_along (e : Expr) {start s : Stream} (before : Along close e.course start s) :
    Tracks close (suffix inner e) s fun whole r => Along close whole.course start r := by
  refine Tracks.peekKind (Tracks.ite (fun _ => ?_) fun _ => ?_)
  · refine Tracks.require (by decide) fun opened => ?_
    refine Tracks.bind (follows.commaList _ _) fun args r along => ?_
    refine Tracks.require (by decide) fun closed => Tracks.pure ?_
    rw [Expr.course, Expr.courses_eq_map]
    exact (Expr.along_again before "Call").append (opened.append (along.append closed))
  · refine Tracks.require (by decide) fun opened => Tracks.bind (follows _) fun e r along => ?_
    refine Tracks.require (by decide) fun closed => Tracks.pure ?_
    rw [Expr.course]
    exact (Expr.along_again before "Index").append (opened.append (along.append closed))

theorem primary_follows : Follows close (primary inner) Expr.course := by
  intro s
  refine Tracks.bind (operand_follows follows s) fun first r along => ?_
  exact Tracks.foldWhile (suffix_advances inner)
    (fun e r before _ => suffix_along follows e before) along

end Reading

/-- The readers of one level follow what they read; the second goes on behind what
has been read since `start`. -/
structure ExprParsers.Follow (close : Prop) (level : ExprParsers) : Prop where
  unary : Follows close level.unary Expr.course
  operators : ∀ least left {start s : Stream}, Along close left.course start s →
    Tracks close (level.operators least left) s fun e r => Along close e.course start r

theorem ExprParsers.Follow.binary {level : ExprParsers} (follow : level.Follow close)
    (least : Nat) : Follows close (level.binary least) Expr.course :=
  fun s => Tracks.bind (follow.unary s) fun left _ before => follow.operators least left before

theorem refusedOperator_along (least : Nat) (left : Expr) {start s : Stream}
    (before : Along close left.course start s) :
    Tracks close (refusedOperator least left) s fun e r => Along close e.course start r := by
  refine Tracks.peekKind ?_
  split
  · next op isOp =>
    have passed : Along close [symbol op.token] s s.passed :=
      .passed _ fun _ => Stream.upcoming_of_operator isOp
    refine Tracks.advance (Tracks.refuseDepth fun loose r isRest => Tracks.position ?_)
    refine Tracks.pure ?_
    -- the tokens that are given up lie in front of the place that stands for them
    have bad : Along close (Expr.bad r.token.pos).course s.passed r :=
      .gap loose isRest (.node _ (.done r))
    exact (Expr.along_again before _).append (passed.append bad)
  · exact Tracks.pure before

theorem lowestLevel_follow : lowestLevel.Follow close where
  unary _ := Tracks.position (Tracks.refuseDepth fun loose _ isRest =>
    Tracks.pure (.node _ (.gone loose isRest)))
  operators least _ _ _ before := Tracks.foldWhile (refusedOperator_advances least)
    (fun e _ along _ => refusedOperator_along least e along) before

theorem levelAbove_follow {below : ExprParsers} (follow : below.Follow close) :
    (levelAbove below).Follow close where
  unary s := by
    refine Tracks.peek ?_
    split
    · next sign isSign =>
      have signed : Along close [symbol sign.token] s s.passed :=
        .passed _ fun _ => Stream.upcoming_of_sign isSign
      refine Tracks.advance (Tracks.bind (follow.unary _) fun operand r along => Tracks.pure ?_)
      exact .node _ (signed.append along)
    · exact primary_follows (follow.binary 1) s
  operators least left start s before := by
    refine Tracks.peekKind ?_
    split
    · next op isOp =>
      have passed : Along close [symbol op.token] s s.passed :=
        .passed _ fun _ => Stream.upcoming_of_operator isOp
      refine Tracks.advance (Tracks.bind (follow.binary _ _) fun right r along => ?_)
      refine follow.operators least _ ?_
      exact (Expr.along_again before _).append (passed.append along)
    · exact Tracks.pure before

theorem expression_follows (levels : Nat) : Follows close (expression levels) Expr.course := by
  have follow : (exprParsers levels).Follow close := by
    induction levels with
    | zero => exact lowestLevel_follow
    | succ levels ih => exact levelAbove_follow ih
  exact follow.binary 1

namespace Composite

namespace Frame

variable (frame : Frame)

def courses : List (List Waypoint) := frame.items.reverse.map Expr.course

/-- The course of an open literal that is to go on with an item. -/
def openCourse : List Waypoint :=
  .node "CompositeLit" frame.pos :: symbol .lBrace :: withCommas frame.courses

/-- The course of an open literal behind its last item. -/
def itemCourse : List Waypoint :=
  .node "CompositeLit" frame.pos :: symbol .lBrace :: commas frame.courses

theorem course_literal : frame.literal.course = frame.itemCourse ++ [symbol .rBrace] := by
  simp [literal, Expr.course, itemCourse, courses, Expr.courses_eq_map]

theorem itemCourse_add (item : Expr) :
    (frame.add item).itemCourse = frame.openCourse ++ item.course := by
  simp [itemCourse, openCourse, add, courses, Waypoint.commas_concat]

theorem itemCourse_comma {frame : Frame} (nonempty : frame.items ≠ []) :
    frame.itemCourse ++ [symbol .comma] = frame.openCourse := by
  simp [itemCourse, openCourse, courses, Waypoint.commas_comma, nonempty]

theorem itemCourse_empty {frame : Frame} (none : frame.items = []) :
    frame.itemCourse = frame.openCourse := by
  simp [itemCourse, openCourse, courses, none, commas, withCommas]

/-- A comma is no place. -/
theorem places_itemCourse :
    frame.itemCourse.filter Along.isPlace = frame.openCourse.filter Along.isPlace := by
  by_cases nonempty : frame.items = []
  · rw [itemCourse_empty nonempty]
  · rw [← itemCourse_comma nonempty, List.filter_append]
    exact (List.append_nil _).symm

end Frame

namespace Frames

/-- The course of the literals around the innermost one. -/
def outerCourse (frames : Frames) : List Waypoint := frames.outer.reverse.flatMap Frame.openCourse

def openCourse (frames : Frames) : List Waypoint := frames.outerCourse ++ frames.inner.openCourse

def itemCourse (frames : Frames) : List Waypoint := frames.outerCourse ++ frames.inner.itemCourse

theorem outerCourse_cons (inner around : Frame) (outer : List Frame) :
    outerCourse ⟨inner, around :: outer⟩ = openCourse ⟨around, outer⟩ := by
  simp [outerCourse, openCourse]

theorem itemCourse_around (inner around : Frame) (outer : List Frame) :
    itemCourse ⟨around.add inner.literal, outer⟩ =
      itemCourse ⟨inner, around :: outer⟩ ++ [symbol .rBrace] := by
  rw [itemCourse, itemCourse, outerCourse_cons, Frame.itemCourse_add, Frame.course_literal,
    openCourse, List.append_assoc, List.append_assoc]
  rfl

theorem places_itemCourse (frames : Frames) :
    frames.itemCourse.filter Along.isPlace = frames.openCourse.filter Along.isPlace := by
  rw [itemCourse, openCourse, List.filter_append, List.filter_append, Frame.places_itemCourse]

/-- Closing what is open adds no place. -/
theorem places_closeAll (frames : Frames) :
    frames.closeAll.course.filter Along.isPlace = frames.itemCourse.filter Along.isPlace := by
  have brace (course : List Waypoint) :
      (course ++ [symbol .rBrace]).filter Along.isPlace = course.filter Along.isPlace := by
    rw [List.filter_append]
    exact List.append_nil _
  obtain ⟨inner, outer⟩ := frames
  induction outer generalizing inner with
  | nil =>
    change inner.literal.course.filter Along.isPlace = inner.itemCourse.filter Along.isPlace
    rw [Frame.course_literal, brace]
  | cons around outer ih =>
    have further := ih (around.add inner.literal)
    rw [itemCourse_around, brace] at further
    exact further

end Frames

section Along

variable {start s : Stream} {frames : Frames}

theorem along_item (along : Along close frames.openCourse start s)
    (fresh : close → frames.inner.items = []) : Along close frames.itemCourse start s := by
  by_cases holds : close
  -- a comma in front of a closing brace is on no close course
  · rw [Frames.itemCourse, Frame.itemCourse_empty (fresh holds)]
    exact along
  · exact along.respell holds frames.places_itemCourse

theorem along_comma (along : Along close frames.itemCourse start s)
    (nonempty : close → frames.inner.items ≠ [] ∧ s.upcoming ≠ []) :
    Along close frames.openCourse start s.passed := by
  by_cases holds : close
  · obtain ⟨some, more⟩ := nonempty holds
    rw [Frames.openCourse, ← Frame.itemCourse_comma some, ← List.append_assoc]
    exact along.append (.passed _ fun _ => more)
  · exact (along.respell holds frames.places_itemCourse.symm).further holds s.passed_isRest

/-- What has been read since `start` when the reading has come to a state. -/
def LiesTo (close : Prop) (start : Stream) : State → Stream → Prop
  | .beforeItem frames, s =>
    (close → frames.inner.items = [] ∨ s.token.kind ≠ .rBrace) ∧
      Along close frames.openCourse start s
  | .afterItem frames, s =>
    (close → frames.inner.items ≠ []) ∧ Along close frames.itemCourse start s
  | .finished literal, s => Along close literal.course start s

/-- The closing brace of the innermost literal. -/
theorem liesTo_closed (along : Along close frames.itemCourse start s) (more : s.upcoming ≠ []) :
    LiesTo close start (.closed frames) s.passed := by
  have closed := along.append (.passed (.symbol .rBrace) fun _ => more)
  obtain ⟨inner, outer⟩ := frames
  cases outer with
  | nil =>
    change Along close inner.literal.course start s.passed
    rwa [Frame.course_literal]
  | cons around outer =>
    refine ⟨fun _ => List.cons_ne_nil _ _, ?_⟩
    rwa [Frames.itemCourse_around]

theorem badItem_follows (wanted : Wanted) : Follows close (badItem wanted) Expr.course := by
  intro s
  refine Tracks.peek (Tracks.missing fun loose => Tracks.ite (fun _ => ?_) fun _ => ?_)
  · exact Tracks.advance (Tracks.pure (.node _ (.gone loose s.passed_isRest)))
  · exact Tracks.pure (.node _ (.done s))

theorem plainItem_follows (isSigned : Bool) : Follows close (plainItem isSigned) Expr.course := by
  intro s
  refine Tracks.peek ?_
  split
  · next lit isLit =>
    have more := Stream.upcoming_of_literal isLit
    refine Tracks.ite (fun _ => badItem_follows _ s) fun _ => ?_
    exact Tracks.advance (Tracks.pure (.node _ (.passed _ fun _ => more)))
  · refine Tracks.ite (fun isIdent => ?_) fun _ => badItem_follows _ s
    have more := Stream.upcoming_of_kind (s := s) (isIdent ▸ by decide)
    exact Tracks.advance (Tracks.pure (.node _ (.passed _ fun _ => more)))

theorem item_follows : Follows close item Expr.course := by
  intro s
  refine Tracks.peek ?_
  split
  · next sign isSign =>
    have signed : Along close [symbol sign.token] s s.passed :=
      .passed _ fun _ => Stream.upcoming_of_sign isSign
    refine Tracks.advance (Tracks.bind (plainItem_follows true _) fun operand r along => ?_)
    exact Tracks.pure (.node _ (signed.append along))
  · exact plainItem_follows false s

theorem step_lies (state : State) (s : Stream) (lies : LiesTo close start state s)
    (taken : takes (goesOn state) s = true) :
    Tracks close (step state) s (LiesTo close start) := by
  have more := Stream.upcoming_of_remaining (remaining_pos_of_takes taken)
  cases state with
  | beforeItem frames =>
    obtain ⟨fresh, along⟩ := lies
    refine Tracks.peek ?_
    split
    · refine Tracks.advance (Tracks.pure ⟨fun _ => .inl rfl, ?_⟩)
      have opened : Along close (Frame.openCourse ⟨s.token.pos, []⟩) s s.passed :=
        .node _ (.passed _ fun _ => more)
      change Along close (Frames.outerCourse ⟨_, frames.inner :: frames.outer⟩ ++ _) start s.passed
      rw [Frames.outerCourse_cons]
      exact along.append opened
    · next isBrace =>
      -- only the first item may be left out where nothing is reported
      refine Tracks.advance (Tracks.pure (liesTo_closed (along_item along fun holds => ?_) more))
      exact (fresh holds).resolve_right (not_not_intro isBrace)
    · refine Tracks.bind (item_follows s) fun item r own => Tracks.pure ?_
      refine ⟨fun _ => List.cons_ne_nil _ _, ?_⟩
      change Along close (frames.outerCourse ++ (frames.inner.add item).itemCourse) start r
      rw [Frame.itemCourse_add, ← List.append_assoc]
      exact along.append own
  | afterItem frames =>
    obtain ⟨nonempty, along⟩ := lies
    refine Tracks.peekKind ?_
    split
    · exact Tracks.advance (Tracks.pure (liesTo_closed along more))
    · refine Tracks.advance (Tracks.peekKind (Tracks.ite (fun _ => ?_) fun other => ?_))
      · refine Tracks.missing fun loose => Tracks.pure ⟨nonempty, ?_⟩
        exact along.further loose s.passed_isRest
      · refine Tracks.pure ⟨fun _ => .inr other, along_comma along fun holds => ?_⟩
        exact ⟨nonempty holds, more⟩
    · refine Tracks.missing fun loose => Tracks.advance (Tracks.pure ?_)
      exact ⟨fun holds => absurd holds loose, along_comma along fun holds => absurd holds loose⟩
  | finished literal => exact absurd (Quiet.kind_of_takes taken) (by simp [goesOn])

theorem conclude_lies (state : State) (s : Stream) (lies : LiesTo close start state s) :
    Tracks close (conclude state) s fun e r => Along close e.course start r := by
  cases state with
  | finished literal => exact Tracks.pure lies
  | beforeItem frames =>
    refine Tracks.missing fun loose => Tracks.pure (lies.2.respell loose ?_)
    rw [frames.places_closeAll, frames.places_itemCourse]
  | afterItem frames =>
    exact Tracks.missing fun loose => Tracks.pure (lies.2.respell loose frames.places_closeAll)

end Along

end Composite

open Composite in
theorem compositeLiteral_follows : Follows close compositeLiteral Expr.course := by
  intro s
  refine Tracks.position (Tracks.require (by decide) fun opened => ?_)
  have start : LiesTo close s (.beforeItem (.start s.token.pos)) s.passed :=
    ⟨fun _ => .inl rfl, .node _ opened⟩
  refine Tracks.bind (Tracks.foldWhile step_advances (fun state r lies taken => ?_) start) ?_
  · exact step_lies state r lies taken
  · exact fun state r lies => conclude_lies state r lies

end MiniC
