import MiniC.Expr.Parser
import MiniC.Proofs.Layout.Moves

/-!
Reading expressions on moved places. One lemma for each production, composed as
the production is; the levels of nesting are handed down like the parsers.
-/

namespace MiniC

open MiniC.Parser

variable {move : Position → Position}

namespace Composite

def Frame.relocate (move : Position → Position) (frame : Frame) : Frame :=
  ⟨move frame.pos, frame.items.map (Expr.relocate move)⟩

def Frames.relocate (move : Position → Position) (frames : Frames) : Frames :=
  ⟨frames.inner.relocate move, frames.outer.map (Frame.relocate move)⟩

def State.relocate (move : Position → Position) : State → State
  | .beforeItem frames => .beforeItem (frames.relocate move)
  | .afterItem frames => .afterItem (frames.relocate move)
  | .finished literal => .finished (literal.relocate move)

theorem Frame.relocate_literal (frame : Frame) :
    (frame.relocate move).literal = frame.literal.relocate move := by
  simp only [literal, relocate, Expr.relocate, Expr.relocateAll_eq_map, List.map_reverse]

theorem State.relocate_closed (frames : Frames) :
    State.closed (frames.relocate move) = (State.closed frames).relocate move := by
  obtain ⟨inner, outer⟩ := frames
  cases outer with
  | nil => exact congrArg State.finished inner.relocate_literal
  | cons around outer =>
    unfold closed Frames.relocate
    simp only [List.map_cons, inner.relocate_literal]
    rfl

theorem Frames.relocate_closeAll (frames : Frames) :
    (frames.relocate move).closeAll = frames.closeAll.relocate move := by
  obtain ⟨inner, outer⟩ := frames
  unfold closeAll relocate
  simp only [inner.relocate_literal]
  generalize inner.literal = literal
  induction outer generalizing literal with
  | nil => rfl
  | cons frame outer ih =>
    have closed : ((frame.relocate move).add (literal.relocate move)).literal =
        (frame.add literal).literal.relocate move := (frame.add literal).relocate_literal
    rw [List.map_cons, List.foldl_cons, List.foldl_cons, closed, ih]

theorem badItem_moves (wanted : Wanted) :
    Moves move (Expr.relocate move) (badItem wanted) (badItem wanted) := by
  apply Moves.bind .peek
  intro token
  apply Moves.after (.missing wanted)
  intro _
  apply Moves.ite
  · exact Moves.last .advance rfl
  · exact Moves.pure rfl

theorem plainItem_moves (isSigned : Bool) :
    Moves move (Expr.relocate move) (plainItem isSigned) (plainItem isSigned) := by
  apply Moves.bind .peek
  rintro ⟨kind, text, pos⟩
  dsimp only [Token.relocate]
  cases kind.litKind? with
  | some kind => exact Moves.ite (badItem_moves _) (.last .advance rfl)
  | none => exact Moves.ite (.last .advance rfl) (badItem_moves _)

theorem item_moves : Moves move (Expr.relocate move) item item := by
  apply Moves.bind .peek
  rintro ⟨kind, text, pos⟩
  dsimp only [Token.relocate]
  cases kind.sign? with
  | some sign =>
    apply Moves.after .advance
    intro _
    apply Moves.bind (plainItem_moves true)
    intro operand
    exact Moves.pure rfl
  | none => exact plainItem_moves false

theorem step_moves (state : State) :
    Moves move (State.relocate move) (step state) (step (state.relocate move)) := by
  cases state with
  | beforeItem frames =>
    apply Moves.bind .peek
    rintro ⟨kind, text, pos⟩
    dsimp only [Token.relocate]
    cases kind with
    | lBrace => exact Moves.last .advance rfl
    | rBrace => exact Moves.last .advance (State.relocate_closed frames)
    | _ =>
      apply Moves.bind item_moves
      intro item
      exact Moves.pure rfl
  | afterItem frames =>
    apply Moves.after .peekKind
    intro kind
    cases kind with
    | rBrace => exact Moves.last .advance (State.relocate_closed frames)
    | comma =>
      apply Moves.after .advance
      intro _
      apply Moves.after .peekKind
      intro behind
      exact Moves.ite (.last (.missing _) rfl) (.pure rfl)
    | _ =>
      apply Moves.after (.missing _)
      intro _
      exact Moves.last .advance rfl
  | finished literal => exact Moves.pure rfl

theorem conclude_moves (state : State) :
    Moves move (Expr.relocate move) (conclude state) (conclude (state.relocate move)) := by
  cases state with
  | finished literal => exact Moves.pure rfl
  | beforeItem frames =>
    exact Moves.last (.missing _) frames.relocate_closeAll
  | afterItem frames =>
    exact Moves.last (.missing _) frames.relocate_closeAll

end Composite

theorem compositeLiteral_moves :
    Moves move (Expr.relocate move) compositeLiteral compositeLiteral := by
  apply Moves.bind .position
  intro pos
  apply Moves.after (.require _)
  intro _
  have goesOn (state : Composite.State) :
      Composite.goesOn (state.relocate move) = Composite.goesOn state := by
    cases state <;> rfl
  -- the literals that are still open move with the tokens
  have steps := Moves.foldWhile goesOn Composite.step_moves (.beforeItem (.start pos))
  exact Moves.bind steps Composite.conclude_moves

/-- The parsers of a level do the same on moved places. -/
structure ExprParsers.Move (move : Position → Position) (level : ExprParsers) : Prop where
  unary : Moves move (Expr.relocate move) level.unary level.unary
  operators : ∀ least left, Moves move (Expr.relocate move) (level.operators least left)
    (level.operators least (left.relocate move))

theorem ExprParsers.Move.binary {level : ExprParsers} (moves : level.Move move) (least : Nat) :
    Moves move (Expr.relocate move) (level.binary least) (level.binary least) :=
  .bind moves.unary (moves.operators least)

section Operand

variable {inner : Parser Expr} (moves : Moves move (Expr.relocate move) inner inner)

include moves

theorem operand_moves : Moves move (Expr.relocate move) (operand inner) (operand inner) := by
  apply Moves.bind .peek
  rintro ⟨kind, text, pos⟩
  dsimp only [Token.relocate]
  cases kind.litKind? with
  | some kind => exact Moves.last .advance rfl
  | none =>
    cases kind with
    | ident | mainKw => exact Moves.last .advance rfl
    | lParen =>
      apply Moves.after .advance
      intro _
      apply Moves.bind moves
      intro e
      exact Moves.last (.require _) rfl
    | _ =>
      apply Moves.after (.missing _)
      intro _
      exact Moves.ite (.last .advance rfl) (.pure rfl)

theorem suffix_moves (e : Expr) :
    Moves move (Expr.relocate move) (suffix inner e) (suffix inner (e.relocate move)) := by
  apply Moves.after .peekKind
  intro kind
  apply Moves.ite
  · apply Moves.after (.require _)
    intro _
    apply Moves.bind (.commaList _ moves)
    intro args
    apply Moves.after (.require _)
    intro _
    apply Moves.pure
    simp only [Expr.relocate, Expr.relocate_pos, Expr.relocateAll_eq_map]
  · apply Moves.after (.require _)
    intro _
    apply Moves.bind moves
    intro subscript
    apply Moves.after (.require _)
    intro _
    apply Moves.pure
    simp only [Expr.relocate, Expr.relocate_pos]

theorem primary_moves : Moves move (Expr.relocate move) (primary inner) (primary inner) := by
  apply Moves.bind (operand_moves moves)
  intro first
  apply Moves.foldWhile
  · exact fun _ => rfl
  · exact suffix_moves moves

end Operand

theorem signed_moves {below : ExprParsers} (moves : below.Move move) :
    Moves move (Expr.relocate move) (signed below.unary below.expr) (signed below.unary below.expr) := by
  apply Moves.bind .peek
  rintro ⟨kind, text, pos⟩
  dsimp only [Token.relocate]
  cases kind.sign? with
  | some sign =>
    apply Moves.after .advance
    intro _
    apply Moves.bind moves.unary
    intro operand
    exact Moves.pure rfl
  | none => exact primary_moves (moves.binary 1)

theorem refusedOperator_moves (least : Nat) (left : Expr) :
    Moves move (Expr.relocate move) (refusedOperator least left)
      (refusedOperator least (left.relocate move)) := by
  apply Moves.after .peekKind
  intro kind
  cases bindingOp? least kind with
  | some op =>
    apply Moves.after .advance
    intro _
    apply Moves.after .refuseDepth
    intro _
    apply Moves.bind .position
    intro pos
    apply Moves.pure
    simp only [Expr.relocate, Expr.relocate_pos]
  | none => exact Moves.pure rfl

theorem lowestLevel_moves : lowestLevel.Move move := by
  constructor
  · apply Moves.bind .position
    intro pos
    exact Moves.last .refuseDepth rfl
  · intro least left
    apply Moves.foldWhile
    · exact fun _ => rfl
    · exact refusedOperator_moves least

theorem levelAbove_moves {below : ExprParsers} (moves : below.Move move) :
    (levelAbove below).Move move := by
  constructor
  · exact signed_moves moves
  · intro least left
    apply Moves.after .peekKind
    intro kind
    cases bindingOp? least kind with
    | none => exact Moves.pure rfl
    | some op =>
      apply Moves.after .advance
      intro _
      apply Moves.bind (moves.binary _)
      intro right
      -- an operation stands where its left operand stands
      have rest := moves.operators least (.binary left.pos op left right)
      simp only [Expr.relocate, ← Expr.relocate_pos] at rest
      exact rest

theorem exprParsers_move (levels : Nat) : (exprParsers levels).Move move := by
  induction levels with
  | zero => exact lowestLevel_moves
  | succ levels ih => exact levelAbove_moves ih

theorem expression_moves (levels : Nat) :
    Moves move (Expr.relocate move) (expression levels) (expression levels) :=
  (exprParsers_move levels).binary 1

end MiniC
