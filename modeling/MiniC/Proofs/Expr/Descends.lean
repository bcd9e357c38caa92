import MiniC.Expr.Parser
import MiniC.Proofs.Parser.Agree

/-!
Reading expressions comes to an end with the tokens. Each round of its loops
passes a token. A level calls the one below on shorter streams only: behind a
sign, an opening bracket or an operator.
-/

namespace MiniC

open MiniC.Parser

section Loops

theorem suffix_advances (inner : Parser Expr) (e : Expr) : Advances startsSuffix (suffix inner e) := by
  intro s taken
  have more := remaining_pos_of_takes taken
  apply Shortens.behind
  dsimp only [peekKind]
  split
  · exact Shortens.before (require_shortens .lParen more)
  · exact Shortens.before (require_shortens .lBracket more)

/-- A round of a chain, which the levels share out among them. -/
theorem operator_advances (below : ExprParsers) (least higher : Nat) :
    Advances (fun kind => (bindingOp? least kind).isSome)
      (do advance; below.binary higher) :=
  advances_advance _ _

theorem refusedOperator_advances (least : Nat) (left : Expr) :
    Advances (fun kind => (bindingOp? least kind).isSome) (refusedOperator least left) := by
  intro s taken
  obtain ⟨op, isOp⟩ := Option.isSome_iff_exists.mp (Quiet.kind_of_takes taken)
  have binds : bindingOp? least (peekKind.run s).value = some op := isOp
  apply Shortens.behind
  rw [binds]
  exact Shortens.before (advance_shortens (remaining_pos_of_takes taken))

namespace Composite

theorem badItem_shortens {s : Stream} (inside : isBoundary s.token.kind = false)
    (more : 0 < s.remaining) (wanted : Wanted) : Shortens (badItem wanted) s := by
  apply Shortens.behind
  apply Shortens.behind
  change Shortens (if !isBoundary s.token.kind then _ else _) s
  rw [inside]
  exact Shortens.before (advance_shortens more)

theorem item_shortens {s : Stream} (inside : isBoundary s.token.kind = false)
    (more : 0 < s.remaining) : Shortens item s := by
  have plain : Shortens (plainItem false) s := by
    apply Shortens.behind
    dsimp only [peek]
    split
    · exact Shortens.before (advance_shortens more)
    · split
      · exact Shortens.before (advance_shortens more)
      · exact badItem_shortens inside more _
  apply Shortens.behind
  dsimp only [peek]
  split
  · exact Shortens.before (advance_shortens more)
  · exact plain

theorem step_advances (state : State) : Advances (goesOn state) (step state) := by
  intro s taken
  have more := remaining_pos_of_takes taken
  have goesOn := Quiet.kind_of_takes taken
  cases state with
  | beforeItem frames =>
    have inside : isBoundary s.token.kind = false := Bool.not_eq_true' _ |>.mp goesOn
    apply Shortens.behind
    dsimp only [peek]
    split
    · exact Shortens.before (advance_shortens more)
    · exact Shortens.before (advance_shortens more)
    · exact Shortens.before (item_shortens inside more)
  | afterItem frames =>
    apply Shortens.behind
    dsimp only [peekKind]
    split
    · exact Shortens.before (advance_shortens more)
    · exact Shortens.before (advance_shortens more)
    · apply Shortens.behind
      exact Shortens.before (advance_shortens more)
  | finished literal => cases goesOn

end Composite

end Loops

section Calls

variable {n : Nat} {inner other : Parser Expr} (agree : Agree n inner other)

include agree

theorem operand_descends : Agree (n + 1) (operand inner) (operand other) := by
  intro s bound
  apply AgreeAt.peek
  rintro ⟨kind, text, pos⟩ present
  cases kind.litKind? with
  | some kind => rfl
  | none =>
    cases kind with
    | lParen =>
      apply AgreeAt.pass (advance_shortens (present nofun)) bound
      exact fun _ => agree.before
    | _ => rfl

theorem suffix_descends (e : Expr) {s : Stream} (bound : s.remaining < n + 1)
    (taken : takes startsSuffix s = true) : AgreeAt (suffix inner e) (suffix other e) s := by
  have more := remaining_pos_of_takes taken
  apply AgreeAt.peekKind
  intro kind _
  apply AgreeAt.ite
  · intro _
    apply AgreeAt.pass (require_shortens .lParen more) bound
    exact fun _ => (agree.commaList .rParen).before
  · intro _
    apply AgreeAt.pass (require_shortens .lBracket more) bound
    exact fun _ => agree.before

theorem primary_descends : Agree (n + 1) (primary inner) (primary other) := by
  apply Agree.bind (operand_descends agree)
  exact fun first => Agree.foldWhile (fun e _ => suffix_descends agree e) first

end Calls

namespace ExprParsers

/-- The parsers of two levels do the same on streams of fewer than `n` tokens. -/
structure Agree (n : Nat) (level other : ExprParsers) : Prop where
  unary : Parser.Agree n level.unary other.unary
  operators : ∀ least left,
    Parser.Agree n (level.operators least left) (other.operators least left)

namespace Agree

variable {n : Nat} {below other : ExprParsers} (agree : Agree n below other)

include agree

theorem binary (least : Nat) : Parser.Agree n (below.binary least) (other.binary least) :=
  Parser.Agree.bind agree.unary (agree.operators least)

theorem signed : Parser.Agree (n + 1) (signed below.unary below.expr)
    (signed other.unary other.expr) := by
  intro s bound
  apply AgreeAt.peek
  rintro ⟨kind, text, pos⟩ present
  cases isSign : kind.sign? with
  | some sign =>
    have isToken : kind ≠ .eof := by
      rintro rfl
      cases isSign
    apply AgreeAt.pass (advance_shortens (present isToken)) bound
    exact fun _ => agree.unary.before
  | none => exact primary_descends (agree.binary 1) s bound

/-- A level calls the one below behind a token only. -/
theorem above : Agree (n + 1) (levelAbove below) (levelAbove other) := by
  constructor
  · exact agree.signed
  · intro least left s bound
    apply AgreeAt.peekKind
    intro kind present
    cases isOp : bindingOp? least kind with
    | some op =>
      have isToken : kind ≠ .eof := by
        rintro rfl
        cases isOp
      -- behind the operator, both calls are made on a shorter stream
      apply AgreeAt.pass (advance_shortens (present isToken)) bound
      intro _
      apply Parser.Agree.bind (agree.binary (op.precedence + 1))
      exact fun right => agree.operators least (.binary left.pos op left right)
    | none => rfl

end Agree

end ExprParsers

/-- Levels beyond the number of tokens change nothing. -/
theorem exprParsers_agree (n left right : Nat) (enoughLeft : n ≤ left) (enoughRight : n ≤ right) :
    ExprParsers.Agree n (exprParsers left) (exprParsers right) := by
  induction n generalizing left right with
  | zero => exact ⟨fun _ none => absurd none (Nat.not_lt_zero _),
      fun _ _ _ none => absurd none (Nat.not_lt_zero _)⟩
  | succ n ih =>
    obtain ⟨left, rfl⟩ := Nat.exists_eq_add_of_lt enoughLeft
    obtain ⟨right, rfl⟩ := Nat.exists_eq_add_of_lt enoughRight
    exact (ih _ _ (Nat.le_add_right _ _) (Nat.le_add_right _ _)).above

theorem expression_agree {n left right : Nat} (enoughLeft : n ≤ left) (enoughRight : n ≤ right) :
    Agree n (expression left) (expression right) :=
  (exprParsers_agree n left right enoughLeft enoughRight).binary 1

end MiniC
