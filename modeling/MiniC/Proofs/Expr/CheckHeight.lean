import MiniC.Proofs.Expr.Braced
import MiniC.Proofs.Expr.Descends
import MiniC.Proofs.Parser.Gives
import MiniC.Proofs.Syntax.CheckHeight

/-!
How deep the check of an expression goes that was read within some levels, as far
as so many calls stand behind one another in it. This holds of every expression
that is read, one that was refused too: what is refused is passed up to a token
that is no operator, so no level gets more operators than it has levels below it,
and one.
-/

namespace MiniC

open MiniC.Parser

/-- How deep the check of a signed or primary expression goes: each call may have
a run of subscripts behind it, and there may be one in front of the first call. -/
def operandLimit (calls : Nat) : Nat → Nat
  | 0 => 0
  | n + 1 => operandLimit calls n + (n + 1) + (2 * calls + 2)

/-- The same of a whole expression: an operator more on each level. -/
def checkLimit (calls n : Nat) : Nat := operandLimit calls n + (n + 1)

theorem operandLimit_le_checkLimit (calls n : Nat) : operandLimit calls n ≤ checkLimit calls n :=
  Nat.le_add_right _ _

theorem checkLimit_pos (calls n : Nat) : 0 < checkLimit calls n := Nat.succ_pos _

theorem checkLimit_mono {calls m n : Nat} (bound : m ≤ n) :
    checkLimit calls m ≤ checkLimit calls n := by
  induction bound with
  | refl => exact Nat.le_refl _
  | step _ ih =>
    apply Nat.le_trans ih
    unfold checkLimit
    rw [operandLimit]
    omega

namespace Expr

variable {calls m : Nat}

/-- How deep the check of an expression goes if it keeps to so many calls. -/
def CheckedWithin (calls m : Nat) (e : Expr) : Prop := e.CallsWithin calls → e.checkHeight ≤ m

theorem CheckedWithin.mono {n : Nat} {e : Expr} (within : e.CheckedWithin calls m) (bound : m ≤ n) :
    e.CheckedWithin calls n :=
  fun few => Nat.le_trans (within few) bound

/-- A primary expression over arguments and subscripts that are checked within
`m`, as far as its suffixes have been read. -/
def SuffixedOver (calls m : Nat) (e : Expr) : Prop :=
  e.CallsWithin calls →
    e.checkHeight + (if e.isSubscripted then 0 else 1) ≤ m + 2 * e.calls + 2

namespace CallsWithin

theorem self {e : Expr} (few : e.CallsWithin calls) : e.calls ≤ calls := few e e.mem_parts

variable {pos : Position} {e left right : Expr} {args : List Expr}

theorem inner (few : (paren pos e).CallsWithin calls) : e.CallsWithin calls :=
  fun part member => few part (List.mem_cons_of_mem _ member)

theorem operand {sign : Sign} (few : (unary pos sign e).CallsWithin calls) :
    e.CallsWithin calls :=
  fun part member => few part (List.mem_cons_of_mem _ member)

theorem index (few : (Expr.index pos left right).CallsWithin calls) :
    left.CallsWithin calls ∧ right.CallsWithin calls := by
  obtain ⟨_, within⟩ := List.forall_mem_cons.mp few
  exact List.forall_mem_append.mp within

theorem binary {op : BinOp} (few : (Expr.binary pos op left right).CallsWithin calls) :
    left.CallsWithin calls ∧ right.CallsWithin calls := by
  obtain ⟨_, within⟩ := List.forall_mem_cons.mp few
  exact List.forall_mem_append.mp within

theorem call (few : (Expr.call pos e args).CallsWithin calls) :
    e.CallsWithin calls ∧ ∀ arg ∈ args, arg.CallsWithin calls := by
  obtain ⟨_, within⟩ := List.forall_mem_cons.mp few
  obtain ⟨inCallee, inArgs⟩ := List.forall_mem_append.mp within
  rw [partsOfAll_eq] at inArgs
  exact ⟨inCallee, fun arg isArg part member =>
    inArgs part (List.mem_flatMap.mpr ⟨arg, isArg, member⟩)⟩

end CallsWithin

theorem SuffixedOver.call {callee : Expr} {args : List Expr}
    (suffixed : callee.SuffixedOver calls m) (within : ∀ arg ∈ args, arg.CheckedWithin calls m)
    (pos : Position) : (Expr.call pos callee args).SuffixedOver calls m := by
  intro few
  obtain ⟨fewCallee, fewArgs⟩ := few.call
  have onCallee := suffixed fewCallee
  have onArgs : greatestCheckHeight args ≤ m :=
    greatestCheckHeight_le fun arg member => within arg member (fewArgs arg member)
  simp only [checkHeight, isSubscripted, Expr.calls, Bool.false_eq_true, if_false]
  omega

theorem SuffixedOver.index {base subscript : Expr} (suffixed : base.SuffixedOver calls m)
    (within : subscript.CheckedWithin calls m) (pos : Position) :
    (Expr.index pos base subscript).SuffixedOver calls m := by
  intro few
  obtain ⟨fewBase, fewSubscript⟩ := few.index
  have onBase := suffixed fewBase
  have onSubscript := within fewSubscript
  change max _ _ + 0 ≤ m + 2 * base.calls + 2
  omega

theorem SuffixedOver.within {e : Expr} (suffixed : e.SuffixedOver calls m) :
    e.CheckedWithin calls (m + (2 * calls + 2)) := by
  intro few
  have height := suffixed few
  have atMost := few.self
  omega

/-- One operator more. -/
theorem CheckedWithin.binary {left right : Expr} {n : Nat} (within : left.CheckedWithin calls m)
    (onRight : right.CheckedWithin calls n) (bound : n ≤ m) (pos : Position) (op : BinOp) :
    (Expr.binary pos op left right).CheckedWithin calls (m + 1) := by
  intro few
  obtain ⟨fewLeft, fewRight⟩ := few.binary
  have height := within fewLeft
  have other := onRight fewRight
  simp only [checkHeight]
  omega

end Expr

section Primary

variable {calls m : Nat} {inner : Parser Expr} (gives : Gives inner (Expr.CheckedWithin calls m))

include gives

theorem operand_checked : Gives (operand inner) (Expr.SuffixedOver calls m) := by
  have leaf {e : Expr} (height : e.checkHeight = 0) (alone : e.isSubscripted = false) :
      e.SuffixedOver calls m := by
    intro _
    rw [height, alone, if_neg Bool.false_ne_true]
    omega
  refine Gives.after fun token => ?_
  split
  · exact Gives.last (leaf rfl rfl)
  · split
    · exact Gives.last (leaf rfl rfl)
    · exact Gives.last (leaf rfl rfl)
    · refine Gives.after fun _ => ?_
      refine Gives.bind gives fun e within => ?_
      refine Gives.last fun few => ?_
      have height := within few.inner
      simp only [Expr.checkHeight, Expr.isSubscripted, Bool.false_eq_true, if_false]
      omega
    · refine Gives.after fun _ => ?_
      apply Gives.ite
      · exact fun _ => Gives.last (leaf rfl rfl)
      · exact fun _ => Gives.pure (leaf rfl rfl)

theorem suffix_checked {e : Expr} (suffixed : e.SuffixedOver calls m) :
    Gives (suffix inner e) (Expr.SuffixedOver calls m) := by
  refine Gives.after fun next => ?_
  apply Gives.ite
  · intro isCall
    refine Gives.after fun _ => ?_
    refine Gives.bind (Gives.commaList _ gives) fun args within => ?_
    exact Gives.last (suffixed.call within e.pos)
  · intro isSubscript
    refine Gives.after fun _ => ?_
    refine Gives.bind gives fun subscript within => ?_
    exact Gives.last (suffixed.index within e.pos)

theorem primary_checked :
    Gives (primary inner) (Expr.CheckedWithin calls (m + (2 * calls + 2))) := by
  refine Gives.bind (operand_checked gives) fun first suffixed => ?_
  exact fun s => (Gives.foldWhile (fun _ kept => suffix_checked gives kept) suffixed s).within

end Primary

theorem bindingOp?_isEnclosing {kind : TokenKind} (enclosing : isEnclosing kind = true)
    (least : Nat) : bindingOp? least kind = none := by
  have noOperator : kind.binOp? = none := by
    cases kind with
    | semicolon | rParen | rBracket | rBrace | eof => rfl
    | _ => cases enclosing
  rw [bindingOp?, noOperator]
  rfl

theorem run_bind_peekKind {α : Type} (f : TokenKind → Parser α) (s : Stream) :
    (peekKind >>= f).run s = (f s.token.kind).run s := rfl

/-- A refused operator takes all that it could have for its right operand. -/
theorem refusedOperator_refuses {least : Nat} (left : Expr) {s : Stream} {op : BinOp}
    (binds : bindingOp? least s.token.kind = some op) :
    (∃ pos, ((refusedOperator least left).run s).value = .binary left.pos op left (.bad pos)) ∧
      isEnclosing ((refusedOperator least left).run s).rest.token.kind = true := by
  unfold refusedOperator
  rw [run_bind_peekKind, binds]
  exact ⟨⟨_, rfl⟩, skipNested_stops (advance.run s).rest⟩

/-- On the lowest level a chain gets one operator at most: the token that is left
behind it is none. -/
theorem lowest_operators (least : Nat) (left : Expr) :
    Gives (lowestLevel.operators least left) fun e =>
      e = left ∨ ∃ op pos, e = .binary left.pos op left (.bad pos) := by
  intro s
  let isOperator (_ : Expr) (kind : TokenKind) : Bool := (bindingOp? least kind).isSome
  change (foldRun isOperator (refusedOperator least) left s).value = left ∨
    ∃ op pos, (foldRun isOperator (refusedOperator least) left s).value = _
  rw [foldRun]
  split
  · next taken =>
    obtain ⟨op, binds⟩ := Option.isSome_iff_exists.mp (Quiet.kind_of_takes taken)
    obtain ⟨⟨pos, value⟩, enclosing⟩ := refusedOperator_refuses left binds
    have stopped : takes (isOperator ((refusedOperator least left).run s).value)
        ((refusedOperator least left).run s).rest = false := by
      unfold takes
      dsimp only [isOperator]
      rw [bindingOp?_isEnclosing enclosing, Option.isSome_none, Bool.and_false]
    -- one round, and the loop stops
    dsimp only
    rw [(refusedOperator_advances least left).moving_run taken, foldRun,
      dif_neg (Bool.eq_false_iff.mp stopped)]
    exact .inr ⟨op, pos, value⟩
  · exact .inl rfl

namespace ExprParsers

/-- How deep the check of what is read on a level goes. -/
structure CheckWithin (calls : Nat) (level : ExprParsers) (n : Nat) : Prop where
  unary : Gives level.unary (Expr.CheckedWithin calls (operandLimit calls n))
  operators : ∀ {m least : Nat} {left : Expr}, left.CheckedWithin calls m →
    operandLimit calls n ≤ m →
      Gives (level.operators least left) (Expr.CheckedWithin calls (m + (n + 1)))

namespace CheckWithin

variable {calls n : Nat}

theorem binary {level : ExprParsers} (within : level.CheckWithin calls n) (least : Nat) :
    Gives (level.binary least) (Expr.CheckedWithin calls (checkLimit calls n)) :=
  Gives.bind within.unary fun _ onLeft => within.operators onLeft (Nat.le_refl _)

theorem lowest (calls : Nat) : lowestLevel.CheckWithin calls 0 := by
  constructor
  · refine Gives.after fun pos => ?_
    exact Gives.last fun _ => Nat.le_refl 0
  · intro m least left onLeft _ s
    rcases lowest_operators least left s with same | ⟨op, pos, same⟩
    · rw [same]
      exact onLeft.mono (Nat.le_succ m)
    · rw [same]
      exact onLeft.binary (fun _ => Nat.zero_le m) (Nat.le_refl m) left.pos op

theorem above {below : ExprParsers} (within : below.CheckWithin calls n) :
    (levelAbove below).CheckWithin calls (n + 1) := by
  constructor
  · refine Gives.after fun token => ?_
    split
    · refine Gives.after fun _ => ?_
      refine Gives.bind within.unary fun operand onOperand => ?_
      refine Gives.pure fun few => ?_
      have height := onOperand few.operand
      simp only [Expr.checkHeight, operandLimit]
      omega
    · exact primary_checked (within.binary 1)
  · intro m least left onLeft bound
    have room : checkLimit calls n ≤ m := Nat.le_trans (Nat.le_add_right _ _) bound
    refine Gives.after fun kind => ?_
    split
    · next op _ =>
      refine Gives.after fun _ => ?_
      refine Gives.bind (within.binary _) fun right onRight => ?_
      -- the rest of the chain is read on the level below, which has an operator less to give
      have longer := onLeft.binary onRight room left.pos op
      have enough := Nat.le_trans (operandLimit_le_checkLimit calls n) room
      intro s
      exact (within.operators longer (Nat.le_succ_of_le enough) s).mono (by omega)
    · exact Gives.pure (onLeft.mono (Nat.le_add_right m _))

end CheckWithin

end ExprParsers

theorem exprParsers_checkWithin (calls n : Nat) : (exprParsers n).CheckWithin calls n := by
  induction n with
  | zero => exact .lowest calls
  | succ n ih => exact ih.above

theorem expression_checked (calls n : Nat) :
    Gives (expression n) (Expr.CheckedWithin calls (checkLimit calls n)) :=
  (exprParsers_checkWithin calls n).binary 1

namespace Composite

theorem IsSingle.checkHeight_le {e : Expr} (single : IsSingle e) : e.checkHeight ≤ 1 := by
  have atom {e : Expr} (isAtom : e.IsAtom) : e.checkHeight = 0 := by
    cases e with
    | bad | ident | lit => rfl
    | _ => exact isAtom.elim
  cases single with
  | atom isAtom => exact Nat.le_succ_of_le (Nat.le_of_eq (atom isAtom))
  | signed pos sign isAtom => exact Nat.succ_le_succ (Nat.le_of_eq (atom isAtom))

end Composite

/-- Braces hold nothing that is checked deeper than a sign. -/
theorem compositeLiteral_checked : Gives compositeLiteral fun e => e.checkHeight ≤ 1 := by
  have nested (e : Expr) (isList : Composite.IsListOf (fun item => item.checkHeight ≤ 1) e) :
      e.checkHeight ≤ 1 := by
    obtain ⟨pos, items, rfl, low⟩ := isList
    exact Expr.greatestCheckHeight_le low
  exact fun s => nested _ (Composite.literal_gives (fun _ single => single.checkHeight_le) nested s)

end MiniC
