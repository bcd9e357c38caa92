import MiniC.Expr.Parser
import MiniC.Proofs.Expr.Braced
import MiniC.Proofs.Parser.Gives
import MiniC.Proofs.Parser.Succeeds
import MiniC.Proofs.Syntax.Height

/-!
How deep the expressions are that are read within some levels, unless the nesting is
reported to be too deep. Once that is reported the log keeps it, so each part of a
production may take for granted that the parts before it did not report. A level bounds
what stands in a parenthesis, behind a sign or to the right of an operator; the chain of
operators goes on from its first operand, which has been read by then and whose levels
are free again.
-/

namespace MiniC.Parser

variable {α β σ : Type}

def Nests (p : Parser α) (good : α → Prop) : Prop :=
  ∀ s, (p.run s).log.TooDeep ∨ good (p.run s).value

namespace Nests

variable {p : Parser α} {f : α → Parser β} {good : α → Prop} {Q : β → Prop}

theorem of_gives (gives : Gives p good) : Nests p good := fun s => .inr (gives s)

theorem mono {better : α → Prop} (nests : Nests p better) (weaker : ∀ a, better a → good a) :
    Nests p good := fun s => (nests s).imp_right (weaker _)

theorem pure {a : α} (holds : good a) : Nests (pure a) good := fun _ => .inr holds

theorem bind (first : Nests p good) (next : ∀ a, good a → Nests (f a) Q) : Nests (p >>= f) Q := by
  intro s
  rcases first s with tooDeep | holds
  · exact .inl (tooDeep.left _)
  · rcases next _ holds (p.run s).rest with tooDeep | holds
    · exact .inl (tooDeep.right _)
    · exact .inr holds

/-- Nothing is asked of what comes first. -/
theorem after (next : ∀ a, Nests (f a) Q) : Nests (p >>= f) Q := by
  have any : Nests p fun _ => True := of_gives fun _ => trivial
  exact bind any fun a _ => next a

theorem map {g : α → β} (nests : Nests p fun a => Q (g a)) : Nests (g <$> p) Q :=
  bind nests fun _ holds => pure holds

theorem ite {c : Prop} [Decidable c] {yes no : Parser α} (isYes : c → Nests yes good)
    (isNo : ¬ c → Nests no good) : Nests (if c then yes else no) good := by
  by_cases holds : c
  · rw [if_pos holds]
    exact isYes holds
  · rw [if_neg holds]
    exact isNo holds

/-- A refusal is a report, whatever is read instead. -/
theorem refuseDepth {f : Unit → Parser β} : Nests (refuseDepth >>= f) Q := by
  intro s
  left
  apply Log.TooDeep.left
  exact ⟨GrammarProblem.tooDeep.diagnose s.token.pos, List.mem_cons_self, rfl⟩

theorem moving (nests : Nests p good) : Nests (moving p) good := by
  intro s
  unfold Parser.moving
  dsimp only
  split
  · exact nests s
  · exact (nests s).imp_left fun tooDeep => tooDeep.left _

theorem manyWhile (more : TokenKind → Bool) (nests : Nests p good) :
    Nests (manyWhile more p) fun as => ∀ a ∈ as, good a := by
  intro s
  change (manyRun more p s).log.TooDeep ∨ ∀ a ∈ (manyRun more p s).value, good a
  fun_induction manyRun more p s with
  | case1 s taken first later ih =>
    rcases nests.moving s with tooDeep | holds
    · exact .inl (tooDeep.left _)
    · rcases ih with tooDeep | others
      · exact .inl (tooDeep.right _)
      · exact .inr (List.forall_mem_cons.mpr ⟨holds, others⟩)
  | case2 s stopped => exact .inr fun _ none => (List.not_mem_nil none).elim

theorem commaList (close : TokenKind) (nests : Nests p good) :
    Nests (commaList close p) fun as => ∀ a ∈ as, good a := by
  have some : Nests (commaSeparated p) fun as => ∀ a ∈ as, good a := by
    apply bind nests
    intro first isGood
    apply bind (manyWhile _ (after fun _ => nests))
    exact fun later areGood => pure (List.forall_mem_cons.mpr ⟨isGood, areGood⟩)
  exact after fun _ => ite (fun _ => pure nofun) fun _ => some

/-- What each step keeps, if the loop starts with it. -/
theorem foldWhile {more : σ → TokenKind → Bool} {step : σ → Parser σ} {keeps : σ → Prop}
    (each : ∀ state, keeps state → Nests (step state) keeps) {start : σ} (holds : keeps start) :
    Nests (foldWhile more step start) keeps := by
  intro s
  change (foldRun more step start s).log.TooDeep ∨ keeps (foldRun more step start s).value
  fun_induction foldRun more step start s with
  | case1 state s taken first later ih =>
    rcases (each state holds).moving s with tooDeep | kept
    · exact .inl (tooDeep.left _)
    · exact (ih kept).imp_left fun tooDeep => tooDeep.right _
  | case2 state s stopped => exact .inr holds

end Nests

end MiniC.Parser

namespace MiniC

open MiniC.Parser

/-- An expression that is read on a level above `n`, before any operator. -/
structure Expr.Signed (n : Nat) (e : Expr) : Prop where
  levels : e.levels ≤ n + 1
  height : e.height ≤ triangle n
  apart : e.operators = 0

namespace Expr

variable {n : Nat}

theorem Within.paren {e : Expr} (within : e.Within n) (pos : Position) :
    (Expr.paren pos e).Signed n := by
  constructor
  · exact Nat.succ_le_succ within.levels
  · exact within.height
  · rfl

theorem Within.unary {e : Expr} (within : e.Within n) (pos : Position) (sign : Sign) :
    (Expr.unary pos sign e).Signed n := by
  constructor
  · exact Nat.succ_le_succ within.levels
  · exact within.height
  · rfl

theorem Signed.index {base subscript : Expr} (signed : base.Signed n) (within : subscript.Within n)
    (pos : Position) : (Expr.index pos base subscript).Signed n := by
  constructor
  · exact Nat.max_le.mpr ⟨signed.levels, Nat.succ_le_succ within.levels⟩
  · exact Nat.max_le.mpr ⟨signed.height, Nat.le_of_lt within.height⟩
  · rfl

theorem Signed.call {callee : Expr} {args : List Expr} (signed : callee.Signed n)
    (within : ∀ e ∈ args, e.Within n) (pos : Position) : (Expr.call pos callee args).Signed n := by
  have levels := mostLevels_le fun e member => (within e member).levels
  have height := greatestHeight_le fun e member => Nat.le_of_lt (within e member).height
  constructor
  · exact Nat.max_le.mpr ⟨signed.levels, Nat.succ_le_succ levels⟩
  · exact Nat.max_le.mpr ⟨signed.height, height⟩
  · rfl

/-- A chain of operators so far, on a level above `n`. -/
structure Chained (n : Nat) (e : Expr) : Prop where
  levels : e.levels ≤ n + 1
  height : e.height ≤ triangle n + e.operators
  short : e.operators ≤ n

theorem Signed.chained {e : Expr} (signed : e.Signed n) : e.Chained n := by
  constructor
  · exact signed.levels
  · exact Nat.le_add_right_of_le signed.height
  · exact signed.apart ▸ Nat.zero_le n

theorem Chained.within {e : Expr} (chained : e.Chained n) : e.Within (n + 1) := by
  constructor
  · exact chained.levels
  · have height := chained.height
    have short := chained.short
    unfold triangle
    omega

theorem Within.positive {e : Expr} (within : e.Within n) : 0 < n := by
  cases n with
  | zero => exact absurd within.height (Nat.not_lt_zero _)
  | succ n => exact Nat.succ_pos n

/-- One operator more, whose right operand is read below the operators so far. -/
theorem Chained.binary {left right : Expr} {below : Nat} (chained : left.Chained n)
    (within : right.Within below) (room : below + left.operators = n) (pos : Position)
    (op : BinOp) : (Expr.binary pos op left right).Chained n := by
  -- the levels below are those that the operators so far have left
  have smaller : triangle below ≤ triangle n := triangle_mono (by omega)
  have positive := within.positive
  obtain ⟨levels, height, short⟩ := chained
  obtain ⟨rightLevels, rightHeight⟩ := within
  constructor
  · apply Nat.max_le.mpr
    constructor
    · exact levels
    · omega
  · simp only [Expr.height, Expr.operators]
    omega
  · simp only [Expr.operators]
    omega

end Expr

section Primary

variable {n : Nat} {inner : Parser Expr} (nests : Nests inner (Expr.Within n))

include nests

theorem operand_nests : Nests (operand inner) (Expr.Signed n) := by
  have leaf {e : Expr} (levels : e.levels ≤ 1) (height : e.height = 0) (apart : e.operators = 0) :
      e.Signed n :=
    ⟨Nat.le_add_left_of_le levels, height ▸ Nat.zero_le _, apart⟩
  apply Nests.after
  intro token
  split
  · exact Nests.after fun _ => Nests.pure (leaf (Nat.le_refl 1) rfl rfl)
  · split
    · exact Nests.after fun _ => Nests.pure (leaf (Nat.le_refl 1) rfl rfl)
    · exact Nests.after fun _ => Nests.pure (leaf (Nat.le_refl 1) rfl rfl)
    · apply Nests.after
      intro _
      apply Nests.bind nests
      exact fun e within => Nests.after fun _ => Nests.pure (within.paren token.pos)
    · have bad : (Expr.bad token.pos).Signed n := leaf (Nat.zero_le 1) rfl rfl
      apply Nests.after
      intro _
      exact Nests.ite (fun _ => Nests.after fun _ => Nests.pure bad) fun _ => Nests.pure bad

theorem suffix_nests {e : Expr} (signed : e.Signed n) : Nests (suffix inner e) (Expr.Signed n) := by
  apply Nests.after
  intro kind
  apply Nests.ite
  · intro _
    apply Nests.after
    intro _
    apply Nests.bind (Nests.commaList _ nests)
    exact fun args within => Nests.after fun _ => Nests.pure (signed.call within e.pos)
  · intro _
    apply Nests.after
    intro _
    apply Nests.bind nests
    exact fun subscript within => Nests.after fun _ => Nests.pure (signed.index within e.pos)

theorem primary_nests : Nests (primary inner) (Expr.Signed n) := by
  apply Nests.bind (operand_nests nests)
  exact fun first signed => Nests.foldWhile (fun e => suffix_nests nests) signed

end Primary

/-- What the parsers that may go `n` deep read. -/
structure ExprParsers.NestWithin (level : ExprParsers) (n : Nat) : Prop where
  unary : Nests level.unary (Expr.Within n)
  operators : ∀ {above least : Nat} {left : Expr}, left.Chained above →
    n + left.operators = above + 1 → Nests (level.operators least left) (Expr.Within (above + 1))
  binary : ∀ least, Nests (level.binary least) (Expr.Within n)

namespace ExprParsers.NestWithin

theorem lowest : lowestLevel.NestWithin 0 := by
  have refused : Nests lowestLevel.unary (Expr.Within 0) := Nests.after fun _ => Nests.refuseDepth
  constructor
  · exact refused
  · intro above least left chained room
    have short := chained.short
    omega
  · exact fun least => Nests.bind refused fun left within => absurd within.positive (Nat.lt_irrefl 0)

variable {n : Nat} {below : ExprParsers} (nested : below.NestWithin n)

include nested

theorem signed : Nests (signed below.unary below.expr) (Expr.Signed n) := by
  apply Nests.after
  intro token
  split
  · next sign _ =>
    apply Nests.after
    intro _
    exact Nests.bind nested.unary fun operand within => Nests.pure (within.unary token.pos sign)
  · exact primary_nests (nested.binary 1)

theorem operators_above {above least : Nat} {left : Expr} (chained : left.Chained above)
    (room : n + 1 + left.operators = above + 1) :
    Nests ((levelAbove below).operators least left) (Expr.Within (above + 1)) := by
  apply Nests.after
  intro kind
  split
  · next op _ =>
    apply Nests.after
    intro _
    apply Nests.bind (nested.binary (op.precedence + 1))
    intro right within
    -- an operator more on the chain is a level less below it
    have longer := chained.binary within (by omega) left.pos op
    apply nested.operators longer
    simp only [Expr.operators]
    omega
  · exact Nests.pure chained.within

theorem above : (levelAbove below).NestWithin (n + 1) := by
  constructor
  · exact nested.signed.mono fun e isSigned => isSigned.chained.within
  · exact fun chained room => nested.operators_above chained room
  · intro least
    apply Nests.bind nested.signed
    intro left isSigned
    have alone := isSigned.apart
    exact nested.operators_above isSigned.chained (by omega)

end ExprParsers.NestWithin

theorem exprParsers_nest (n : Nat) : (exprParsers n).NestWithin n := by
  induction n with
  | zero => exact .lowest
  | succ n ih => exact ih.above

theorem expression_nests (n : Nat) : Nests (expression n) (Expr.Within n) :=
  (exprParsers_nest n).binary 1

namespace Composite

theorem IsSingle.height_le {e : Expr} (single : IsSingle e) : e.height ≤ 1 := by
  have atom {e : Expr} (isAtom : e.IsAtom) : e.height = 0 := by
    cases e with
    | bad | ident | lit => rfl
    | _ => exact isAtom.elim
  cases single with
  | atom isAtom => exact Nat.le_succ_of_le (Nat.le_of_eq (atom isAtom))
  | signed pos sign isAtom => exact Nat.succ_le_succ (Nat.le_of_eq (atom isAtom))

/-- Braces hold nothing deeper than a sign. -/
theorem height_le_of_isListOf {e : Expr} (isList : IsListOf (fun item => item.height ≤ 1) e) :
    e.levels = 0 ∧ e.height ≤ 1 := by
  obtain ⟨pos, items, rfl, low⟩ := isList
  exact ⟨rfl, Expr.greatestHeight_le low⟩

end Composite

/-- Braces are no levels. -/
theorem compositeLiteral_nests :
    Nests compositeLiteral fun e => e.levels = 0 ∧ e.height ≤ 1 :=
  .of_gives fun s => Composite.height_le_of_isListOf <|
    Composite.literal_gives (fun _ single => single.height_le)
      (fun _ isList => (Composite.height_le_of_isListOf isList).2) s

end MiniC
