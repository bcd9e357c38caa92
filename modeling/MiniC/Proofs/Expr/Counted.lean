import MiniC.Expr.Parser
import MiniC.Proofs.Parser.Counted
import MiniC.Proofs.Parser.QuietLoop

/-!
Expressions read with one counter. Each operand goes one step deeper and comes back;
an operator goes deeper for its right operand and for all that follows, and only when
the chain is over all its levels are left at once. An operator that is refused has no
level to leave.
-/

namespace MiniC

open MiniC.Parser (peek peekKind position advance missing require takes)

namespace Counted

structure ExprParsers where
  unary : Counted Expr
  binary : Nat → Counted Expr

def ExprParsers.expr (inner : ExprParsers) : Counted Expr := inner.binary 1

def unary (inner : ExprParsers) : Counted Expr := nested .bad (signed inner.unary inner.expr)

/-- What stands behind an operator, and how many steps deeper it has led. -/
def rightOperand (right : Counted Expr) : Counted (Expr × Nat) := do
  if ← enter then
    let e ← right
    pure (e, 1)
  else
    let pos ← position
    pure (.bad pos, 0)

def operator (inner : ExprParsers) (least : Nat) : Expr × Nat → Counted (Expr × Nat)
  | (left, levels) => do
    match bindingOp? least (← peekKind) with
    | some op =>
      advance
      let (right, more) ← rightOperand (inner.binary (op.precedence + 1))
      pure (.binary left.pos op left right, levels + more)
    | none => pure (left, levels)

def binary (inner : ExprParsers) (least : Nat) : Counted Expr := do
  let left ← unary inner
  let (e, levels) ←
    foldWhile (fun _ kind => (bindingOp? least kind).isSome) (operator inner least) (left, 0)
  leaveMany levels
  pure e

/-- The parsers, with a bound on how often they call each other within one another. -/
def exprParsers : Nat → ExprParsers
  | 0 => ⟨giveUp (.bad .unknown), fun _ => giveUp (.bad .unknown)⟩
  | bound + 1 => ⟨unary (exprParsers bound), binary (exprParsers bound)⟩

/-- Both parsers keep to those of a level. -/
structure ExprParsers.Keep (depth : Nat) (inner : ExprParsers) (level : MiniC.ExprParsers) :
    Prop where
  unary : Keeps depth inner.unary level.unary
  binary (least : Nat) : Keeps depth (inner.binary least) (level.binary least)

section

variable {depth : Nat} {p : Counted Expr} {q : Parser Expr}

theorem operand_keeps (keeps : Keeps depth p q) : Keeps depth (operand p) (operand q) := by
  apply Keeps.after
  rintro ⟨kind, text, pos⟩
  dsimp only
  cases kind.litKind? with
  | some kind =>
    apply Keeps.after
    intro _
    exact Keeps.pure _
  | none =>
    have other : Keeps depth
        (do missing .operand; if !endsOperand kind then advance
            pure (.bad pos) : Counted Expr)
        (do missing .operand; if !endsOperand kind then advance
            pure (.bad pos)) := by
      apply Keeps.after
      intro _
      exact Keeps.ite (Keeps.last _) (Keeps.pure _)
    cases kind with
    | ident | mainKw => exact Keeps.last _
    | lParen =>
      apply Keeps.after
      intro _
      apply keeps.bind
      intro e
      exact Keeps.last _
    | _ => exact other

theorem suffix_keeps (keeps : Keeps depth p q) (e : Expr) :
    Keeps depth (suffix p e) (suffix q e) := by
  apply Keeps.after
  intro kind
  apply Keeps.ite
  · have args := Keeps.commaList .rParen keeps
    apply Keeps.after
    intro _
    apply args.bind
    intro list
    exact Keeps.last _
  · apply Keeps.after
    intro _
    apply keeps.bind
    intro subscript
    exact Keeps.last _

theorem primary_keeps (keeps : Keeps depth p q) : Keeps depth (primary p) (primary q) := by
  apply (operand_keeps keeps).bind
  intro first
  exact Keeps.foldWhile (suffix_keeps keeps) first

theorem signed_keeps {unary : Counted Expr} {level : Parser Expr} (onUnary : Keeps depth unary level)
    (keeps : Keeps depth p q) : Keeps depth (signed unary p) (signed level q) := by
  apply Keeps.after
  rintro ⟨kind, text, pos⟩
  dsimp only
  cases kind.sign? with
  | some sign =>
    apply Keeps.after
    intro _
    apply onUnary.bind
    intro operand
    exact Keeps.pure _
  | none => exact primary_keeps keeps

end

theorem rightOperand_refused (right : Counted Expr) :
    Keeps maxNesting (rightOperand right) (do
      Parser.refuseDepth
      let pos ← position
      pure (.bad pos, 0)) := by
  intro s
  use [.enter maxNesting]
  constructor
  · exact List.forall_mem_singleton.mpr (Nat.le_refl maxNesting)
  · exact run_bind (run_enter_refused s) rfl

/-- An operator that is refused changes the expression only. -/
theorem operator_refused (inner : ExprParsers) (least levels : Nat) (left : Expr) :
    Keeps maxNesting (operator inner least (left, levels))
      (do pure (← refusedOperator least left, levels)) := by
  unfold refusedOperator
  rw [bind_assoc]
  apply Keeps.after
  intro kind
  cases bindingOp? least kind with
  | none => exact Keeps.pure _
  | some op =>
    simp only [bind_assoc, pure_bind]
    apply Keeps.after
    intro _
    have whole := (rightOperand_refused (inner.binary (op.precedence + 1))).bind (fun found =>
      .pure (Expr.binary left.pos op left found.1, levels + found.2))
    simp only [bind_assoc, pure_bind] at whole
    exact whole

section Chain

variable {inner : ExprParsers} {least : Nat}

/-- The operators of a chain, from what has been reached of it. -/
def chain (inner : ExprParsers) (least : Nat) (reached : Counting (Expr × Nat)) (s : Stream) :
    Outcome (Counting (Expr × Nat)) :=
  Parser.foldRun (fun _ kind => (bindingOp? least kind).isSome)
    (fun reached => reached.resume (operator inner least)) reached s

section Above

variable {below : MiniC.ExprParsers} {left : Expr} {s : Stream}

theorem run_operators_none (found : bindingOp? least s.token.kind = none) :
    ((levelAbove below).operators least left).run s = ⟨left, s, []⟩ := by
  unfold levelAbove
  dsimp only
  rw [Parser.run_peekKind, found]
  rfl

theorem run_operators_some {op : BinOp} (found : bindingOp? least s.token.kind = some op) :
    ((levelAbove below).operators least left).run s =
      (do
        advance
        let right ← below.binary (op.precedence + 1)
        below.operators least (.binary left.pos op left right) : Parser Expr).run s := by
  unfold levelAbove
  dsimp only
  rw [Parser.run_peekKind, found]

end Above

/-- One operator of a chain that goes deeper. -/
theorem run_operator {depth levels : Nat} {left : Expr} {op : BinOp} {right : Parser Expr}
    (below : depth < maxNesting)
    (keeps : Keeps (depth + 1) (inner.binary (op.precedence + 1)) right) {s : Stream}
    (found : bindingOp? least s.token.kind = some op) :
    ∃ calls : List DepthCall, (∀ call ∈ calls, call.IsBalanced) ∧
      (operator inner least (left, levels) depth).run s =
        let passed := advance.run s
        let read := right.run passed.rest
        ⟨⟨(.binary left.pos op left read.value, levels + 1), depth + 1, calls⟩, read.rest,
          passed.log ++ read.log⟩ := by
  obtain ⟨calls, balanced, same⟩ := keeps (advance.run s).rest
  have entered : (rightOperand (inner.binary (op.precedence + 1)) depth).run (advance.run s).rest =
      ⟨⟨((right.run (advance.run s).rest).value, 1), depth + 1, .enter depth :: calls⟩,
        (right.run (advance.run s).rest).rest, (right.run (advance.run s).rest).log⟩ := by
    refine run_bind (run_enter below _) ?_
    exact run_pure same
  use .enter depth :: calls
  constructor
  · exact List.forall_mem_cons.mpr ⟨Nat.le_of_lt below, balanced⟩
  · have looked : bindingOp? least (peekKind.run s).value = some op := found
    refine run_bind (run_lift peekKind depth s) ?_
    rw [looked]
    refine run_bind (run_lift advance depth s) ?_
    exact run_pure entered

theorem chain_ended {reached : Counting (Expr × Nat)} {s : Stream}
    (found : bindingOp? least s.token.kind = none) :
    chain inner least reached s = ⟨reached, s, []⟩ := by
  have stopped : ¬ takes (fun kind => (bindingOp? least kind).isSome) s = true := by
    rw [takes, found]
    simp
  rw [chain, Parser.foldRun.eq_def, dif_neg stopped]

/-- A chain goes on one step deeper behind an operator. -/
theorem chain_deeper {depth : Nat} {op : BinOp} {right : Parser Expr} (below : depth < maxNesting)
    (keeps : Keeps (depth + 1) (inner.binary (op.precedence + 1)) right) {s : Stream}
    (found : bindingOp? least s.token.kind = some op) (left : Expr) (levels : Nat)
    (sooner : List DepthCall) :
    ∃ calls : List DepthCall, (∀ call ∈ calls, call.IsBalanced) ∧
      chain inner least ⟨(left, levels), depth, sooner⟩ s =
        let passed := advance.run s
        let read := right.run passed.rest
        let later := chain inner least
          ⟨(.binary left.pos op left read.value, levels + 1), depth + 1, sooner ++ calls⟩ read.rest
        ⟨later.value, later.rest, passed.log ++ read.log ++ later.log⟩ := by
  have isToken : s.token.kind ≠ .eof := by
    intro isEnd
    rw [isEnd] at found
    cases found
  have present := Stream.remaining_pos isToken
  have taken : takes (fun kind => (bindingOp? least kind).isSome) s = true := by
    rw [takes, found, decide_eq_true present]
    rfl
  obtain ⟨calls, balanced, same⟩ := run_operator below keeps found
  let read := right.run (advance.run s).rest
  have round : (Parser.moving ((⟨(left, levels), depth, sooner⟩ :
      Counting (Expr × Nat)).resume (operator inner least))).run s =
        ⟨⟨(.binary left.pos op left read.value, levels + 1), depth + 1, sooner ++ calls⟩, read.rest,
          (advance.run s).log ++ read.log⟩ := by
    have shorter : read.rest.remaining < s.remaining :=
      Nat.lt_of_le_of_lt (right.isRest _).remaining_le (Parser.advance_shortens present)
    unfold Parser.moving
    dsimp only
    rw [run_resume, same]
    exact if_pos shorter
  refine ⟨calls, balanced, ?_⟩
  rw [chain, Parser.foldRun.eq_def, dif_pos taken, round]
  rfl

/-- The rest of a chain of operators. It ends as many steps deeper as it has counted. -/
theorem run_chain {level : Nat} (allowed : level ≤ maxNesting)
    (keep : ∀ below < level, inner.Keep (maxNesting - below) (MiniC.exprParsers below))
    (left : Expr) (levels : Nat) (sooner : List DepthCall) (s : Stream) :
    ∃ (entered : Nat) (calls : List DepthCall), (∀ call ∈ calls, call.IsBalanced) ∧
      maxNesting - level + entered ≤ maxNesting ∧
      chain inner least ⟨(left, levels), maxNesting - level, sooner⟩ s =
        let read := ((MiniC.exprParsers level).operators least left).run s
        ⟨⟨(read.value, levels + entered), maxNesting - level + entered, sooner ++ calls⟩,
          read.rest, read.log⟩ := by
  induction level generalizing left levels sooner s with
  | zero =>
    have each : ∀ paired : Expr × Nat, Keeps maxNesting (operator inner least paired)
        (do pure (← refusedOperator least paired.1, paired.2)) :=
      fun paired => operator_refused inner least paired.2 paired.1
    obtain ⟨calls, balanced, same⟩ := Keeps.run_foldRun each (left, levels) sooner s
    rw [Keeps.run_paired (fun kind => (bindingOp? least kind).isSome)] at same
    rw [Nat.sub_zero]
    refine ⟨0, calls, balanced, Nat.le_refl _, ?_⟩
    rw [Nat.add_zero, Nat.add_zero]
    exact same
  | succ level ih =>
    have deeper : maxNesting - (level + 1) + 1 = maxNesting - level := by omega
    rw [MiniC.exprParsers]
    cases found : bindingOp? least s.token.kind with
    | none =>
      refine ⟨0, [], List.forall_mem_nil _, Nat.sub_le _ _, ?_⟩
      rw [run_operators_none found, chain_ended found, List.append_nil]
      rfl
    | some op =>
      have right := (keep level (Nat.lt_succ_self level)).binary (op.precedence + 1)
      rw [← deeper] at right
      obtain ⟨calls, balanced, same⟩ := chain_deeper (by omega) right found left levels sooner
      let read := ((MiniC.exprParsers level).binary (op.precedence + 1)).run (advance.run s).rest
      -- the rest of the chain belongs to the level below, where the right operand was read
      obtain ⟨entered, more, others, within, goes⟩ := ih (Nat.le_of_succ_le allowed)
        (fun below isBelow => keep below (Nat.lt_succ_of_lt isBelow))
        (.binary left.pos op left read.value) (levels + 1) (sooner ++ calls) read.rest
      rw [deeper] at same
      dsimp only at same
      rw [goes] at same
      refine ⟨entered + 1, calls ++ more, List.forall_mem_append.mpr ⟨balanced, others⟩, ?_, ?_⟩
      · omega
      · have counted : levels + (entered + 1) = levels + 1 + entered := by omega
        have final : maxNesting - (level + 1) + (entered + 1) = maxNesting - level + entered := by
          omega
        rw [counted, final, run_operators_some found, same, List.append_assoc, List.append_assoc]
        rfl

end Chain

/-- Under a bound above the level the parsers do what those of the level do. -/
theorem exprParsers_keep {bound level : Nat} (enough : level < bound)
    (allowed : level ≤ maxNesting) :
    (exprParsers bound).Keep (maxNesting - level) (MiniC.exprParsers level) := by
  induction bound generalizing level with
  | zero => cases enough
  | succ bound ih =>
    have keep (below : Nat) (isBelow : below < level) :
        (exprParsers bound).Keep (maxNesting - below) (MiniC.exprParsers below) :=
      ih (by omega) (by omega)
    have unary : Keeps (maxNesting - level) (unary (exprParsers bound))
        (MiniC.exprParsers level).unary := by
      cases level with
      | zero => exact .refused _
      | succ level =>
        have deeper : maxNesting - (level + 1) + 1 = maxNesting - level := by omega
        refine .nested (by omega) ?_
        rw [deeper]
        have inside := keep level (Nat.lt_succ_self level)
        exact signed_keeps inside.unary (inside.binary 1)
    refine ⟨unary, fun least => .bind unary fun left s => ?_⟩
    obtain ⟨entered, chained, balanced, within, goes⟩ := run_chain allowed keep left 0 [] s
    let read := ((MiniC.exprParsers level).operators least left).run s
    obtain ⟨leaving, others, back⟩ := run_leaveMany within read.rest
    use chained ++ leaving
    constructor
    · exact List.forall_mem_append.mpr ⟨balanced, others⟩
    · rw [Nat.zero_add, List.nil_append] at goes
      rw [← List.append_nil read.log]
      refine run_bind goes ?_
      exact run_pure back

theorem expression_keeps {bound level : Nat} (enough : level < bound)
    (allowed : level ≤ maxNesting) :
    Keeps (maxNesting - level) (exprParsers bound).expr (expression level) :=
  (exprParsers_keep enough allowed).binary 1

end Counted

end MiniC
