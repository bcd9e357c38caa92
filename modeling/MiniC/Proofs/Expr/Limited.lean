import MiniC.Proofs.Expr.Complete
import MiniC.Proofs.Expr.Descends
import MiniC.Proofs.Parser.Limited
import MiniC.Proofs.Syntax.Skips

/-!
Expressions that nest too deep. Whatever is cut short in an expression, skipping
ends behind the whole of it, and no operator or suffix stands there. A bracket
that the expression opens is closed by the production that has read it, so only
what is in no brackets is cut short with the expression itself.
-/

namespace MiniC

open MiniC.Parser

/-- What a parser of expressions does on the text of each of them, however deep
it nests. -/
def SkippingExpr (p : Parser Expr) : Prop :=
  ∀ e : Expr, e.Grammatical → ReadsOrSkips p e.printed (EndsExpr 1)

theorem SkippingExpr.each {p : Parser Expr} (skipping : SkippingExpr p) {es : List Expr}
    (grammatical : ∀ e ∈ es, e.Grammatical) :
    ∀ e ∈ es, ReadsOrSkips p e.printed fun kind => kind = .comma ∨ kind = .rParen := by
  intro e member s rest spelled follows
  refine skipping e (grammatical e member) s rest spelled ?_
  rcases follows with same | same <;> rw [same] <;> exact endsExpr_of_eq rfl rfl

/-- Arguments in front of the closing parenthesis. -/
theorem SkippingExpr.args {p : Parser Expr} (skipping : SkippingExpr p) {es : List Expr}
    (grammatical : ∀ e ∈ es, e.Grammatical) {s : Stream} {text : List Written} {rest : List Lexeme}
    (spelled : Spelled (Written.commas (Expr.printedEach es) ++ .symbol .rParen :: text)
      s.upcoming rest) :
    Limited (commaList .rParen p) s fun _ r =>
      Spelled (.symbol .rParen :: text) r.upcoming rest := by
  obtain ⟨middle, listed, closing⟩ := spelled.split
  rw [Expr.printedEach_eq_map] at listed
  refine (ReadsOrSkips.commaList es (skipping.each grammatical) (fun e _ => e.printed_skips) rfl
    (fun e member => ?_) listed closing.frontKind_eq).mono fun _ r same => same ▸ closing
  obtain ⟨written, text, shape, starts, _⟩ := e.printed_starts (grammatical e member)
  exact ⟨written, text, shape, fun isClose => by simp [isClose, startsExpr] at starts⟩

section Primary

variable {inner : Parser Expr} (skipping : SkippingExpr inner) {s : Stream} {text : List Written}
  {rest : List Lexeme} {Q : Expr → Stream → Prop}

include skipping

theorem suffix_call_limited (e : Expr) (args : List Expr)
    (grammatical : ∀ arg ∈ args, arg.Grammatical)
    (spelled : Spelled
      (.symbol .lParen :: Written.commas (Expr.printedEach args) ++ .symbol .rParen :: text)
      s.upcoming rest) :
    Limited (suffix inner e) s fun _ r => Spelled text r.upcoming rest := by
  have isCall : s.token.kind = .lParen := (Succeeds.token_spells spelled).1
  refine Limited.bind_peekKind ?_
  rw [if_pos isCall]
  refine Limited.bind (Succeeds.require spelled).limited fun _ _ spelled => ?_
  refine Limited.bind (skipping.args grammatical spelled) fun _ _ spelled => ?_
  exact Limited.bind (Succeeds.require spelled).limited fun _ _ spelled => Limited.pure spelled

theorem suffix_index_limited (e : Expr) (subscript : Expr) (grammatical : subscript.Grammatical)
    (spelled : Spelled
      (.symbol .lBracket :: subscript.printed ++ .symbol .rBracket :: text) s.upcoming rest) :
    Limited (suffix inner e) s fun _ r => Spelled text r.upcoming rest := by
  have isIndex : s.token.kind = .lBracket := (Succeeds.token_spells spelled).1
  refine Limited.bind_peekKind ?_
  rw [if_neg (by rw [isIndex]; nofun)]
  refine Limited.bind (Succeeds.require spelled).limited fun _ _ spelled => ?_
  refine Limited.bind ((skipping subscript grammatical).beforeToken spelled
    (endsExpr_of_eq rfl rfl) rfl) fun _ _ spelled => ?_
  exact Limited.bind (Succeeds.require spelled).limited fun _ _ spelled => Limited.pure spelled

theorem operand_paren_limited (e : Expr) (grammatical : e.Grammatical)
    (spelled : Spelled (.symbol .lParen :: e.printed ++ .symbol .rParen :: text) s.upcoming rest) :
    Limited (operand inner) s fun _ r => Spelled text r.upcoming rest := by
  have isParen : s.token.kind = .lParen := (Succeeds.token_spells spelled).1
  refine Limited.bind_peek ?_
  simp only [isParen, TokenKind.litKind?]
  refine Limited.bind (Succeeds.advance spelled).limited fun _ _ spelled => ?_
  refine Limited.bind ((skipping e grammatical).beforeToken spelled
    (endsExpr_of_eq rfl rfl) rfl) fun _ _ spelled => ?_
  exact Limited.bind (Succeeds.require spelled).limited fun _ _ spelled => Limited.pure spelled

/-- The brackets of a primary expression are its own, so it is always read to
its end. -/
theorem primary_spine_limited : (e : Expr) → e.IsPrimary → e.Grammatical →
    ∀ {s : Stream} {text : List Written}, Spelled (e.printed ++ text) s.upcoming rest →
      (∀ found r, Spelled text r.upcoming rest →
        Limited (foldWhile (fun _ => startsSuffix) (suffix inner) found) r Q) →
      Limited (primary inner) s Q
  | .ident pos name, _, _ => fun spelled next =>
    Limited.bind (operand_ident_complete pos name spelled).limited fun found r read =>
      next found r read.2
  | .lit pos kind written, _, _ => fun spelled next =>
    Limited.bind (operand_lit_complete pos kind written spelled).limited fun found r read =>
      next found r read.2
  | .paren pos e, _, grammatical => fun spelled next => by
    rw [Expr.printed, List.append_assoc] at spelled
    exact Limited.bind (operand_paren_limited skipping e grammatical spelled) next
  | .index pos base subscript, _, ⟨isPrimary, goodBase, good⟩ => fun spelled next => by
    rw [Expr.printed, List.append_assoc, List.append_assoc] at spelled
    refine primary_spine_limited base isPrimary goodBase spelled fun found r spelled => ?_
    have isIndex : r.token.kind = .lBracket := (Succeeds.token_spells spelled).1
    have taken : takes startsSuffix r = true :=
      takes_of_kind (by rw [isIndex]; nofun) (by rw [isIndex]; rfl)
    exact Limited.foldWhile_step (suffix_advances inner) taken
      (suffix_index_limited skipping found subscript good spelled) next
  | .call pos callee args, _, ⟨isPrimary, goodCallee, good⟩ => fun spelled next => by
    rw [Expr.printed, List.append_assoc, List.append_assoc] at spelled
    refine primary_spine_limited callee isPrimary goodCallee spelled fun found r spelled => ?_
    have isCall : r.token.kind = .lParen := (Succeeds.token_spells spelled).1
    have taken : takes startsSuffix r = true :=
      takes_of_kind (by rw [isCall]; nofun) (by rw [isCall]; rfl)
    have goodArgs := (Expr.allGrammatical_iff args).mp good
    exact Limited.foldWhile_step (suffix_advances inner) taken
      (suffix_call_limited skipping found args goodArgs spelled) next
  -- an operator binds less than a primary expression
  | .binary _ op _ _, isPrimary, _ => absurd isPrimary (Nat.ne_of_lt (by
    have := op.precedence_lt
    simp only [Expr.tightness]
    omega))

theorem primary_limited (e : Expr) (isPrimary : e.IsPrimary) (grammatical : e.Grammatical)
    (spelled : Spelled e.printed s.upcoming rest)
    (follows : startsSuffix (frontKind rest) = false) :
    Limited (primary inner) s fun _ r => r.upcoming = rest := by
  rw [← List.append_nil e.printed] at spelled
  refine primary_spine_limited skipping e isPrimary grammatical spelled fun found r spelled => ?_
  have same : r.upcoming = rest := spelled.eq_of_nil
  refine Limited.foldWhile_stop (not_takes_of_kind ?_) same
  rw [r.token_kind, same]
  exact follows

end Primary

/-- What the parsers that may go `levels` deep do, however deep the text nests. -/
structure SkippingLevel (levels : Nat) : Prop where
  unary (e : Expr) : 4 ≤ e.tightness → e.Grammatical →
    ReadsOrSkips (exprParsers levels).unary e.printed (startsSuffix · = false)
  binary (least : Nat) (e : Expr) : least ≤ e.tightness → e.Grammatical →
    ReadsOrSkips ((exprParsers levels).binary least) e.printed (EndsExpr least)

theorem SkippingLevel.expr {levels : Nat} (skipping : SkippingLevel levels) :
    SkippingExpr (exprParsers levels).expr := fun e grammatical =>
  skipping.binary 1 e e.tightness_pos grammatical

theorem unary_limited (levels : Nat) (below : ∀ fewer < levels, SkippingLevel fewer) (e : Expr)
    (tight : 4 ≤ e.tightness) (grammatical : e.Grammatical) :
    ReadsOrSkips (exprParsers levels).unary e.printed (startsSuffix · = false) := by
  cases levels with
  | zero =>
    intro s rest spelled _
    refine Limited.bind_position (Limited.bind Limited.refuseDepth fun _ r cut => Limited.pure ?_)
    exact .inr (cut.trans (e.printed_skips.skipped_eq spelled))
  | succ levels =>
    have skipping := below levels (Nat.lt_succ_self _)
    intro s rest spelled follows
    refine Limited.bind_peek ?_
    rcases Expr.unary_or_isPrimary tight with ⟨pos, sign, operand, rfl⟩ | isPrimary
    · have isSign : s.token.kind = sign.token := (Succeeds.token_spells spelled).1
      simp only [isSign, sign.token_sign?]
      refine Limited.bind (Succeeds.advance spelled).limited fun _ middle spelled => ?_
      have read := skipping.unary operand grammatical.1 grammatical.2 middle rest spelled follows
      exact Limited.bind read fun _ _ ended => Limited.pure ended
    · obtain ⟨written, text, shape, _, unsigned⟩ := e.printed_starts grammatical
      have front : s.token.kind = written.kind := by
        rw [shape] at spelled
        exact s.token_kind ▸ spelled.frontKind_eq
      simp only [front, unsigned isPrimary]
      exact (primary_limited skipping.expr e isPrimary grammatical spelled follows).mono
        fun _ _ => .inl

/-- No operator stands where skipping ends. -/
theorem endsChain_of_enclosing {kind : TokenKind} (enclosing : isEnclosing kind = true)
    (least : Nat) : EndsChain least kind := by
  have noOperator : kind.binOp? = none := by
    cases kind <;> first | rfl | exact absurd enclosing (by decide)
  exact fun op found => by simp [noOperator] at found

theorem operators_cut {levels least : Nat} {left : Expr} {s : Stream} {rest : List Lexeme}
    {Q : Expr → Stream → Prop} (cut : s.upcoming = skipped rest) (holds : Q left s) :
    Limited ((exprParsers levels).operators least left) s Q := by
  refine (operators_stop (endsChain_of_enclosing ?_ least) holds).limited
  rw [s.token_kind, cut]
  exact isEnclosing_skipped rest

/-- An operator with its right operand. On the lowest level the operator is
read and its operand is skipped, along with all that follows. -/
theorem operators_step_limited {levels least : Nat} (below : ∀ fewer < levels, SkippingLevel fewer)
    {op : BinOp} {left right : Expr} {s : Stream} {text : List Written} {rest : List Lexeme}
    {Q : Expr → Stream → Prop} (binds : least ≤ op.precedence)
    (tight : op.precedence < right.tightness) (grammatical : right.Grammatical)
    (skips : SkipsOver 0 text)
    (spelled : Spelled (.symbol op.token :: right.printed ++ text) s.upcoming rest)
    (follows : ∀ middle, Spelled text middle rest →
      EndsExpr (op.precedence + 1) (frontKind middle))
    (next : ∀ fewer found r, levels = fewer + 1 → Spelled text r.upcoming rest →
      Limited ((exprParsers fewer).operators least found) r Q)
    (short : ∀ found r, r.upcoming = skipped rest → Q found r) :
    Limited ((exprParsers levels).operators least left) s Q := by
  have isOp : s.token.kind = op.token := (Succeeds.token_spells spelled).1
  have found : bindingOp? least op.token = some op := by
    simp [bindingOp?, op.token_binOp?, Option.filter, binds]
  cases levels with
  | zero =>
    -- one round of the loop takes the operator, and what it skips to is no operator
    have taken : takes (fun kind => (bindingOp? least kind).isSome) s = true :=
      takes_of_kind (isOp ▸ op.token_ne_eof) (by simp [isOp, found])
    refine Limited.foldWhile_step (P := fun _ r => r.upcoming = skipped rest)
      (refusedOperator_advances least) taken ?_ fun found r cut => ?_
    · refine Limited.bind_peekKind ?_
      simp only [isOp, found]
      refine Limited.bind (Succeeds.advance spelled).limited fun _ middle spelled => ?_
      refine Limited.bind Limited.refuseDepth fun _ r cut => ?_
      refine Limited.bind_position (Limited.pure ?_)
      exact cut.trans ((right.printed_skips.append skips).skipped_eq spelled)
    · change Limited ((exprParsers 0).operators least found) r Q
      exact operators_cut cut (short found r cut)
  | succ levels =>
    refine Limited.bind_peekKind ?_
    simp only [isOp, found]
    refine Limited.bind (Succeeds.advance spelled).limited fun _ middle spelled => ?_
    have skipping := below levels (Nat.lt_succ_self _)
    have read := (skipping.binary (op.precedence + 1) right tight grammatical).before skips spelled
      follows
    refine Limited.bind read fun found r ended => ?_
    -- where the right operand was cut short, the operators behind it went with it
    rcases ended with spelled | cut
    · exact next levels _ r rfl spelled
    · exact operators_cut cut (short _ r cut)

/-- A binary expression, from its leftmost operand on, operator by operator. -/
theorem binary_spine_limited (levels least : Nat) (below : ∀ fewer < levels, SkippingLevel fewer)
    {rest : List Lexeme} {Q : Expr → Stream → Prop}
    (short : ∀ found r, r.upcoming = skipped rest → Q found r) :
    (e : Expr) → least ≤ e.tightness → e.Grammatical →
    ∀ {s : Stream} {text : List Written}, SkipsOver 0 text →
      Spelled (e.printed ++ text) s.upcoming rest →
      (∀ middle, Spelled text middle rest → EndsExpr (e.tightness + 1) (frontKind middle)) →
      (∀ fewer found r, levels = fewer + e.operators → Spelled text r.upcoming rest →
        Limited ((exprParsers fewer).operators least found) r Q) →
      Limited ((exprParsers levels).binary least) s Q
  | .binary pos op left right, tight, ⟨leftTight, rightTight, goodLeft, good⟩ =>
    fun skips spelled follows next => by
    rw [Expr.printed, List.append_assoc] at spelled
    have skipsRight := right.printed_skips.append skips
    refine binary_spine_limited levels least below short left (Nat.le_trans tight leftTight)
      goodLeft (.symbol op.token op.isNeutral_token skipsRight) spelled ?_ ?_
    · intro middle after
      rw [after.frontKind_eq]
      exact ⟨op.token_startsSuffix, endsChain_token (Nat.lt_succ_of_le leftTight)⟩
    · intro fewer found r count spelled
      refine operators_step_limited (fun lower lt => below lower (by omega)) tight rightTight good
        skips spelled follows ?_ short
      intro lowest found r isNext spelled
      exact next lowest found r (by rw [Expr.operators]; omega) spelled
  | .bad _, _, grammatical | .composite _ _, _, grammatical => grammatical.elim
  | .ident _ _, _, grammatical | .lit _ _ _, _, grammatical | .paren _ _, _, grammatical
  | .index _ _ _, _, grammatical | .call _ _ _, _, grammatical | .unary _ _ _, _, grammatical =>
    fun skips spelled follows next => by
    have read := (unary_limited levels below _ (by simp [Expr.tightness]) grammatical).before skips
      spelled fun middle after => (follows middle after).1
    refine Limited.bind read fun found r ended => ?_
    rcases ended with spelled | cut
    · exact next levels found r rfl spelled
    · exact operators_cut cut (short found r cut)

theorem exprParsers_limited (levels : Nat) : SkippingLevel levels := by
  induction levels using Nat.strongRecOn with
  | ind levels below =>
    refine ⟨fun e tight grammatical => unary_limited levels below e tight grammatical, ?_⟩
    intro least e tight grammatical s rest spelled follows
    rw [← List.append_nil e.printed] at spelled
    refine binary_spine_limited levels least below (fun _ _ => .inr) e tight grammatical .nil
      spelled ?_ ?_
    · intro middle after
      cases after
      exact ⟨follows.1, follows.2.mono (Nat.le_succ_of_le tight)⟩
    · intro fewer found r _ spelled
      have same : r.upcoming = rest := spelled.eq_of_nil
      refine (operators_stop ?_ (.inl same)).limited
      rw [r.token_kind, same]
      exact follows.2

theorem expression_limited (levels : Nat) : SkippingExpr (expression levels) :=
  (exprParsers_limited levels).expr

end MiniC
