import MiniC.Proofs.Expr.Sound
import MiniC.Proofs.Parser.SucceedsLoop
import MiniC.Proofs.Syntax.Bare
import MiniC.Proofs.Syntax.Levels

/-!
The tokens that a grammatical expression is written with are read back as that
expression, unless it takes more levels than there are. A chain of operators is
read from its leftmost operand on, so the proofs go along the left operands and
say what is left to do behind each of them.
-/

namespace MiniC

open MiniC.Parser

theorem LitKind.token_litKind? (kind : LitKind) : kind.token.litKind? = some kind := by
  cases kind <;> rfl

theorem Sign.token_sign? (sign : Sign) : sign.token.sign? = some sign := by
  cases sign <;> rfl

theorem BinOp.token_binOp? (op : BinOp) : op.token.binOp? = some op := by
  cases op <;> rfl

theorem BinOp.token_ne_eof (op : BinOp) : op.token ≠ .eof := by
  cases op <;> decide

theorem BinOp.token_startsSuffix (op : BinOp) : startsSuffix op.token = false := by
  cases op <;> rfl

theorem endsChain_token {least : Nat} {op : BinOp} (loose : op.precedence < least) :
    EndsChain least op.token := by
  intro other found
  rw [op.token_binOp?, Option.some.injEq] at found
  exact found ▸ loose

theorem EndsChain.mono {least more : Nat} {kind : TokenKind} (ends : EndsChain least kind)
    (le : least ≤ more) : EndsChain more kind :=
  fun op found => Nat.lt_of_lt_of_le (ends op found) le

/-- Tokens that may follow an expression which is read as far as possible. -/
def EndsExpr (least : Nat) (kind : TokenKind) : Prop :=
  startsSuffix kind = false ∧ EndsChain least kind

theorem endsExpr_of_eq {least : Nat} {kind : TokenKind} (suffix : startsSuffix kind = false)
    (operator : kind.binOp? = none) : EndsExpr least kind :=
  ⟨suffix, fun op found => by simp [operator] at found⟩

/-- What a parser of expressions does on the text of each of them. -/
def CompleteExpr (p : Parser Expr) (levels : Nat) : Prop :=
  ∀ e : Expr, e.Grammatical →
    Reads p e.printed (EndsExpr 1) (levels < e.levels) (·.bare = e.bare)

theorem CompleteExpr.each {p : Parser Expr} {levels : Nat} (complete : CompleteExpr p levels)
    {es : List Expr} (grammatical : ∀ e ∈ es, e.Grammatical) (close : TokenKind)
    (ends : EndsExpr 1 close) :
    ∀ e ∈ es, Reads p e.printed (fun kind => kind = .comma ∨ kind = close)
      (levels < Expr.mostLevels es) (·.bare = e.bare) := by
  intro e member s rest spelled follows
  have mayFollow : EndsExpr 1 (frontKind rest) := by
    rcases follows with isComma | isClose
    · exact isComma ▸ endsExpr_of_eq rfl rfl
    · exact isClose ▸ ends
  exact (complete e (grammatical e member) s rest spelled mayFollow).weaken fun isDeep =>
    Nat.lt_of_lt_of_le isDeep (Expr.levels_le_mostLevels member)

theorem bareAll_of_forall₂ {es found : List Expr}
    (same : List.Forall₂ (fun e e' => e'.bare = e.bare) es found) :
    Expr.bareAll found = Expr.bareAll es := by
  induction same with
  | nil => rfl
  | cons first _ ih => rw [Expr.bareAll, Expr.bareAll, first, ih]

/-- Arguments in front of the closing parenthesis. -/
theorem CompleteExpr.args {p : Parser Expr} {levels : Nat} (complete : CompleteExpr p levels)
    {es : List Expr} (grammatical : ∀ e ∈ es, e.Grammatical) :
    Reads (commaList .rParen p) (Written.commas (Expr.printedEach es)) (· = .rParen)
      (levels < Expr.mostLevels es) (fun found => Expr.bareAll found = Expr.bareAll es) := by
  rw [Expr.printedEach_eq_map]
  intro s rest spelled follows
  have noComma : TokenKind.rParen ≠ .comma := nofun
  have each := complete.each grammatical .rParen (endsExpr_of_eq rfl rfl)
  refine (Reads.commaList es noComma each (fun e member => ?_) s rest spelled follows).mono ?_
  · obtain ⟨written, text, shape, starts, _⟩ := e.printed_starts (grammatical e member)
    exact ⟨written, text, shape, fun isClose => by simp [isClose, startsExpr] at starts⟩
  · exact fun found r read => ⟨bareAll_of_forall₂ read.1, read.2⟩

section Primary

variable {inner : Parser Expr} {levels : Nat} (complete : CompleteExpr inner levels)
  {s : Stream} {deep : Prop} {text : List Written} {rest : List Lexeme} {Q : Expr → Stream → Prop}

include complete

theorem suffix_call_complete (e : Expr) (pos : Position) (callee : Expr) (args : List Expr)
    (same : e.bare = callee.bare) (grammatical : ∀ arg ∈ args, arg.Grammatical)
    (isDeep : levels < Expr.mostLevels args → deep)
    (spelled : Spelled
      (.symbol .lParen :: Written.commas (Expr.printedEach args) ++ .symbol .rParen :: text)
      s.upcoming rest) :
    Succeeds (suffix inner e) s deep fun next r =>
      next.bare = (Expr.call pos callee args).bare ∧ Spelled text r.upcoming rest := by
  have isCall : s.token.kind = .lParen := (Succeeds.token_spells spelled).1
  refine Succeeds.bind_peekKind ?_
  rw [if_pos isCall]
  refine Succeeds.bind (Succeeds.require spelled) fun _ middle spelled => ?_
  refine Succeeds.bind (((complete.args grammatical).weaken isDeep).beforeToken spelled rfl) ?_
  rintro found closing ⟨sameArgs, spelled⟩
  refine Succeeds.bind (Succeeds.require spelled) fun _ r spelled => Succeeds.pure ⟨?_, spelled⟩
  rw [Expr.bare, Expr.bare, same, sameArgs]

theorem suffix_index_complete (e : Expr) (pos : Position) (base subscript : Expr)
    (same : e.bare = base.bare) (grammatical : subscript.Grammatical)
    (isDeep : levels < subscript.levels → deep)
    (spelled : Spelled
      (.symbol .lBracket :: subscript.printed ++ .symbol .rBracket :: text) s.upcoming rest) :
    Succeeds (suffix inner e) s deep fun next r =>
      next.bare = (Expr.index pos base subscript).bare ∧ Spelled text r.upcoming rest := by
  have isIndex : s.token.kind = .lBracket := (Succeeds.token_spells spelled).1
  refine Succeeds.bind_peekKind ?_
  rw [if_neg (by rw [isIndex]; nofun)]
  refine Succeeds.bind (Succeeds.require spelled) fun _ middle spelled => ?_
  refine Succeeds.bind (((complete subscript grammatical).weaken isDeep).beforeToken spelled
    (endsExpr_of_eq rfl rfl)) ?_
  rintro found closing ⟨sameSubscript, spelled⟩
  refine Succeeds.bind (Succeeds.require spelled) fun _ r spelled => Succeeds.pure ⟨?_, spelled⟩
  rw [Expr.bare, Expr.bare, same, sameSubscript]

theorem operand_paren_complete (pos : Position) (e : Expr) (grammatical : e.Grammatical)
    (isDeep : levels < e.levels → deep)
    (spelled : Spelled (.symbol .lParen :: e.printed ++ .symbol .rParen :: text) s.upcoming rest) :
    Succeeds (operand inner) s deep fun found r =>
      found.bare = (Expr.paren pos e).bare ∧ Spelled text r.upcoming rest := by
  have isParen : s.token.kind = .lParen := (Succeeds.token_spells spelled).1
  refine Succeeds.bind_peek ?_
  simp only [isParen, TokenKind.litKind?]
  refine Succeeds.bind (Succeeds.advance spelled) fun _ middle spelled => ?_
  refine Succeeds.bind (((complete e grammatical).weaken isDeep).beforeToken spelled
    (endsExpr_of_eq rfl rfl)) ?_
  rintro found closing ⟨same, spelled⟩
  refine Succeeds.bind (Succeeds.require spelled) fun _ r spelled => Succeeds.pure ⟨?_, spelled⟩
  rw [Expr.bare, Expr.bare, same]

omit complete in
theorem operand_ident_complete (pos : Position) (name : String)
    (spelled : Spelled (.name name :: text) s.upcoming rest) :
    Succeeds (operand inner) s deep fun found r =>
      found.bare = (Expr.ident pos name).bare ∧ Spelled text r.upcoming rest := by
  obtain ⟨isName, named⟩ := (Succeeds.token_spells spelled).name
  have read : Succeeds (do Parser.advance; pure (Expr.ident s.token.pos s.token.text)) s deep
      fun found r => found.bare = (Expr.ident pos name).bare ∧ Spelled text r.upcoming rest :=
    Succeeds.bind (Succeeds.advance spelled) fun _ r spelled =>
      Succeeds.pure ⟨by rw [Expr.bare, Expr.bare, named], spelled⟩
  refine Succeeds.bind_peek ?_
  rcases isName with isIdent | isMain
  · rw [isIdent]
    exact read
  · rw [isMain]
    exact read

omit complete in
theorem operand_lit_complete (pos : Position) (kind : LitKind) (written : String)
    (spelled : Spelled (.exact kind.token written :: text) s.upcoming rest) :
    Succeeds (operand inner) s deep fun found r =>
      found.bare = (Expr.lit pos kind written).bare ∧ Spelled text r.upcoming rest := by
  obtain ⟨isLit, same⟩ := Succeeds.token_spells spelled
  refine Succeeds.bind_peek ?_
  simp only [isLit, LitKind.token_litKind?]
  refine Succeeds.bind (Succeeds.advance spelled) fun _ r spelled => Succeeds.pure ⟨?_, spelled⟩
  rw [Expr.bare, Expr.bare, same]

/-- A primary expression is read from its operand on, suffix by suffix. -/
theorem primary_spine : (e : Expr) → e.IsPrimary → e.Grammatical →
    ∀ {s : Stream} {text : List Written}, (levels + 1 < e.levels → deep) →
      Spelled (e.printed ++ text) s.upcoming rest →
      (∀ found r, found.bare = e.bare → Spelled text r.upcoming rest →
        Succeeds (foldWhile (fun _ => startsSuffix) (suffix inner) found) r deep Q) →
      Succeeds (primary inner) s deep Q
  | .ident pos name, _, _ => fun _ spelled next =>
    Succeeds.bind (operand_ident_complete pos name spelled) fun found r read =>
      next found r read.1 read.2
  | .lit pos kind written, _, _ => fun _ spelled next =>
    Succeeds.bind (operand_lit_complete pos kind written spelled) fun found r read =>
      next found r read.1 read.2
  | .paren pos e, _, grammatical => fun isDeep spelled next => by
    rw [Expr.printed, List.append_assoc] at spelled
    refine Succeeds.bind (operand_paren_complete complete pos e grammatical
      (fun deeper => isDeep (Nat.succ_lt_succ deeper)) spelled) fun found r read => ?_
    exact next found r read.1 read.2
  | .index pos base subscript, _, ⟨isPrimary, goodBase, good⟩ => fun isDeep spelled next => by
    rw [Expr.printed, List.append_assoc, List.append_assoc] at spelled
    rw [Expr.levels] at isDeep
    refine primary_spine base isPrimary goodBase (fun deeper => isDeep (by omega)) spelled ?_
    intro found r same spelled
    have read := suffix_index_complete complete found pos base subscript same good
      (fun deeper => isDeep (by omega)) spelled
    exact Succeeds.foldWhile_read rfl (by decide) spelled (by simp; omega) read next
  | .call pos callee args, _, ⟨isPrimary, goodCallee, good⟩ => fun isDeep spelled next => by
    rw [Expr.printed, List.append_assoc, List.append_assoc] at spelled
    rw [Expr.levels] at isDeep
    refine primary_spine callee isPrimary goodCallee (fun deeper => isDeep (by omega)) spelled ?_
    intro found r same spelled
    have read := suffix_call_complete complete found pos callee args same
      ((Expr.allGrammatical_iff args).mp good) (fun deeper => isDeep (by omega)) spelled
    exact Succeeds.foldWhile_read rfl (by decide) spelled (by simp; omega) read next
  | .binary _ op _ _, isPrimary, _ => absurd isPrimary (Nat.ne_of_lt (by
    have := op.precedence_lt
    simp only [Expr.tightness]
    omega))

theorem primary_complete (e : Expr) (isPrimary : e.IsPrimary) (grammatical : e.Grammatical) :
    Reads (primary inner) e.printed (startsSuffix · = false) (levels + 1 < e.levels)
      (·.bare = e.bare) := by
  intro s rest spelled follows
  rw [← List.append_nil e.printed] at spelled
  refine primary_spine complete e isPrimary grammatical id spelled fun found r same spelled => ?_
  cases spelled
  exact Succeeds.foldWhile_stop (not_takes_of_kind (r.token_kind ▸ follows)) ⟨same, rfl⟩

end Primary

/-- What the parsers that may go `levels` deep do. -/
structure CompleteLevel (levels : Nat) : Prop where
  unary (e : Expr) : 4 ≤ e.tightness → e.Grammatical →
    Reads (exprParsers levels).unary e.printed (startsSuffix · = false) (levels < e.levels)
      (·.bare = e.bare)
  binary (least : Nat) (e : Expr) : least ≤ e.tightness → e.Grammatical →
    Reads ((exprParsers levels).binary least) e.printed (EndsExpr least) (levels < e.levels)
      (·.bare = e.bare)

theorem CompleteLevel.expr {levels : Nat} (complete : CompleteLevel levels) :
    CompleteExpr (exprParsers levels).expr levels := fun e grammatical =>
  complete.binary 1 e e.tightness_pos grammatical

theorem unary_complete (levels : Nat) (below : ∀ fewer < levels, CompleteLevel fewer) (e : Expr)
    (tight : 4 ≤ e.tightness) (grammatical : e.Grammatical) :
    Reads (exprParsers levels).unary e.printed (startsSuffix · = false) (levels < e.levels)
      (·.bare = e.bare) := by
  cases levels with
  | zero =>
    intro s rest _ _
    exact Succeeds.bind_position (Succeeds.refuseDepth (e.levels_pos grammatical))
  | succ levels =>
    have complete := below levels (Nat.lt_succ_self _)
    intro s rest spelled follows
    refine Succeeds.bind_peek ?_
    rcases Expr.unary_or_isPrimary tight with ⟨pos, sign, operand, rfl⟩ | isPrimary
    · have isSign : s.token.kind = sign.token := (Succeeds.token_spells spelled).1
      simp only [isSign, sign.token_sign?]
      refine Succeeds.bind (Succeeds.advance spelled) fun _ middle spelled => ?_
      have read := complete.unary operand grammatical.1 grammatical.2 middle rest spelled follows
      refine Succeeds.bind (read.weaken Nat.succ_lt_succ) fun found r read => Succeeds.pure ?_
      exact ⟨by rw [Expr.bare, Expr.bare, read.1], read.2⟩
    · obtain ⟨written, text, shape, _, unsigned⟩ := e.printed_starts grammatical
      have front : s.token.kind = written.kind := by
        rw [shape] at spelled
        exact s.token_kind ▸ spelled.frontKind_eq
      simp only [front, unsigned isPrimary]
      exact primary_complete complete.expr e isPrimary grammatical s rest spelled follows

theorem bindingOp?_of_ends {least : Nat} {kind : TokenKind} (ends : EndsChain least kind) :
    bindingOp? least kind = none := by
  cases found : bindingOp? least kind with
  | none => rfl
  | some op =>
    obtain ⟨isOp, tight⟩ := bindingOp?_eq_some found
    exact absurd (ends op isOp) (Nat.not_lt.mpr tight)

theorem operators_stop {levels least : Nat} {left : Expr} {s : Stream} {deep : Prop}
    {Q : Expr → Stream → Prop} (ends : EndsChain least s.token.kind) (holds : Q left s) :
    Succeeds ((exprParsers levels).operators least left) s deep Q := by
  have none := bindingOp?_of_ends ends
  cases levels with
  | zero => exact Succeeds.foldWhile_stop (not_takes_of_kind (by simp [none])) holds
  | succ levels =>
    refine Succeeds.bind_peekKind ?_
    simp only [none]
    exact Succeeds.pure holds

/-- An operator is read with its right operand one level down; on the lowest
level it is too deep. -/
theorem operators_step {levels least : Nat} (below : ∀ fewer < levels, CompleteLevel fewer)
    {op : BinOp} {left right : Expr} {s : Stream} {deep : Prop} {text : List Written}
    {rest : List Lexeme} {Q : Expr → Stream → Prop} (binds : least ≤ op.precedence)
    (tight : op.precedence < right.tightness) (grammatical : right.Grammatical)
    (isDeep : levels < right.levels + 1 → deep)
    (spelled : Spelled (.symbol op.token :: right.printed ++ text) s.upcoming rest)
    (follows : ∀ middle, Spelled text middle rest →
      EndsExpr (op.precedence + 1) (frontKind middle))
    (next : ∀ fewer found pos r, levels = fewer + 1 → found.bare = right.bare →
      Spelled text r.upcoming rest →
      Succeeds ((exprParsers fewer).operators least (.binary pos op left found)) r deep Q) :
    Succeeds ((exprParsers levels).operators least left) s deep Q := by
  have isOp : s.token.kind = op.token := (Succeeds.token_spells spelled).1
  have found : bindingOp? least op.token = some op := by
    simp [bindingOp?, op.token_binOp?, Option.filter, binds]
  cases levels with
  | zero =>
    -- the operand is refused, so nothing has to be shown of a second round
    have present : s.token.kind ≠ .eof := by
      rw [isOp]
      exact op.token_ne_eof
    refine Succeeds.foldWhile_step (P := fun _ _ => False)
      (takes_of_kind present (by simp [isOp, found])) ?_ fun _ _ never => never.elim
    refine Succeeds.bind_peekKind ?_
    simp only [isOp, found]
    refine Succeeds.bind (Succeeds.advance spelled) fun _ _ _ => ?_
    exact Succeeds.refuseDepth (isDeep (Nat.succ_pos _))
  | succ levels =>
    refine Succeeds.bind_peekKind ?_
    simp only [isOp, found]
    refine Succeeds.bind (Succeeds.advance spelled) fun _ middle spelled => ?_
    have complete := below levels (Nat.lt_succ_self _)
    have read := (complete.binary (op.precedence + 1) right tight grammatical).before spelled follows
    refine Succeeds.bind (read.weaken fun deeper => isDeep (Nat.succ_lt_succ deeper)) ?_
    exact fun found r read => next levels found _ r rfl read.1 read.2

/-- A binary expression is read from its leftmost operand on, operator by
operator, each one level below the one before it. -/
theorem binary_spine (levels least : Nat) (below : ∀ fewer < levels, CompleteLevel fewer)
    {deep : Prop} {rest : List Lexeme} {Q : Expr → Stream → Prop} :
    (e : Expr) → least ≤ e.tightness → e.Grammatical →
    ∀ {s : Stream} {text : List Written}, (levels < e.levels → deep) →
      Spelled (e.printed ++ text) s.upcoming rest →
      (∀ middle, Spelled text middle rest → EndsExpr (e.tightness + 1) (frontKind middle)) →
      (∀ fewer found r, levels = fewer + e.operators → found.bare = e.bare →
        Spelled text r.upcoming rest →
        Succeeds ((exprParsers fewer).operators least found) r deep Q) →
      Succeeds ((exprParsers levels).binary least) s deep Q
  | .binary pos op left right, tight, ⟨leftTight, rightTight, goodLeft, good⟩ =>
    fun isDeep spelled follows next => by
    rw [Expr.printed, List.append_assoc] at spelled
    rw [Expr.levels] at isDeep
    -- the left side is read with the same parser, and leaves its operators to be gone on with
    refine binary_spine levels least below left (Nat.le_trans tight leftTight) goodLeft
      (fun deeper => isDeep (by omega)) spelled ?_ ?_
    · intro middle after
      rw [after.frontKind_eq]
      exact ⟨op.token_startsSuffix, endsChain_token (Nat.lt_succ_of_le leftTight)⟩
    · intro fewer found r count same spelled
      refine operators_step (fun lower lt => below lower (by omega)) tight rightTight good
        (fun deeper => isDeep (by omega)) spelled follows ?_
      intro lowest foundRight pos r isNext sameRight spelled
      refine next lowest _ r (by rw [Expr.operators]; omega) ?_ spelled
      rw [Expr.bare, Expr.bare, same, sameRight]
  | .bad _, _, grammatical | .composite _ _, _, grammatical => grammatical.elim
  | .ident _ _, _, grammatical | .lit _ _ _, _, grammatical | .paren _ _, _, grammatical
  | .index _ _ _, _, grammatical | .call _ _ _, _, grammatical | .unary _ _ _, _, grammatical =>
    fun isDeep spelled follows next => by
    have read := (unary_complete levels below _ (by simp [Expr.tightness]) grammatical).before
      spelled fun middle after => (follows middle after).1
    exact Succeeds.bind (read.weaken isDeep) fun found r read => next levels found r rfl read.1 read.2

theorem exprParsers_complete (levels : Nat) : CompleteLevel levels := by
  -- a chain of operators goes down one level for each, so all lower levels are needed
  induction levels using Nat.strongRecOn with
  | ind levels below =>
    refine ⟨fun e tight grammatical => unary_complete levels below e tight grammatical, ?_⟩
    intro least e tight grammatical s rest spelled follows
    rw [← List.append_nil e.printed] at spelled
    refine binary_spine levels least below e tight grammatical id spelled ?_ ?_
    · intro middle after
      cases after
      exact ⟨follows.1, follows.2.mono (Nat.le_succ_of_le tight)⟩
    · intro fewer found r _ same spelled
      cases spelled
      exact operators_stop (r.token_kind ▸ follows.2) ⟨same, rfl⟩

theorem expression_complete (levels : Nat) : CompleteExpr (expression levels) levels :=
  (exprParsers_complete levels).expr

end MiniC
