import MiniC.Expr.Parser
import MiniC.Proofs.Parser.QuietLoop
import MiniC.Proofs.Syntax.Starts

/-!
Expressions that were read without a problem are grammatical, and are written
with just the tokens that were passed.
-/

namespace MiniC

namespace TokenKind

theorem litKind?_eq {kind : TokenKind} {lit : LitKind} (found : kind.litKind? = some lit) :
    kind = lit.token := by
  cases kind <;> simp [litKind?] at found <;> subst found <;> rfl

theorem sign?_eq {kind : TokenKind} {sign : Sign} (found : kind.sign? = some sign) :
    kind = sign.token := by
  cases kind <;> simp [sign?] at found <;> subst found <;> rfl

theorem binOp?_eq {kind : TokenKind} {op : BinOp} (found : kind.binOp? = some op) :
    kind = op.token := by
  cases kind <;> simp [binOp?] at found <;> subst found <;> rfl

end TokenKind

theorem Sign.token_spelled (sign : Sign) : sign.token.spelling?.isSome := by
  cases sign <;> rfl

theorem BinOp.token_spelled (op : BinOp) : op.token.spelling?.isSome := by
  cases op <;> rfl

theorem Token.Exact.name_spells {token : Token} (exact : token.Exact)
    (isName : token.kind = .ident ∨ token.kind = .mainKw) :
    (Written.name token.text).Spells token := by
  unfold Written.name
  cases isName with
  | inl isIdent =>
    rw [if_neg (exact.unreserved isIdent)]
    exact ⟨isIdent, rfl⟩
  | inr isMain =>
    have text := exact.spelled "main" (isMain ▸ rfl)
    rw [if_pos text]
    exact ⟨isMain, text ▸ rfl⟩

open MiniC.Parser

/-- What a quiet reading of an expression comes to. -/
structure Expr.ReadAs (least : Nat) (start : List Lexeme) (e : Expr) (r : Stream) : Prop where
  grammatical : e.Grammatical
  tight : least ≤ e.tightness
  spelled : Spelled e.printed start r.upcoming

def SoundExpr (p : Parser Expr) : Prop :=
  ∀ s, Quiet p s fun e r => e.Grammatical ∧ Spelled e.printed s.upcoming r.upcoming

section Level

variable {inner : Parser Expr} (sound : SoundExpr inner)

include sound

theorem operand_sound (s : Stream) :
    Quiet (operand inner) s (Expr.ReadAs 5 s.upcoming) := by
  refine Quiet.of_exact fun exact => Quiet.bind_peek ?_
  split
  · next lit isLit =>
    have kind := TokenKind.litKind?_eq isLit
    have more : s.token.kind ≠ .eof := by rw [kind]; cases lit <;> nofun
    refine Quiet.bind (Quiet.advance more) fun _ r passes => Quiet.pure ?_
    exact ⟨trivial, Nat.le_refl _, passes _ ⟨kind, rfl⟩⟩
  · split
    · next isIdent =>
      have more : s.token.kind ≠ .eof := by rw [isIdent]; nofun
      refine Quiet.bind (Quiet.advance more) fun _ r passes => Quiet.pure ?_
      exact ⟨trivial, Nat.le_refl _, passes _ ((exact more).name_spells (.inl isIdent))⟩
    · next isMain =>
      have more : s.token.kind ≠ .eof := by rw [isMain]; nofun
      refine Quiet.bind (Quiet.advance more) fun _ r passes => Quiet.pure ?_
      exact ⟨trivial, Nat.le_refl _, passes _ ((exact more).name_spells (.inr isMain))⟩
    · next isParen =>
      refine Quiet.bind (Quiet.advance_symbol isParen rfl) fun _ middle opened => ?_
      refine Quiet.bind (sound middle) fun e closing body => ?_
      refine Quiet.bind (Quiet.require rfl) fun _ r closed => Quiet.pure ?_
      exact ⟨body.1, Nat.le_refl _, opened.append (body.2.append closed)⟩
    · exact Quiet.bind_missing

theorem suffix_sound (start : List Lexeme) (e : Expr) (s : Stream)
    (before : e.ReadAs 5 start s) :
    Quiet (suffix inner e) s fun next r =>
      next.ReadAs 5 start r ∧ r.remaining < s.remaining := by
  have primary := Nat.le_antisymm e.tightness_le before.tight
  refine Quiet.bind_peekKind (Quiet.ite (fun _ => ?_) fun _ => ?_)
  · refine Quiet.bind (Quiet.require rfl) fun _ middle opened => ?_
    refine Quiet.bind (Quiet.commaList sound) fun args closing inside => ?_
    refine Quiet.bind (Quiet.require rfl) fun _ r closed => Quiet.pure ?_
    have added := opened.append (inside.2.append closed)
    refine ⟨⟨⟨primary, before.grammatical, (Expr.allGrammatical_iff args).mpr inside.1⟩, Nat.le_refl _, ?_⟩,
      Quiet.remaining_lt added (List.cons_ne_nil _ _)⟩
    rw [Expr.printed, Expr.printedEach_eq_map, List.append_assoc]
    exact before.spelled.append added
  · refine Quiet.bind (Quiet.require rfl) fun _ middle opened => ?_
    refine Quiet.bind (sound middle) fun subscript closing inside => ?_
    refine Quiet.bind (Quiet.require rfl) fun _ r closed => Quiet.pure ?_
    have added := opened.append (inside.2.append closed)
    refine ⟨⟨⟨primary, before.grammatical, inside.1⟩, Nat.le_refl _, ?_⟩,
      Quiet.remaining_lt added (List.cons_ne_nil _ _)⟩
    rw [Expr.printed, List.append_assoc]
    exact before.spelled.append added

theorem primary_sound (s : Stream) :
    Quiet (primary inner) s (Expr.ReadAs 5 s.upcoming) := by
  refine Quiet.bind (operand_sound sound s) fun first middle before => ?_
  refine (Quiet.foldWhile (I := Expr.ReadAs 5 s.upcoming) ?_ before).mono fun _ _ holds => holds.1
  exact fun e s before _ => suffix_sound sound _ e s before

end Level

/-- Whether the token after an expression could not have gone on with it. -/
def EndsChain (least : Nat) (kind : TokenKind) : Prop :=
  ∀ op, kind.binOp? = some op → op.precedence < least

theorem bindingOp?_eq_none {least : Nat} {kind : TokenKind} (none : bindingOp? least kind = none) :
    EndsChain least kind := by
  intro op found
  simpa [bindingOp?, found, Option.filter] using none

theorem bindingOp?_eq_some {least : Nat} {kind : TokenKind} {op : BinOp}
    (found : bindingOp? least kind = some op) : kind.binOp? = some op ∧ least ≤ op.precedence := by
  simpa [bindingOp?, Option.filter_eq_some_iff] using found

structure SoundLevel (level : ExprParsers) : Prop where
  unary (s : Stream) : Quiet level.unary s (Expr.ReadAs 4 s.upcoming)
  operators (least : Nat) (start : List Lexeme) (left : Expr) (s : Stream) :
    left.ReadAs least start s → EndsChain (left.tightness + 1) s.token.kind →
      Quiet (level.operators least left) s fun e r =>
        e.ReadAs least start r ∧ EndsChain least r.token.kind

namespace SoundLevel

variable {level : ExprParsers} (sound : SoundLevel level)

include sound

theorem binary {least : Nat} (bound : least ≤ 4) (s : Stream) :
    Quiet (level.binary least) s fun e r =>
      e.ReadAs least s.upcoming r ∧ EndsChain least r.token.kind := by
  refine Quiet.bind (sound.unary s) fun left middle read => ?_
  refine sound.operators least s.upcoming left middle
    ⟨read.grammatical, Nat.le_trans bound read.tight, read.spelled⟩ fun op _ => ?_
  have := op.precedence_lt
  have := read.tight
  omega

theorem expr : SoundExpr level.expr := fun s =>
  (sound.binary (by decide) s).mono fun _ _ read => ⟨read.1.grammatical, read.1.spelled⟩

end SoundLevel

theorem lowestLevel_sound : SoundLevel lowestLevel where
  unary s := Quiet.bind_position Quiet.bind_refuseDepth
  operators least start left s read _ := by
    refine (Quiet.foldWhile (I := fun e r => e.ReadAs least start r) ?_ read).mono ?_
    · intro e s _ taken
      obtain ⟨op, binds⟩ := Option.isSome_iff_exists.mp (Quiet.kind_of_takes taken)
      refine Quiet.bind_peekKind ?_
      rw [binds]
      have more : s.token.kind ≠ .eof := by
        intro isEnd
        simp [isEnd, bindingOp?, TokenKind.binOp?] at binds
      refine Quiet.bind (Quiet.advance more) fun _ _ _ => ?_
      exact Quiet.bind_refuseDepth
    · rintro e r ⟨readAll, stopped⟩
      refine ⟨readAll, ?_⟩
      rcases Quiet.kind_of_not_takes stopped with isEnd | refused
      · simp [isEnd, EndsChain, TokenKind.binOp?]
      · exact bindingOp?_eq_none (by simpa using refused)

theorem levelAbove_sound {below : ExprParsers} (sound : SoundLevel below) :
    SoundLevel (levelAbove below) where
  unary s := by
    refine Quiet.bind_peek ?_
    split
    · next sign isSign =>
      have kind := TokenKind.sign?_eq isSign
      refine Quiet.bind (Quiet.advance_symbol kind sign.token_spelled) fun _ middle signed => ?_
      refine Quiet.bind (sound.unary middle) fun operand r read => Quiet.pure ?_
      exact ⟨⟨read.tight, read.grammatical⟩, Nat.le_refl _, signed.append read.spelled⟩
    · refine (primary_sound sound.expr s).mono fun e r read => ?_
      exact ⟨read.grammatical, Nat.le_of_succ_le read.tight, read.spelled⟩
  operators least start left s read ends := by
    refine Quiet.bind_peekKind ?_
    split
    · next op binds =>
      obtain ⟨isOp, tight⟩ := bindingOp?_eq_some binds
      have kind := TokenKind.binOp?_eq isOp
      refine Quiet.bind (Quiet.advance_symbol kind op.token_spelled) fun _ middle passed => ?_
      refine Quiet.bind (sound.binary op.precedence_lt middle) fun right rest readRight => ?_
      refine sound.operators least start _ rest ⟨?_, tight, ?_⟩ readRight.2
      · exact ⟨Nat.lt_succ_iff.mp (ends op isOp), readRight.1.tight, read.grammatical,
          readRight.1.grammatical⟩
      · exact read.spelled.append (passed.append readRight.1.spelled)
    · next none => exact Quiet.pure ⟨read, bindingOp?_eq_none none⟩

theorem exprParsers_sound (levels : Nat) : SoundLevel (exprParsers levels) := by
  induction levels with
  | zero => exact lowestLevel_sound
  | succ levels ih => exact levelAbove_sound ih

theorem expression_sound (levels : Nat) : SoundExpr (expression levels) :=
  (exprParsers_sound levels).expr

end MiniC
