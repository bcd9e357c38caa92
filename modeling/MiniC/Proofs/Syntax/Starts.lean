import MiniC.Proofs.Syntax.Grammatical
import MiniC.Proofs.Syntax.Spelled

/-!
The first tokens of trees. The parser looks one token ahead, so they tell what
it is going to read, and where a list of statements or declarations ends.
-/

namespace MiniC

theorem ne_nil_of_starts {text : List Written} {P : Written → Prop}
    (starts : ∃ written later, text = written :: later ∧ P written) : text ≠ [] := by
  obtain ⟨written, later, rfl, _⟩ := starts
  exact List.cons_ne_nil written later

/-- Tokens that an expression may start with. -/
def startsExpr : TokenKind → Bool
  | .ident | .mainKw | .intLit | .charLit | .strLit | .lParen | .plus | .minus => true
  | _ => false

theorem Written.name_kind (text : String) :
    (Written.name text).kind = .ident ∨ (Written.name text).kind = .mainKw := by
  unfold Written.name
  split
  · exact .inr rfl
  · exact .inl rfl

namespace Expr

/-- The first token of an expression; a primary one starts with no sign. -/
theorem printed_starts : (e : Expr) → e.Grammatical → ∃ written text,
    e.printed = written :: text ∧ startsExpr written.kind = true ∧
      (e.IsPrimary → written.kind.sign? = none)
  | .ident _ name, _ => by
    refine ⟨_, _, rfl, ?_⟩
    rcases Written.name_kind name with kind | kind <;> rw [kind] <;> exact ⟨rfl, fun _ => rfl⟩
  | .lit _ kind _, _ => ⟨_, _, rfl, by cases kind <;> exact ⟨rfl, fun _ => rfl⟩⟩
  | .paren _ _, _ => ⟨_, _, rfl, rfl, fun _ => rfl⟩
  | .index _ base _, grammatical => by
    obtain ⟨written, text, shape, starts, unsigned⟩ := printed_starts base grammatical.2.1
    exact ⟨written, _, by rw [printed, shape]; rfl, starts, fun _ => unsigned grammatical.1⟩
  | .call _ callee _, grammatical => by
    obtain ⟨written, text, shape, starts, unsigned⟩ := printed_starts callee grammatical.2.1
    exact ⟨written, _, by rw [printed, shape]; rfl, starts, fun _ => unsigned grammatical.1⟩
  | .unary _ sign _, _ => ⟨_, _, rfl, by cases sign <;> rfl, nofun⟩
  | .binary _ op left _, grammatical => by
    obtain ⟨written, text, shape, starts, _⟩ := printed_starts left grammatical.2.2.1
    refine ⟨written, _, by rw [printed, shape]; rfl, starts, fun isPrimary => ?_⟩
    have := op.precedence_lt
    simp only [IsPrimary, tightness] at isPrimary
    omega

end Expr

/-- Tokens that a statement may start with. -/
def startsStmt : TokenKind → Bool
  | .constKw | .intKw | .charKw | .voidKw | .ifKw | .whileKw | .forKw | .switchKw | .lBrace
  | .printfKw | .scanfKw | .returnKw | .semicolon => true
  | kind => startsExpr kind

theorem startsStmt_of_startsExpr {kind : TokenKind} (starts : startsExpr kind = true) :
    startsStmt kind = true := by
  cases kind <;> first | rfl | exact starts

theorem Simple.printed_starts (t : Simple) (grammatical : t.Grammatical) : ∃ written text,
    t.printed = written :: text ∧ startsExpr written.kind = true := by
  cases t with
  | expr pos e =>
    obtain ⟨written, text, shape, starts, _⟩ := e.printed_starts grammatical
    exact ⟨written, text, shape, starts⟩
  | assign pos target value =>
    obtain ⟨written, text, shape, starts, _⟩ := target.printed_starts grammatical.1
    exact ⟨written, _, by rw [printed, shape]; rfl, starts⟩

theorem VarDecl.printed_starts (v : VarDecl) : ∃ written text,
    v.printed = written :: text ∧ startsStmt written.kind = true := by
  unfold VarDecl.printed
  split
  · exact ⟨_, _, rfl, rfl⟩
  · exact ⟨_, _, rfl, by cases v.base <;> rfl⟩

namespace Stmt

theorem printed_starts (t : Stmt) (grammatical : t.Grammatical) : ∃ written text,
    t.printed = written :: text ∧ startsStmt written.kind = true := by
  cases t with
  | bad | clause => exact grammatical.elim
  | decl pos vars =>
    cases vars with
    | none => exact grammatical.elim
    | some v => exact v.printed_starts
  | simple t =>
    obtain ⟨written, text, shape, starts⟩ := t.printed_starts grammatical
    exact ⟨written, _, by rw [printed, shape]; rfl, startsStmt_of_startsExpr starts⟩
  | ret pos value => cases value <;> exact ⟨_, _, rfl, rfl⟩
  | branch pos cond yes no => cases no <;> exact ⟨_, _, rfl, rfl⟩
  | _ => exact ⟨_, _, rfl, rfl⟩

end Stmt

theorem Stmt.IsClause.printed_starts {t : Stmt} (isClause : t.IsClause) : ∃ written text,
    t.printed = written :: text ∧ (written.kind = .caseKw ∨ written.kind = .defaultKw) := by
  cases t with
  | clause pos label body =>
    cases label with
    | none => exact ⟨_, _, rfl, .inr rfl⟩
    | some => exact ⟨_, _, rfl, .inl rfl⟩
  | _ => exact isClause.elim

theorem Decl.printed_starts {decl : Decl} (grammatical : decl.Grammatical) : ∃ written text,
    decl.printed = written :: text ∧ written.kind ≠ .eof := by
  cases decl with
  | bad => exact grammatical.elim
  | func pos f => exact ⟨_, _, rfl, by cases f.returns <;> simp [Written.kind, Ty.keyword]⟩
  | vars pos v =>
    obtain ⟨written, text, shape, starts⟩ := v.printed_starts
    exact ⟨written, text, shape, fun isEnd => by simp [isEnd, startsStmt, startsExpr] at starts⟩

end MiniC
