import MiniC.Proofs.Syntax.Levels
import MiniC.Proofs.Syntax.Skips

/-!
The trees whose reading recovers where they nest too deep. A statement that is
cut short is left at its last semicolon, or behind it if it ends in braces, and
the statements around it go on there. But an `else` behind a semicolon, or the
colon of a clause, is not where skipping ends, so the reading would be out of
step with the text.
-/

namespace MiniC

open MiniC.Parser

namespace Stmt

/-- Whether the last token of a statement is a semicolon. -/
def endsInSemicolon : Stmt → Bool
  | block _ _ | switch _ _ _ | clause _ _ _ => false
  | branch _ _ yes none => yes.endsInSemicolon
  | branch _ _ _ (some no) => no.endsInSemicolon
  | forLoop _ _ _ _ body | whileLoop _ _ body => body.endsInSemicolon
  | _ => true

/-- The semicolon that a statement ends in, if it does. -/
def ending (t : Stmt) : List Written := bif t.endsInSemicolon then [.symbol .semicolon] else []

/-- How many levels a statement takes outside of its braces. -/
def reach : Stmt → Nat
  | branch _ _ yes none => yes.reach + 1
  | branch _ _ yes (some no) => max yes.reach no.reach + 1
  | forLoop _ _ _ _ body | whileLoop _ _ body => body.reach + 1
  | _ => 1

/-- Each `else` outside of the braces of a statement stands behind a brace. -/
def ElseBehindBrace : Stmt → Prop
  | branch _ _ yes none => yes.ElseBehindBrace
  | branch _ _ yes (some no) =>
    yes.endsInSemicolon = false ∧ yes.ElseBehindBrace ∧ no.ElseBehindBrace
  | forLoop _ _ _ _ body | whileLoop _ _ body => body.ElseBehindBrace
  | _ => True

/-- None of the statements is cut short on a level, or none has an `else` that
would be left behind. -/
def InStep (levels : Nat) (stmts : List Stmt) : Prop :=
  (∀ t ∈ stmts, t.reach ≤ levels) ∨ ∀ t ∈ stmts, t.ElseBehindBrace

/-- The statements of the clauses of a switch. -/
def bodies (clauses : List Stmt) : List Stmt :=
  clauses.flatMap fun
    | clause _ _ body => body
    | _ => []

def labelLevels : Stmt → Nat
  | clause _ label _ => Expr.initLevels label
  | _ => 0

/-- What is read within a statement on a level stays in step. On the lowest
level nothing of it is read. -/
def Recovers : Nat → Stmt → Prop
  | levels + 1, block _ body => InStep levels body ∧ ∀ t ∈ body, Recovers levels t
  | levels + 1, branch _ _ yes none => Recovers levels yes
  | levels + 1, branch _ _ yes (some no) => Recovers levels yes ∧ Recovers levels no
  | levels + 1, forLoop _ _ _ _ body | levels + 1, whileLoop _ _ body => Recovers levels body
  | levels + 1, switch _ _ clauses =>
    (∀ t ∈ clauses, t.labelLevels ≤ levels) ∧ InStep levels (bodies clauses) ∧
      ∀ t ∈ bodies clauses, Recovers levels t
  | _, _ => True

theorem reach_pos (t : Stmt) : 0 < t.reach := by
  cases t with
  | branch pos cond yes no => cases no <;> exact Nat.succ_pos _
  | _ => exact Nat.succ_pos _

/-- The text of a statement up to its last semicolon, if it ends in one. -/
theorem ElseBehindBrace.printed_skips : (t : Stmt) → t.Grammatical → t.ElseBehindBrace →
    ∃ text, SkipsOver 0 text ∧ t.printed = text ++ t.ending
  | .empty _, _, _ => ⟨[], .nil, rfl⟩
  | .decl _ (some v), _, _ => ⟨_, v.unended_skips, v.printed_eq_unended⟩
  | .simple t, _, _ => ⟨_, t.printed_skips, rfl⟩
  | .ret _ none, _, _ => ⟨_, .one rfl, rfl⟩
  | .ret _ (some value), _, _ => ⟨_, .cons rfl value.printed_skips, rfl⟩
  | .block _ body, _, _ =>
    ⟨_, .brackets .lBrace .rBrace rfl rfl (printedAll_skips body), (List.append_nil _).symm⟩
  | .branch _ cond yes none, grammatical, behind => by
    obtain ⟨text, skips, shape⟩ := printed_skips yes grammatical.2 behind
    refine ⟨_, .symbol .ifKw rfl (.append cond.printedCondition_skips skips), ?_⟩
    rw [printed, shape]
    simp [ending, endsInSemicolon]
  | .branch _ cond yes (some no), grammatical, behind => by
    obtain ⟨_, goodYes, _, goodNo⟩ := grammatical
    obtain ⟨braced, behindYes, behindNo⟩ := behind
    obtain ⟨yesText, skipsYes, shapeYes⟩ := printed_skips yes goodYes behindYes
    obtain ⟨noText, skipsNo, shapeNo⟩ := printed_skips no goodNo behindNo
    refine ⟨_, .append (.symbol .ifKw rfl (.append cond.printedCondition_skips skipsYes))
      (.symbol .elseKw rfl skipsNo), ?_⟩
    rw [printed, shapeYes, shapeNo]
    simp [ending, endsInSemicolon, braced]
  | .switch _ subject clauses, _, _ => by
    refine ⟨_, .symbol .switchKw rfl (.append subject.printedCondition_skips
      (.brackets .lBrace .rBrace rfl rfl (printedAll_skips clauses))), ?_⟩
    rw [printed]
    simp [ending, endsInSemicolon]
  | .forLoop _ init cond next body, grammatical, behind => by
    obtain ⟨text, skips, shape⟩ := printed_skips body grammatical.2.2.2 behind
    refine ⟨_, .symbol .forKw rfl (.append (printedHeaders_skips init cond next) skips), ?_⟩
    rw [printed_forLoop, shape]
    simp [ending, endsInSemicolon]
  | .whileLoop _ cond body, grammatical, behind => by
    obtain ⟨text, skips, shape⟩ := printed_skips body grammatical.2 behind
    refine ⟨_, .symbol .whileKw rfl (.append cond.printedCondition_skips skips), ?_⟩
    rw [printed, shape]
    simp [ending, endsInSemicolon]
  | .scan _ target, _, _ => ⟨_, .cons rfl target.printedCondition_skips, rfl⟩
  | .print pos args, _, _ =>
    ⟨_, .cons rfl (printedArgs_skips args), printed_print pos args⟩

end Stmt

/-- The body of a function stays in step on the levels that there are. -/
def Decl.Recovers : Decl → Prop
  | .func _ f => Stmt.InStep maxNesting f.body ∧ ∀ t ∈ f.body, t.Recovers maxNesting
  | _ => True

def File.Recovers (file : File) : Prop := ∀ decl ∈ file.decls, decl.Recovers

end MiniC
