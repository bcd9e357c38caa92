import MiniC.Compilation
import MiniC.Proofs.Stmt.Reports
import MiniC.Proofs.Stmt.Orderly
import MiniC.Proofs.Stmt.Strays
import MiniC.Proofs.Syntax.Unbraced

/-!
The shape of all files that are read, and what the check makes of it. It passes
over nothing that it was to look at: no clause stands where a statement does,
nothing else stands in a switch, no function in a block, and no composite literal
in an expression. That the body of a function is a block, that there are variables
and functions at the top level only, and what may stand in the header of a loop,
is said by the types.
-/

namespace MiniC

open MiniC.Parser

section Words

theorem begins_append {left right : String} {first second : Char}
    (begins : left.toList.take 2 = [first, second]) :
    (left ++ right).toList.take 2 = [first, second] := by
  have long : 2 ≤ left.toList.length := by
    have count : (left.toList.take 2).length = 2 := congrArg List.length begins
    rw [List.length_take] at count
    omega
  rw [String.toList_append, List.take_append_of_le_length long, begins]

/-- The words for a misplaced composite literal are those of no other problem: of its
kind it is the only one that begins with its letters. -/
theorem Problem.eq_misplacedComposite_of_diagnose {problem : Problem} {place pos : Position}
    (same : problem.diagnose place = misplacedComposite.diagnose pos) :
    problem = misplacedComposite := by
  have kind : problem.kind = .typeMismatch := congrArg Diagnostic.kind same
  have words : problem.message = misplacedComposite.message := congrArg Diagnostic.message same
  have begins : ['c', 'o'] = problem.message.toList.take 2 :=
    (congrArg (fun words : String => words.toList.take 2) words).symm
  cases problem with
  | misplacedComposite => rfl
  | subscriptOfNonVariable | callOfNonFunction | assignToExpression | scanIntoExpression
  | printStringLate | printWithoutFormat => exact absurd begins (by decide)
  | subscriptOfNonArray | tooManySubscripts | assignToArray =>
    exact absurd (begins.trans (begins_append rfl)) (by decide)
  | compositeForScalar | scanIntoArray | printValue =>
    exact absurd (begins.trans (begins_append (begins_append rfl))) (by decide)
  | operandNotInt =>
    exact absurd (begins.trans (begins_append (begins_append (begins_append rfl)))) (by decide)
  | initMismatch | returnMismatch =>
    exact absurd (begins.trans (begins_append (begins_append (begins_append (begins_append rfl)))))
      (by decide)
  | _ => cases kind

end Words

theorem parse_isInShape (name source : String) :
    (parse name source).file.IsShaped Expr.IsUnbraced Expr.IsInitial :=
  parse_isShaped compositeLiteral_isInitial (fun _ unbraced => unbraced.isInitial)
    (fun levels _ => expression_unbraced levels) name source

theorem misplacedComposite_not_raised (name source : String) (pos : Position) :
    Problem.misplacedComposite.diagnose pos ∉ (compile name source).checkingLog.raised := by
  intro raised
  obtain ⟨place, problem, allowed, same⟩ :=
    File.check_reports (parse_rooted name source) .start _ raised
  have isIt := Problem.eq_misplacedComposite_of_diagnose same.symm
  rcases allowed with permitted | ⟨_, isMain⟩
  · exact (parse_isInShape name source).sites.not_permitted permitted isIt
  · rw [isIt] at isMain
    cases isMain

/-- Whatever the source is, the file that is read has its shape: the functions return
and take what they may, their statements are clauses in switches and nowhere else, the
variables have names and basic types, and composite literals stand for initial values
or in these. A local declaration that is read is never one of a function. The check with
an arm for stray statements is the check itself if the arm does nothing, and on what is
read whatever the arm does; and no composite literal is ever reported to be out of place. -/
theorem parse_shaped (name source : String) :
    let file := (parse name source).file
    file.IsShaped Expr.IsUnbraced Expr.IsInitial ∧
      (∀ expr stmt, Gives (declaration expr stmt false) fun decl => decl.func? = none) ∧
      (∀ (context : FunctionContext) (stmts : List Stmt),
        context.checkStmtsOr (fun _ => pure ()) stmts = context.checkStmts stmts) ∧
      (∀ (context : FunctionContext) (stray : Stmt → Checker Unit), ∀ f ∈ file.funcs,
        context.checkStmtsOr stray f.body = context.checkStmts f.body) ∧
      ∀ pos, Problem.misplacedComposite.diagnose pos ∉ (compile name source).checkingLog.raised := by
  have shaped := parse_isInShape name source
  refine ⟨shaped, fun _ _ => declaration_local, fun _ _ => FunctionContext.checkStmtsOr_nothing,
    ?_, misplacedComposite_not_raised name source⟩
  intro context stray f isFunc
  exact FunctionContext.checkStmtsOr_of_shaped (shaped.func isFunc).body

end MiniC
