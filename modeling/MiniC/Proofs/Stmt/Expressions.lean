import MiniC.Proofs.Stmt.Shaped
import MiniC.Proofs.Syntax.CheckHeight

/-!
Where the expressions of a file come from. Each was read as an expression on some
level, or as a composite literal; so what holds of all that these two read, well
or badly, holds of all expressions in a file.
-/

namespace MiniC

open MiniC.Parser

variable {P : Expr → Prop}

theorem VarDecl.IsShaped.exprs {v : VarDecl} (shaped : v.IsShaped P) : ∀ e ∈ v.exprs, P e := by
  intro e member
  obtain ⟨d, isDeclarator, inInit⟩ := List.mem_flatMap.mp member
  exact shaped.initials d isDeclarator e (Option.mem_toList.mp inInit)

theorem Simple.IsShaped.exprs {s : Simple} (shaped : s.IsShaped P) : ∀ e ∈ s.exprs, P e := by
  cases s with
  | expr pos e => exact List.forall_mem_singleton.mpr shaped.2
  | assign pos target value =>
    obtain ⟨_, onTarget, onValue⟩ := shaped
    exact List.forall_mem_cons.mpr ⟨onTarget, List.forall_mem_singleton.mpr onValue⟩

theorem Simple.headerExprs_of_shaped {header : Option Simple}
    (shaped : ∀ s ∈ header, s.IsShaped P) : ∀ e ∈ Simple.headerExprs header, P e := by
  intro e member
  obtain ⟨s, isSimple, inSimple⟩ := List.mem_flatMap.mp member
  exact (shaped s (Option.mem_toList.mp isSimple)).exprs e inSimple

theorem toList_of_mem {value : Option Expr} (each : ∀ e ∈ value, P e) : ∀ e ∈ value.toList, P e :=
  fun e member => each e (Option.mem_toList.mp member)

namespace Stmt

mutual

theorem IsShaped.exprs : (s : Stmt) → s.IsShaped P P → ∀ e ∈ s.exprs, P e
  | bad _, _ | empty _, _ | decl _ none, _ => nofun
  | decl _ (some _), shaped => VarDecl.IsShaped.exprs shaped
  | simple _, shaped => Simple.IsShaped.exprs shaped
  | ret _ _, each => toList_of_mem each
  | block _ body, shaped => AllShaped.exprs body shaped
  | branch _ _ yes none, ⟨onCond, onYes⟩ =>
    List.forall_mem_cons.mpr ⟨onCond, IsShaped.exprs yes onYes⟩
  | branch _ _ yes (some no), ⟨onCond, onYes, onNo⟩ =>
    List.forall_mem_cons.mpr
      ⟨onCond, List.forall_mem_append.mpr ⟨IsShaped.exprs yes onYes, IsShaped.exprs no onNo⟩⟩
  | switch _ _ clauses, ⟨onSubject, onClauses⟩ =>
    List.forall_mem_cons.mpr ⟨onSubject, AreShapedClauses.exprs clauses onClauses⟩
  | forLoop _ _ _ _ body, ⟨onStart, onCond, onNext, onBody⟩ =>
    List.forall_mem_append.mpr ⟨Simple.headerExprs_of_shaped onStart,
      List.forall_mem_append.mpr ⟨Simple.headerExprs_of_shaped onCond,
        List.forall_mem_append.mpr ⟨Simple.headerExprs_of_shaped onNext,
          IsShaped.exprs body onBody⟩⟩⟩
  | whileLoop _ _ body, ⟨onCond, onBody⟩ =>
    List.forall_mem_cons.mpr ⟨onCond, IsShaped.exprs body onBody⟩
  | scan _ _, onTarget => List.forall_mem_singleton.mpr onTarget
  | print _ _, each => each

theorem AllShaped.exprs :
    (stmts : List Stmt) → AllShaped P P stmts → ∀ e ∈ exprsOfAll stmts, P e
  | [], _ => nofun
  | s :: rest, ⟨here, later⟩ =>
    List.forall_mem_append.mpr ⟨IsShaped.exprs s here, AllShaped.exprs rest later⟩

theorem AreShapedClauses.exprs :
    (clauses : List Stmt) → AreShapedClauses P P clauses → ∀ e ∈ exprsOfAll clauses, P e
  | [], _ => nofun
  | clause _ _ body :: rest, ⟨onLabel, onBody, later⟩ =>
    List.forall_mem_append.mpr
      ⟨List.forall_mem_append.mpr ⟨toList_of_mem onLabel, AllShaped.exprs body onBody⟩,
        AreShapedClauses.exprs rest later⟩

end

end Stmt

theorem Decl.IsShaped.exprs {decl : Decl} (shaped : decl.IsShaped P P) : ∀ e ∈ decl.exprs, P e := by
  cases decl with
  | bad => exact nofun
  | func pos f => exact Stmt.AllShaped.exprs f.body shaped.body
  | vars pos v => exact VarDecl.IsShaped.exprs shaped

/-- What holds of every expression that is read holds of every expression of a file. -/
theorem parse_exprs (literals : Gives compositeLiteral P)
    (exprs : ∀ n ≤ maxNesting, Gives (expression n) P) (name source : String) :
    ∀ e ∈ (parse name source).file.exprs, P e := by
  have shaped := parse_isShaped literals (fun _ holds => holds) exprs name source
  exact List.forall_mem_flatMap.mpr fun decl member => (shaped decl member).exprs

end MiniC
