import MiniC.Proofs.Stmt.Shaped
import MiniC.Proofs.Syntax.Declared

/-!
What a file that is read keeps to, whatever the source is. A switch holds clauses and
nothing else, and there is a clause nowhere but in a switch. Variables are declared with
basic types only, and functions with what a function may return.
-/

namespace MiniC

variable {expr initial : Expr → Prop}

namespace Stmt

mutual

/-- A statement that is no clause, with clauses in switches only. -/
def IsOrderly : Stmt → Prop
  | clause _ _ _ => False
  | block _ body => AllOrderly body
  | branch _ _ yes none => yes.IsOrderly
  | branch _ _ yes (some no) => yes.IsOrderly ∧ no.IsOrderly
  | forLoop _ _ _ _ body | whileLoop _ _ body => body.IsOrderly
  | switch _ _ clauses => AreOrderlyClauses clauses
  | bad _ | empty _ | decl _ _ | simple _ | ret _ _ | scan _ _ | print _ _ => True

def AllOrderly : List Stmt → Prop
  | [] => True
  | s :: rest => s.IsOrderly ∧ AllOrderly rest

/-- Clauses alone. -/
def AreOrderlyClauses : List Stmt → Prop
  | [] => True
  | clause _ _ body :: rest => AllOrderly body ∧ AreOrderlyClauses rest
  | _ :: _ => False

end

mutual

theorem IsShaped.isOrderly : (s : Stmt) → s.IsShaped expr initial → s.IsOrderly
  | bad _, _ | empty _, _ | decl _ none, _ | decl _ (some _), _ | simple _, _ | ret _ _, _
  | scan _ _, _ | print _ _, _ => trivial
  | block _ body, shaped => AllShaped.allOrderly body shaped
  | branch _ _ yes none, ⟨_, onYes⟩ => IsShaped.isOrderly yes onYes
  | branch _ _ yes (some no), ⟨_, onYes, onNo⟩ =>
    ⟨IsShaped.isOrderly yes onYes, IsShaped.isOrderly no onNo⟩
  | switch _ _ clauses, ⟨_, onClauses⟩ => AreShapedClauses.areOrderly clauses onClauses
  | forLoop _ _ _ _ body, ⟨_, _, _, onBody⟩ => IsShaped.isOrderly body onBody
  | whileLoop _ _ body, ⟨_, onBody⟩ => IsShaped.isOrderly body onBody

theorem AllShaped.allOrderly : (stmts : List Stmt) → AllShaped expr initial stmts → AllOrderly stmts
  | [], _ => trivial
  | s :: rest, ⟨here, later⟩ => ⟨IsShaped.isOrderly s here, AllShaped.allOrderly rest later⟩

theorem AreShapedClauses.areOrderly :
    (clauses : List Stmt) → AreShapedClauses expr initial clauses → AreOrderlyClauses clauses
  | [], _ => trivial
  | clause _ _ body :: rest, ⟨_, onBody, later⟩ =>
    ⟨AllShaped.allOrderly body onBody, AreShapedClauses.areOrderly rest later⟩

end

end Stmt

/-- The bodies of all functions are orderly. -/
def File.IsOrderly (file : File) : Prop := ∀ f ∈ file.funcs, Stmt.AllOrderly f.body

theorem File.IsShaped.func {file : File}
    (shaped : file.IsShaped expr initial) {f : FuncDecl} (member : f ∈ file.funcs) :
    f.IsShaped expr initial := by
  obtain ⟨decl, isDecl, isFunc⟩ := List.mem_filterMap.mp member
  cases decl with
  | func pos g =>
    cases isFunc
    exact shaped _ isDecl
  | _ => cases isFunc

theorem parse_orderly (name source : String) : (parse name source).file.IsOrderly := by
  intro f member
  have shaped : (parse name source).file.IsShaped (fun _ => True) (fun _ => True) :=
    parse_isShaped (fun _ => trivial) (fun _ _ => trivial) (fun _ _ _ => trivial) name source
  exact Stmt.AllShaped.allOrderly f.body (shaped.func member).body

namespace Stmt

mutual

theorem IsShaped.typed : (s : Stmt) → s.IsShaped expr initial → ∀ v ∈ s.varDecls, v.IsBasic
  | bad _, _ | empty _, _ | decl _ none, _ | simple _, _ | ret _ _, _ | scan _ _, _
  | print _ _, _ => nofun
  | decl _ (some _), shaped => List.forall_mem_singleton.mpr shaped.base
  | block _ body, shaped => AllShaped.typed body shaped
  | branch _ _ yes none, ⟨_, onYes⟩ => IsShaped.typed yes onYes
  | branch _ _ yes (some no), ⟨_, onYes, onNo⟩ =>
    List.forall_mem_append.mpr ⟨IsShaped.typed yes onYes, IsShaped.typed no onNo⟩
  | switch _ _ clauses, ⟨_, onClauses⟩ => AreShapedClauses.typed clauses onClauses
  | forLoop _ _ _ _ body, ⟨_, _, _, onBody⟩ => IsShaped.typed body onBody
  | whileLoop _ _ body, ⟨_, onBody⟩ => IsShaped.typed body onBody

theorem AllShaped.typed : (stmts : List Stmt) → AllShaped expr initial stmts →
    ∀ v ∈ allVarDecls stmts, v.IsBasic
  | [], _ => nofun
  | s :: rest, ⟨here, later⟩ =>
    List.forall_mem_append.mpr ⟨IsShaped.typed s here, AllShaped.typed rest later⟩

theorem AreShapedClauses.typed : (clauses : List Stmt) → AreShapedClauses expr initial clauses →
    ∀ v ∈ allVarDecls clauses, v.IsBasic
  | [], _ => nofun
  | clause _ _ body :: rest, ⟨_, onBody, later⟩ =>
    List.forall_mem_append.mpr ⟨AllShaped.typed body onBody, AreShapedClauses.typed rest later⟩

end

end Stmt

theorem Decl.IsShaped.typed {decl : Decl} (shaped : decl.IsShaped expr initial) : decl.IsTyped := by
  cases decl with
  | bad => exact ⟨nofun, nofun⟩
  | func pos f =>
    constructor
    · exact Stmt.AllShaped.typed f.body shaped.body
    · rintro _ ⟨⟩
      exact ⟨shaped.returns, shaped.params⟩
  | vars pos v => exact ⟨List.forall_mem_singleton.mpr shaped.base, nofun⟩

theorem parse_typed (name source : String) : (parse name source).file.IsTyped := by
  intro decl member
  have shaped : (parse name source).file.IsShaped (fun _ => True) (fun _ => True) :=
    parse_isShaped (fun _ => trivial) (fun _ _ => trivial) (fun _ _ _ => trivial) name source
  exact (shaped decl member).typed

end MiniC
