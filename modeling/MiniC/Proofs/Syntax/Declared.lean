import MiniC.Syntax

/-!
The declarations of variables in a tree, the local ones included, and the types
that declarations give. Whatever the source is, a variable is declared with a
basic type and a function with a basic one or none.
-/

namespace MiniC

namespace Ty

theorem leaf_arrayOf (leaf : Ty) (sizes : List Nat) : (arrayOf leaf sizes).leaf = leaf.leaf := by
  induction sizes with
  | nil => rfl
  | cons size rest ih => exact ih

theorem sizes_arrayOf {leaf : Ty} (sizes : List Nat) (basic : leaf.isArray = false) :
    (arrayOf leaf sizes).sizes = sizes := by
  induction sizes with
  | nil => cases leaf <;> simp_all [isArray, arrayOf, Ty.sizes]
  | cons size rest ih => exact congrArg (size :: ·) ih

end Ty

namespace Stmt

mutual

def varDecls : Stmt → List VarDecl
  | decl _ vars => vars.toList
  | block _ body | clause _ _ body => allVarDecls body
  | branch _ _ yes none => yes.varDecls
  | branch _ _ yes (some no) => yes.varDecls ++ no.varDecls
  | switch _ _ clauses => allVarDecls clauses
  | forLoop _ _ _ _ body | whileLoop _ _ body => body.varDecls
  | bad _ | empty _ | simple _ | ret _ _ | scan _ _ | print _ _ => []

def allVarDecls : List Stmt → List VarDecl
  | [] => []
  | s :: rest => s.varDecls ++ allVarDecls rest

end

end Stmt

def Decl.varDecls : Decl → List VarDecl
  | .bad _ => []
  | .func _ f => Stmt.allVarDecls f.body
  | .vars _ v => [v]

/-- All declarations of variables in a file, at the top level and inside. -/
def File.varDecls (file : File) : List VarDecl := file.decls.flatMap Decl.varDecls

def VarDecl.IsBasic (v : VarDecl) : Prop := v.base = .int ∨ v.base = .char

/-- A variable has a valid type, and so have its elements. -/
theorem VarDecl.IsBasic.leaf {v : VarDecl} (isBasic : v.IsBasic) (d : Declarator) :
    (v.typeOf d).leaf ≠ .invalid := by
  rw [VarDecl.typeOf, Ty.leaf_arrayOf]
  rcases isBasic with same | same <;> rw [same] <;> nofun

/-- What a function may return and take. A parameter whose type could not be
read has an invalid one. -/
structure FuncDecl.IsTyped (f : FuncDecl) : Prop where
  returns : f.returns = .int ∨ f.returns = .char ∨ f.returns = .void
  params : ∀ param ∈ f.params.params, param.ty = .int ∨ param.ty = .char ∨ param.ty = .invalid

/-- What is declared is declared with a type. -/
structure Decl.IsTyped (decl : Decl) : Prop where
  vars : ∀ v ∈ decl.varDecls, v.IsBasic
  func : ∀ f, decl.func? = some f → f.IsTyped

def File.IsTyped (file : File) : Prop := ∀ decl ∈ file.decls, decl.IsTyped

theorem File.IsTyped.var {file : File} (typed : file.IsTyped) {v : VarDecl}
    (member : v ∈ file.varDecls) : v.IsBasic := by
  obtain ⟨decl, isDecl, isVar⟩ := List.mem_flatMap.mp member
  exact (typed decl isDecl).vars v isVar

theorem File.IsTyped.func {file : File} (typed : file.IsTyped) {f : FuncDecl}
    (member : f ∈ file.funcs) : f.IsTyped := by
  obtain ⟨decl, isDecl, isFunc⟩ := List.mem_filterMap.mp member
  exact (typed decl isDecl).func f isFunc

end MiniC
