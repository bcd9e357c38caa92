import MiniC.Proofs.Expr.HasType
import MiniC.Proofs.Syntax.Declared

/-!
The rules that a file has to keep, stated over the tree alone. A declaration
adds to an environment, and what stands behind it is judged there. Only blocks
and functions have names of their own: what the branches of an `if`, the bodies
of loops and the clauses of a switch declare belongs to the block around them.
-/

namespace MiniC

/-- A variable as it is declared. -/
structure Binding where
  name : String
  ty : Ty
  isConst : Bool

/-- No name is declared twice in a block of these variables. -/
def Binding.AreDistinct (bindings : List Binding) : Prop := (bindings.map name).Nodup

/-- All that has been declared so far, the latest first. -/
structure Env where
  vars : List Binding
  funcs : List (String × FuncDecl)

namespace Env

def empty : Env := ⟨[], []⟩

def var? (env : Env) (name : String) : Option Binding := env.vars.find? (·.name == name)

def declare (env : Env) (bindings : List Binding) : Env :=
  { env with vars := bindings.reverse ++ env.vars }

def enter (env : Env) (f : FuncDecl) : Env :=
  { env with funcs := (f.name.text, f) :: env.funcs }

def view (env : Env) : View where
  var name ty := ∃ binding, env.var? name = some binding ∧ binding.ty = ty
  func name f := env.funcs.lookup name = some f

/-- A variable that may be given a value as a whole. -/
def IsWritable (env : Env) (name : String) : Prop :=
  ∃ binding, env.var? name = some binding ∧ binding.isConst = false ∧ binding.ty.isArray = false

@[simp]
theorem declare_nil (env : Env) : env.declare [] = env := rfl

end Env

/-! The names that a part of the tree declares in the block it stands in. -/

def Param.binding (param : Param) : Binding := ⟨param.name.text, param.ty, false⟩

def VarDecl.binding (vars : VarDecl) (d : Declarator) : Binding :=
  ⟨d.name.text, vars.typeOf d, vars.isConst⟩

def VarDecl.bindings (vars : VarDecl) : List Binding := vars.declarators.map vars.binding

namespace Stmt

mutual

def bindings : Stmt → List Binding
  | decl _ (some vars) => vars.bindings
  | branch _ _ yes none => yes.bindings
  | branch _ _ yes (some no) => yes.bindings ++ no.bindings
  | forLoop _ _ _ _ body | whileLoop _ _ body => body.bindings
  | switch _ _ clauses => allBindings clauses
  | clause _ _ body => allBindings body
  | bad _ | empty _ | decl _ none | simple _ | ret _ _ | block _ _ | scan _ _ | print _ _ => []

def allBindings : List Stmt → List Binding
  | [] => []
  | s :: rest => s.bindings ++ allBindings rest

end

mutual

/-- Whether a value is returned anywhere in a statement. -/
def returnsValue : Stmt → Bool
  | ret _ value => value.isSome
  | block _ body | clause _ _ body => anyReturnsValue body
  | branch _ _ yes none => yes.returnsValue
  | branch _ _ yes (some no) => yes.returnsValue || no.returnsValue
  | forLoop _ _ _ _ body | whileLoop _ _ body => body.returnsValue
  | switch _ _ clauses => anyReturnsValue clauses
  | bad _ | empty _ | decl _ _ | simple _ | scan _ _ | print _ _ => false

def anyReturnsValue : List Stmt → Bool
  | [] => false
  | s :: rest => s.returnsValue || anyReturnsValue rest

end

theorem anyReturnsValue_iff (stmts : List Stmt) :
    anyReturnsValue stmts = true ↔ ∃ s ∈ stmts, s.returnsValue = true := by
  induction stmts with
  | nil => simp [anyReturnsValue]
  | cons s rest ih => simp [anyReturnsValue, ih]

end Stmt

namespace Expr

def IsTyped (env : Env) (e : Expr) : Prop := ∃ ty, HasType env.view e ty

/-- An expression of type `int` or `char`. -/
def IsBasic (env : Env) (e : Expr) : Prop := ∃ ty, ty.isBasic = true ∧ HasType env.view e ty

/-- An initial value for a variable with the given array sizes: a literal that
nests as deep as there are sizes, has as many items at each level, and has
elements of one type at the innermost one. -/
def Fills (view : View) (leaf : Ty) : List Nat → Expr → Prop
  | [], e => HasType view e leaf
  | size :: sizes, composite _ items =>
    items.length = size ∧ ∀ item ∈ items, item.Fills view leaf sizes
  | _ :: _, _ => False

/-- What may stand on the left of an assignment. -/
def IsTarget (env : Env) : Expr → Prop
  | ident _ name => env.IsWritable name
  | index pos base subscript => (index pos base subscript).IsTyped env ∧
      ∃ place name binding, base.indexBase = ident place name ∧
        env.var? name = some binding ∧ binding.isConst = false
  | _ => False

/-- What may stand in a condition: a comparison, possibly in parentheses. -/
def IsComparison (env : Env) (e : Expr) : Prop :=
  ∃ pos op left right, e.unparen = binary pos op left right ∧ op.isRelational = true ∧
    left.IsTyped env ∧ right.IsTyped env

def isText : Expr → Bool
  | lit _ .string _ => true
  | _ => false

/-- What may be printed: a text, a text and a value, or a value. -/
def ArePrintable (env : Env) : List Expr → Prop
  | [e] => e.isText = true ∧ e.IsTyped env ∨ e.IsBasic env
  | [format, e] => (format.isText = true ∧ format.IsTyped env) ∧ e.IsBasic env
  | _ => False

end Expr

/-- A variable is visible from its own initial value on. -/
def VarDecl.AllValid (vars : VarDecl) (env : Env) : List Declarator → Prop
  | [] => True
  | d :: rest =>
    (∀ e ∈ d.init, e.Fills (env.declare [vars.binding d]).view vars.base d.sizes) ∧
      vars.AllValid (env.declare [vars.binding d]) rest

def VarDecl.Valid (vars : VarDecl) (env : Env) : Prop := vars.AllValid env vars.declarators

def Simple.Valid (env : Env) : Simple → Prop
  | .expr _ e => e.IsTyped env
  | .assign _ target value => target.IsTarget env ∧ value.IsTyped env

def Simple.IsComparison (env : Env) : Simple → Prop
  | .expr _ e => e.IsComparison env
  | .assign _ _ _ => False

namespace Stmt

def isDefault : Stmt → Bool
  | clause _ none _ => true
  | _ => false

mutual

/-- The rules for a statement of a function that returns `returns`. -/
def Valid (returns : Ty) (env : Env) : Stmt → Prop
  | bad _ | decl _ none | clause _ _ _ => False
  | empty _ => True
  | decl _ (some vars) => vars.Valid env
  | simple s => s.Valid env
  | ret _ none => returns = .void
  | ret _ (some e) => returns ≠ .void ∧ HasType env.view e returns
  | block _ body => Binding.AreDistinct (allBindings body) ∧ AllValid returns env body
  | branch _ cond yes none => cond.IsComparison env ∧ yes.Valid returns env
  | branch _ cond yes (some no) =>
    cond.IsComparison env ∧ yes.Valid returns env ∧ no.Valid returns (env.declare yes.bindings)
  | whileLoop _ cond body => cond.IsComparison env ∧ body.Valid returns env
  | forLoop _ init cond next body =>
    (∀ s ∈ init, s.Valid env) ∧ (∀ s ∈ cond, s.IsComparison env) ∧ (∀ s ∈ next, s.Valid env) ∧
      body.Valid returns env
  | switch _ subject clauses =>
    clauses.countP isDefault = 1 ∧ ∃ ty, ty.isBasic = true ∧ HasType env.view subject ty ∧
      AllClausesValid returns ty env clauses
  | scan _ target => ∃ pos name, target = .ident pos name ∧ env.IsWritable name
  | print _ args => Expr.ArePrintable env args

def AllValid (returns : Ty) (env : Env) : List Stmt → Prop
  | [] => True
  | s :: rest => s.Valid returns env ∧ AllValid returns (env.declare s.bindings) rest

/-- The clauses of a switch on a subject of the given type. -/
def AllClausesValid (returns subject : Ty) (env : Env) : List Stmt → Prop
  | [] => True
  | clause _ label body :: rest =>
    (∀ e ∈ label, HasType env.view e subject) ∧ AllValid returns env body ∧
      AllClausesValid returns subject (env.declare (allBindings body)) rest
  | _ :: _ => False

end

end Stmt

/-- The parameters and the body of a function are one block, in which the
function itself is known. -/
structure FuncDecl.Valid (f : FuncDecl) (env : Env) : Prop where
  distinct : Binding.AreDistinct (f.params.params.map Param.binding ++ Stmt.allBindings f.body)
  body : Stmt.AllValid f.returns ((env.enter f).declare (f.params.params.map Param.binding)) f.body
  returns : f.returns = .void ∨ ∃ s ∈ f.body, s.returnsValue = true

namespace Decl

def names : Decl → List String
  | bad _ => []
  | func _ f => [f.name.text]
  | vars _ v => v.bindings.map Binding.name

/-- What is known behind a declaration at the top level. -/
def extend (env : Env) : Decl → Env
  | bad _ => env
  | func _ f => env.enter f
  | vars _ v => env.declare v.bindings

def Valid (env : Env) : Decl → Prop
  | bad _ => False
  | func _ f => f.Valid env
  | vars _ v => v.Valid env

def AllValid (env : Env) : List Decl → Prop
  | [] => True
  | decl :: rest => decl.Valid env ∧ AllValid (decl.extend env) rest

end Decl

/-- The rules for a whole file. -/
structure File.Valid (file : File) : Prop where
  main : ∃ f ∈ file.funcs, f.name.text = "main"
  distinct : (file.decls.flatMap Decl.names).Nodup
  decls : Decl.AllValid .empty file.decls

/-- No variable with a size of 0 has an initial value. -/
def VarDecl.LeavesEmpty (vars : VarDecl) : Prop :=
  ∀ d ∈ vars.declarators, d.init.isSome = true → 0 ∉ d.sizes

end MiniC
