import MiniC.Syntax

/-!
The shape of a tree, whatever is wrong with what it was read from. A bad part may
stand in it anywhere, but every part stands where its kind belongs: clauses in
switches and nowhere else, braces in initial values and nowhere else, and no
variable is void or without a name. What the types of the tree say already, that
a loop has simple statements in its header, that the names of one declaration
share a base type, or that a function is declared at the top level, is not said
again.
-/

namespace MiniC

namespace Expr

mutual

/-- There is no composite literal in the expression. -/
def IsUnbraced : Expr → Prop
  | composite _ _ => False
  | bad _ | ident _ _ | lit _ _ _ => True
  | paren _ inner => inner.IsUnbraced
  | index _ base subscript => base.IsUnbraced ∧ subscript.IsUnbraced
  | call _ callee args => callee.IsUnbraced ∧ AllUnbraced args
  | unary _ _ operand => operand.IsUnbraced
  | binary _ _ left right => left.IsUnbraced ∧ right.IsUnbraced

def AllUnbraced : List Expr → Prop
  | [] => True
  | e :: rest => e.IsUnbraced ∧ AllUnbraced rest

end

mutual

/-- Operations stand where their first operands do. -/
def IsRooted : Expr → Prop
  | bad _ | ident _ _ | lit _ _ _ => True
  | composite _ items => AllRooted items
  | paren _ inner => inner.IsRooted
  | index pos base subscript => pos = base.pos ∧ base.IsRooted ∧ subscript.IsRooted
  | call pos callee args => pos = callee.pos ∧ callee.IsRooted ∧ AllRooted args
  | unary _ _ operand => operand.IsRooted
  | binary pos _ left right => pos = left.pos ∧ left.IsRooted ∧ right.IsRooted

def AllRooted : List Expr → Prop
  | [] => True
  | e :: rest => e.IsRooted ∧ AllRooted rest

end

/-- What stands behind a sign in a composite literal. -/
def IsSignedItem : Expr → Prop
  | bad _ | ident _ _ => True
  | lit _ kind _ => kind ≠ .string
  | composite _ _ | paren _ _ | index _ _ _ | call _ _ _ | unary _ _ _ | binary _ _ _ _ => False

mutual

/-- What stands in a composite literal. -/
def IsBracedItem : Expr → Prop
  | composite _ items => AllBracedItems items
  | bad _ | ident _ _ | lit _ _ _ => True
  | unary _ _ operand => operand.IsSignedItem
  | paren _ _ | index _ _ _ | call _ _ _ | binary _ _ _ _ => False

def AllBracedItems : List Expr → Prop
  | [] => True
  | e :: rest => e.IsBracedItem ∧ AllBracedItems rest

end

/-- An initial value is a composite literal as a whole, or holds none. -/
def IsInitial : Expr → Prop
  | composite _ items => AllBracedItems items
  | e => e.IsUnbraced

theorem allUnbraced_iff (es : List Expr) : AllUnbraced es ↔ ∀ e ∈ es, e.IsUnbraced := by
  induction es with
  | nil => simp [AllUnbraced]
  | cons e rest ih => simp [AllUnbraced, ih]

theorem allRooted_iff (es : List Expr) : AllRooted es ↔ ∀ e ∈ es, e.IsRooted := by
  induction es with
  | nil => simp [AllRooted]
  | cons e rest ih => simp [AllRooted, ih]

theorem allBracedItems_iff (es : List Expr) : AllBracedItems es ↔ ∀ e ∈ es, e.IsBracedItem := by
  induction es with
  | nil => simp [AllBracedItems]
  | cons e rest ih => simp [AllBracedItems, ih]

theorem IsUnbraced.isInitial {e : Expr} (unbraced : e.IsUnbraced) : e.IsInitial := by
  cases e with
  | composite => exact unbraced.elim
  | _ => exact unbraced

end Expr

section Shapes

variable (expr initial : Expr → Prop)

structure VarDecl.IsShaped (v : VarDecl) : Prop where
  base : v.base = .int ∨ v.base = .char
  named : v.declarators ≠ []
  initials : ∀ d ∈ v.declarators, ∀ e ∈ d.init, initial e

/-- A simple statement stands where its first expression does. -/
def Simple.IsShaped : Simple → Prop
  | .expr pos e => pos = e.pos ∧ expr e
  | .assign pos target value => pos = target.pos ∧ expr target ∧ expr value

namespace Stmt

mutual

/-- A statement that is no clause, when expressions and initial values are as
given. -/
def IsShaped : Stmt → Prop
  | bad _ | empty _ | decl _ none => True
  | decl _ (some vars) => vars.IsShaped initial
  | simple s => s.IsShaped expr
  | ret _ value => ∀ e ∈ value, expr e
  | block _ body => AllShaped body
  | branch _ cond yes none => expr cond ∧ yes.IsShaped
  | branch _ cond yes (some no) => expr cond ∧ yes.IsShaped ∧ no.IsShaped
  | switch _ subject clauses => expr subject ∧ AreShapedClauses clauses
  | clause _ _ _ => False
  | forLoop _ start cond next body =>
    (∀ s ∈ start, s.IsShaped expr) ∧ (∀ s ∈ cond, s.IsShaped expr) ∧
      (∀ s ∈ next, s.IsShaped expr) ∧ body.IsShaped
  | whileLoop _ cond body => expr cond ∧ body.IsShaped
  | scan _ target => expr target
  | print _ args => ∀ e ∈ args, expr e

def AllShaped : List Stmt → Prop
  | [] => True
  | s :: rest => s.IsShaped ∧ AllShaped rest

/-- Clauses alone. -/
def AreShapedClauses : List Stmt → Prop
  | [] => True
  | clause _ label body :: rest => (∀ e ∈ label, expr e) ∧ AllShaped body ∧ AreShapedClauses rest
  | _ :: _ => False

end

/-- A clause of a switch. -/
def IsShapedClause (s : Stmt) : Prop :=
  ∃ pos label body, s = clause pos label body ∧ (∀ e ∈ label, expr e) ∧ AllShaped expr initial body

end Stmt

structure FuncDecl.IsShaped (f : FuncDecl) : Prop where
  returns : f.returns = .int ∨ f.returns = .char ∨ f.returns = .void
  /-- A parameter whose type could not be read has an invalid one. -/
  params : ∀ param ∈ f.params.params, param.ty = .int ∨ param.ty = .char ∨ param.ty = .invalid
  body : Stmt.AllShaped expr initial f.body

def Decl.IsShaped : Decl → Prop
  | .bad _ => True
  | .func _ f => f.IsShaped expr initial
  | .vars _ v => v.IsShaped initial

def File.IsShaped (file : File) : Prop := ∀ decl ∈ file.decls, decl.IsShaped expr initial

end Shapes

namespace Stmt

variable {expr initial : Expr → Prop} {stmts : List Stmt}

theorem allShaped_of_forall (shaped : ∀ s ∈ stmts, s.IsShaped expr initial) :
    AllShaped expr initial stmts := by
  induction stmts with
  | nil => trivial
  | cons s rest ih =>
    obtain ⟨here, later⟩ := List.forall_mem_cons.mp shaped
    exact ⟨here, ih later⟩

theorem areShapedClauses_of_forall (shaped : ∀ s ∈ stmts, s.IsShapedClause expr initial) :
    AreShapedClauses expr initial stmts := by
  induction stmts with
  | nil => trivial
  | cons s rest ih =>
    obtain ⟨⟨pos, label, body, rfl, onLabel, inside⟩, later⟩ := List.forall_mem_cons.mp shaped
    exact ⟨onLabel, inside, ih later⟩

end Stmt

end MiniC
