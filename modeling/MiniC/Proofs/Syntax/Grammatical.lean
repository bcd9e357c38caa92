import MiniC.Syntax
import Mathlib.Algebra.GroupWithZero.Nat

/-!
The trees of the grammar. Operands nest by precedence and to the left, an
`else` belongs to the nearest `if` that is open, clauses stand in a switch and
nowhere else, no variable is void, and nothing is bad. A composite literal
stands only for a whole initial value.
-/

namespace MiniC

theorem BinOp.precedence_lt (op : BinOp) : op.precedence < 4 := by
  cases op <;> decide

theorem BinOp.precedence_pos (op : BinOp) : 1 ≤ op.precedence := by
  cases op <;> decide

namespace Expr

/-- How tightly an expression holds together: as its operator does, then signs,
then what is called or subscripted. -/
def tightness : Expr → Nat
  | binary _ op _ _ => op.precedence
  | unary _ _ _ => 4
  | _ => 5

theorem tightness_le (e : Expr) : e.tightness ≤ 5 := by
  cases e with
  | binary pos op => exact Nat.le_of_lt (Nat.lt_succ_of_lt op.precedence_lt)
  | _ => simp [tightness]

theorem tightness_pos (e : Expr) : 1 ≤ e.tightness := by
  cases e with
  | binary pos op => exact op.precedence_pos
  | _ => simp [tightness]

def IsPrimary (e : Expr) : Prop := e.tightness = 5

theorem unary_or_isPrimary {e : Expr} (tight : 4 ≤ e.tightness) :
    (∃ pos sign operand, e = unary pos sign operand) ∨ e.IsPrimary := by
  cases e with
  | unary pos sign operand => exact .inl ⟨pos, sign, operand, rfl⟩
  | binary pos op => exact absurd op.precedence_lt (Nat.not_lt.mpr tight)
  | _ => exact .inr rfl

mutual

def Grammatical : Expr → Prop
  | bad _ | composite _ _ => False
  | ident _ _ | lit _ _ _ => True
  | paren _ inner => inner.Grammatical
  | index _ base subscript => base.IsPrimary ∧ base.Grammatical ∧ subscript.Grammatical
  | call _ callee args => callee.IsPrimary ∧ callee.Grammatical ∧ AllGrammatical args
  | unary _ _ operand => 4 ≤ operand.tightness ∧ operand.Grammatical
  | binary _ op left right =>
    op.precedence ≤ left.tightness ∧ op.precedence < right.tightness ∧
      left.Grammatical ∧ right.Grammatical

def AllGrammatical : List Expr → Prop
  | [] => True
  | e :: rest => e.Grammatical ∧ AllGrammatical rest

end

/-- What a sign may stand before in a composite literal. -/
def IsSignable : Expr → Prop
  | ident _ name => name ≠ "main"
  | lit _ kind _ => kind ≠ .string
  | _ => False

mutual

/-- What may stand in a composite literal. -/
def IsItem : Expr → Prop
  | composite _ items => AllItems items
  | ident _ name => name ≠ "main"
  | lit _ _ _ => True
  | unary _ _ operand => operand.IsSignable
  | _ => False

def AllItems : List Expr → Prop
  | [] => True
  | e :: rest => e.IsItem ∧ AllItems rest

end

def IsInitializer : Expr → Prop
  | composite _ items => AllItems items
  | e => e.Grammatical

theorem Grammatical.isInitializer {e : Expr} (grammatical : e.Grammatical) : e.IsInitializer := by
  cases e with
  | composite => exact grammatical.elim
  | _ => exact grammatical

theorem allGrammatical_iff (es : List Expr) :
    AllGrammatical es ↔ ∀ e ∈ es, e.Grammatical := by
  induction es with
  | nil => simp [AllGrammatical]
  | cons e rest ih => simp [AllGrammatical, ih]

theorem allItems_iff (es : List Expr) : AllItems es ↔ ∀ e ∈ es, e.IsItem := by
  induction es with
  | nil => simp [AllItems]
  | cons e rest ih => simp [AllItems, ih]

end Expr

/-- Sizes are numbers of 64 bits. -/
def Declarator.Grammatical (d : Declarator) : Prop :=
  (∀ size ∈ d.sizes, size < 2 ^ 64) ∧ ∀ e ∈ d.init, e.IsInitializer

structure VarDecl.Grammatical (v : VarDecl) : Prop where
  base : v.base = .int ∨ v.base = .char
  named : v.declarators ≠ []
  declarators : ∀ d ∈ v.declarators, d.Grammatical

def Simple.Grammatical : Simple → Prop
  | .expr _ e => e.Grammatical
  | .assign _ target value => target.Grammatical ∧ value.Grammatical

namespace Stmt

/-- Whether a statement ends in an `if` that an `else` behind it would join. -/
def dangles : Stmt → Bool
  | branch _ _ _ none => true
  | branch _ _ _ (some no) => no.dangles
  | forLoop _ _ _ _ body | whileLoop _ _ body => body.dangles
  | _ => false

mutual

def Grammatical : Stmt → Prop
  | bad _ | decl _ none | clause _ _ _ => False
  | empty _ => True
  | decl _ (some vars) => vars.Grammatical
  | simple s => s.Grammatical
  | ret _ value => ∀ e ∈ value, e.Grammatical
  | block _ body => AllGrammatical body
  | branch _ cond yes none => cond.Grammatical ∧ yes.Grammatical
  | branch _ cond yes (some no) =>
    cond.Grammatical ∧ yes.Grammatical ∧ yes.dangles = false ∧ no.Grammatical
  | switch _ subject clauses => subject.Grammatical ∧ AllClauses clauses
  | forLoop _ init cond next body =>
    (∀ s ∈ init, s.Grammatical) ∧ (∀ s ∈ cond, s.Grammatical) ∧
      (∀ s ∈ next, s.Grammatical) ∧ body.Grammatical
  | whileLoop _ cond body => cond.Grammatical ∧ body.Grammatical
  | scan _ target => target.Grammatical
  | print _ args => ∀ e ∈ args, e.Grammatical

def AllGrammatical : List Stmt → Prop
  | [] => True
  | s :: rest => s.Grammatical ∧ AllGrammatical rest

/-- The statements of a switch are clauses, each with statements behind it. -/
def AllClauses : List Stmt → Prop
  | [] => True
  | clause _ label body :: rest =>
    (∀ e ∈ label, e.Grammatical) ∧ AllGrammatical body ∧ AllClauses rest
  | _ :: _ => False

end

/-- A clause of a switch. -/
def IsClause : Stmt → Prop
  | clause _ label body => (∀ e ∈ label, e.Grammatical) ∧ AllGrammatical body
  | _ => False

theorem allGrammatical_iff (stmts : List Stmt) :
    AllGrammatical stmts ↔ ∀ s ∈ stmts, s.Grammatical := by
  induction stmts with
  | nil => simp [AllGrammatical]
  | cons s rest ih => simp [AllGrammatical, ih]

theorem allClauses_iff (stmts : List Stmt) : AllClauses stmts ↔ ∀ s ∈ stmts, s.IsClause := by
  induction stmts with
  | nil => simp [AllClauses]
  | cons s rest ih =>
    cases s with
    | clause pos label body => simp [AllClauses, IsClause, ih, and_assoc]
    | _ => simp [AllClauses, IsClause]

end Stmt

def Param.Grammatical (param : Param) : Prop := param.ty = .int ∨ param.ty = .char

structure FuncDecl.Grammatical (f : FuncDecl) : Prop where
  returns : f.returns = .int ∨ f.returns = .char ∨ f.returns = .void
  params : ∀ param ∈ f.params.params, param.Grammatical
  body : Stmt.AllGrammatical f.body

def Decl.Grammatical : Decl → Prop
  | .bad _ => False
  | .func _ f => f.Grammatical
  | .vars _ v => v.Grammatical

def File.Grammatical (file : File) : Prop := ∀ decl ∈ file.decls, decl.Grammatical

end MiniC
