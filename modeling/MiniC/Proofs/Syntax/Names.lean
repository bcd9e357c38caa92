import MiniC.Proofs.Syntax.Sites
import MiniC.Stmt.Check

/-!
Trees whose names all have a property: names that are used, names of variables and
functions that are declared, and names of parameters.
-/

namespace MiniC

section Trees

variable (named : String → Prop)

namespace Expr

mutual

def IsNamed : Expr → Prop
  | bad _ | lit _ _ _ => True
  | ident _ name => named name
  | composite _ items => AllNamed items
  | paren _ inner => inner.IsNamed
  | index _ base subscript => base.IsNamed ∧ subscript.IsNamed
  | call _ callee args => callee.IsNamed ∧ AllNamed args
  | unary _ _ operand => operand.IsNamed
  | binary _ _ left right => left.IsNamed ∧ right.IsNamed

def AllNamed : List Expr → Prop
  | [] => True
  | e :: rest => e.IsNamed ∧ AllNamed rest

end

end Expr

def Declarator.IsNamed (d : Declarator) : Prop :=
  named d.name.text ∧ ∀ e ∈ d.init, e.IsNamed named

def VarDecl.IsNamed (v : VarDecl) : Prop := ∀ d ∈ v.declarators, d.IsNamed named

def Simple.IsNamed : Simple → Prop
  | .expr _ e => e.IsNamed named
  | .assign _ target value => target.IsNamed named ∧ value.IsNamed named

namespace Stmt

mutual

def IsNamed : Stmt → Prop
  | bad _ | empty _ => True
  | decl _ vars => ∀ v ∈ vars, v.IsNamed named
  | simple s => s.IsNamed named
  | ret _ value => ∀ e ∈ value, e.IsNamed named
  | block _ body => AllNamed body
  | branch _ cond yes none => cond.IsNamed named ∧ yes.IsNamed
  | branch _ cond yes (some no) => cond.IsNamed named ∧ yes.IsNamed ∧ no.IsNamed
  | switch _ subject clauses => subject.IsNamed named ∧ AllNamed clauses
  | clause _ label body => (∀ e ∈ label, e.IsNamed named) ∧ AllNamed body
  | forLoop _ start cond next body =>
    (∀ s ∈ start, s.IsNamed named) ∧ (∀ s ∈ cond, s.IsNamed named) ∧
      (∀ s ∈ next, s.IsNamed named) ∧ body.IsNamed
  | whileLoop _ cond body => cond.IsNamed named ∧ body.IsNamed
  | scan _ target => target.IsNamed named
  | print _ args => ∀ e ∈ args, e.IsNamed named

def AllNamed : List Stmt → Prop
  | [] => True
  | s :: rest => s.IsNamed ∧ AllNamed rest

end

end Stmt

structure FuncDecl.IsNamed (f : FuncDecl) : Prop where
  name : named f.name.text
  params : ∀ param ∈ f.params.params, named param.name.text
  body : Stmt.AllNamed named f.body

def Decl.IsNamed : Decl → Prop
  | .bad _ => True
  | .func _ f => f.IsNamed named
  | .vars _ v => v.IsNamed named

def File.IsNamed (file : File) : Prop := ∀ decl ∈ file.decls, decl.IsNamed named

end Trees

variable {named : String → Prop}

namespace Expr

theorem allNamed_iff (es : List Expr) : AllNamed named es ↔ ∀ e ∈ es, e.IsNamed named := by
  induction es with
  | nil => simp [AllNamed]
  | cons e rest ih => simp [AllNamed, ih]

theorem IsNamed.unparen : (e : Expr) → e.IsNamed named → e.unparen.IsNamed named
  | paren _ inner, isNamed => IsNamed.unparen inner isNamed
  | bad _, isNamed | ident _ _, isNamed | lit _ _ _, isNamed | composite _ _, isNamed
  | index _ _ _, isNamed | call _ _ _, isNamed | unary _ _ _, isNamed
  | binary _ _ _ _, isNamed => isNamed

theorem IsNamed.indexBase : (e : Expr) → e.IsNamed named → e.indexBase.IsNamed named
  | index _ base _, ⟨onBase, _⟩ => IsNamed.indexBase base onBase
  | bad _, isNamed | ident _ _, isNamed | lit _ _ _, isNamed | composite _ _, isNamed
  | paren _ _, isNamed | call _ _ _, isNamed | unary _ _ _, isNamed
  | binary _ _ _ _, isNamed => isNamed

theorem AllNamed.below {level : List Expr} (areNamed : AllNamed named level) :
    AllNamed named (level.filterMap items?).flatten := by
  rw [allNamed_iff] at areNamed ⊢
  intro e isBelow
  obtain ⟨pos, items, inLevel, isItem⟩ := mem_below.mp isBelow
  exact (allNamed_iff items).mp (areNamed _ inLevel) e isItem

end Expr

theorem Stmt.allNamed_of_forall {stmts : List Stmt} (each : ∀ s ∈ stmts, s.IsNamed named) :
    Stmt.AllNamed named stmts := by
  induction stmts with
  | nil => trivial
  | cons s rest ih =>
    obtain ⟨here, later⟩ := List.forall_mem_cons.mp each
    exact ⟨here, ih later⟩

-- Any tree will do where nothing is asked of names.

mutual

theorem Expr.isNamed_true : (e : Expr) → e.IsNamed fun _ => True
  | .bad _ | .lit _ _ _ | .ident _ _ => trivial
  | .composite _ items => Expr.allNamed_true items
  | .paren _ inner => Expr.isNamed_true inner
  | .index _ base subscript => ⟨Expr.isNamed_true base, Expr.isNamed_true subscript⟩
  | .call _ callee args => ⟨Expr.isNamed_true callee, Expr.allNamed_true args⟩
  | .unary _ _ operand => Expr.isNamed_true operand
  | .binary _ _ left right => ⟨Expr.isNamed_true left, Expr.isNamed_true right⟩

theorem Expr.allNamed_true : (es : List Expr) → Expr.AllNamed (fun _ => True) es
  | [] => trivial
  | e :: rest => ⟨Expr.isNamed_true e, Expr.allNamed_true rest⟩

end

theorem VarDecl.isNamed_true (v : VarDecl) : v.IsNamed fun _ => True :=
  fun _ _ => ⟨trivial, fun e _ => e.isNamed_true⟩

theorem Simple.isNamed_true (s : Simple) : s.IsNamed fun _ => True := by
  cases s with
  | expr pos e => exact e.isNamed_true
  | assign pos target value => exact ⟨target.isNamed_true, value.isNamed_true⟩

mutual

theorem Stmt.isNamed_true : (s : Stmt) → s.IsNamed fun _ => True
  | .bad _ | .empty _ => trivial
  | .decl _ _ => fun v _ => v.isNamed_true
  | .simple s => s.isNamed_true
  | .ret _ _ | .print _ _ => fun e _ => e.isNamed_true
  | .block _ body => Stmt.allNamed_true body
  | .branch _ cond yes none => ⟨cond.isNamed_true, Stmt.isNamed_true yes⟩
  | .branch _ cond yes (some no) =>
    ⟨cond.isNamed_true, Stmt.isNamed_true yes, Stmt.isNamed_true no⟩
  | .switch _ subject clauses => ⟨subject.isNamed_true, Stmt.allNamed_true clauses⟩
  | .clause _ _ body => ⟨fun e _ => e.isNamed_true, Stmt.allNamed_true body⟩
  | .forLoop _ _ _ _ body =>
    ⟨fun s _ => s.isNamed_true, fun s _ => s.isNamed_true, fun s _ => s.isNamed_true,
      Stmt.isNamed_true body⟩
  | .whileLoop _ cond body => ⟨cond.isNamed_true, Stmt.isNamed_true body⟩
  | .scan _ target => target.isNamed_true

theorem Stmt.allNamed_true : (stmts : List Stmt) → Stmt.AllNamed (fun _ => True) stmts
  | [] => trivial
  | s :: rest => ⟨Stmt.isNamed_true s, Stmt.allNamed_true rest⟩

end

theorem File.isNamed_true (file : File) : file.IsNamed fun _ => True := by
  intro decl _
  cases decl with
  | bad => trivial
  | func pos f => exact ⟨trivial, fun _ _ => trivial, Stmt.allNamed_true f.body⟩
  | vars pos v => exact v.isNamed_true

end MiniC
