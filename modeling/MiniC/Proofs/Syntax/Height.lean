import MiniC.Proofs.Syntax.Levels

/-!
How deep a tree is. Along a way from a function body or an initializer down to a
leaf, each parenthesis, sign and operator counts, and so does each statement
below the body. An operator counts for both of its operands; in that the height
differs from the levels that reading takes.
-/

namespace MiniC

namespace Expr

mutual

def height : Expr → Nat
  | bad _ | ident _ _ | lit _ _ _ => 0
  | composite _ items => greatestHeight items
  | paren _ inner => inner.height + 1
  | index _ base subscript => max base.height subscript.height
  | call _ callee args => max callee.height (greatestHeight args)
  | unary _ _ operand => operand.height + 1
  | binary _ _ left right => max left.height right.height + 1

def greatestHeight : List Expr → Nat
  | [] => 0
  | e :: rest => max e.height (greatestHeight rest)

end

def initHeight : Option Expr → Nat
  | none => 0
  | some e => e.height

end Expr

open MiniC.Expr (initHeight)

def VarDecl.height (v : VarDecl) : Nat :=
  v.declarators.foldr (fun d greatest => max (initHeight d.init) greatest) 0

def Simple.height : Simple → Nat
  | .expr _ e => e.height + 1
  | .assign _ target value => max target.height value.height + 1

def Simple.headerHeight : Option Simple → Nat
  | none => 0
  | some s => s.height

namespace Stmt

open Simple (headerHeight)

mutual

def height : Stmt → Nat
  | bad _ | empty _ | decl _ none => 1
  | decl _ (some vars) => vars.height + 1
  | simple s => s.height
  | ret _ value => initHeight value + 1
  | block _ body => greatestHeight body + 1
  | branch _ cond yes none => max cond.height yes.height + 1
  | branch _ cond yes (some no) => max cond.height (max yes.height no.height) + 1
  | switch _ subject clauses => max subject.height (greatestHeight clauses) + 1
  | clause _ label body => max (initHeight label) (greatestHeight body) + 1
  | forLoop _ init cond next body =>
    max (max (headerHeight init) (headerHeight cond)) (max (headerHeight next) body.height) + 1
  | whileLoop _ cond body => max cond.height body.height + 1
  | scan _ target => target.height + 1
  | print _ args => Expr.greatestHeight args + 1

def greatestHeight : List Stmt → Nat
  | [] => 0
  | s :: rest => max s.height (greatestHeight rest)

end

end Stmt

def Decl.height : Decl → Nat
  | .bad _ => 0
  | .func _ f => Stmt.greatestHeight f.body
  | .vars _ v => v.height

def File.height (file : File) : Nat :=
  file.decls.foldr (fun decl greatest => max decl.height greatest) 0

/-- The sum of the numbers up to `n`. -/
def triangle : Nat → Nat
  | 0 => 0
  | n + 1 => triangle n + (n + 1)

theorem triangle_mono {m n : Nat} (bound : m ≤ n) : triangle m ≤ triangle n := by
  induction bound with
  | refl => exact Nat.le_refl _
  | step _ ih => exact Nat.le_add_right_of_le ih

/-- How deep an expression is that was read within so many levels. A chain takes
its first operand on the level on which it stands, and has room for an operator
on each further level; every level may hold a chain. -/
structure Expr.Within (n : Nat) (e : Expr) : Prop where
  levels : e.levels ≤ n
  height : e.height < triangle n

/-- How deep a statement is. On one level stand a statement and its header or a
clause of it. -/
structure Stmt.Within (n : Nat) (s : Stmt) : Prop where
  positive : 0 < n
  levels : s.levels ≤ n
  height : s.height ≤ triangle n + 1

theorem foldr_max_le {α : Type} {f : α → Nat} {bound : Nat} {as : List α}
    (each : ∀ a ∈ as, f a ≤ bound) : as.foldr (fun a most => max (f a) most) 0 ≤ bound := by
  induction as with
  | nil => exact Nat.zero_le _
  | cons a rest ih =>
    obtain ⟨first, later⟩ := List.forall_mem_cons.mp each
    rw [List.foldr_cons]
    exact Nat.max_le.mpr ⟨first, ih later⟩

namespace Expr

theorem greatestHeight_eq (es : List Expr) :
    greatestHeight es = es.foldr (fun e most => max e.height most) 0 := by
  induction es with
  | nil => rfl
  | cons e rest ih => rw [greatestHeight, ih, List.foldr_cons]

theorem mostLevels_le {es : List Expr} {n : Nat} (each : ∀ e ∈ es, e.levels ≤ n) :
    mostLevels es ≤ n :=
  mostLevels_eq es ▸ foldr_max_le each

theorem greatestHeight_le {es : List Expr} {n : Nat} (each : ∀ e ∈ es, e.height ≤ n) :
    greatestHeight es ≤ n :=
  greatestHeight_eq es ▸ foldr_max_le each

end Expr

namespace Stmt

theorem greatestHeight_eq (stmts : List Stmt) :
    greatestHeight stmts = stmts.foldr (fun s most => max s.height most) 0 := by
  induction stmts with
  | nil => rfl
  | cons s rest ih => rw [greatestHeight, ih, List.foldr_cons]

theorem mostLevels_le {stmts : List Stmt} {n : Nat} (each : ∀ s ∈ stmts, s.levels ≤ n) :
    mostLevels stmts ≤ n :=
  mostLevels_eq stmts ▸ foldr_max_le each

theorem greatestHeight_le {stmts : List Stmt} {n : Nat} (each : ∀ s ∈ stmts, s.height ≤ n) :
    greatestHeight stmts ≤ n :=
  greatestHeight_eq stmts ▸ foldr_max_le each

end Stmt

end MiniC
