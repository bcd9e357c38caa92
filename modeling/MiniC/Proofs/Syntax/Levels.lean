import MiniC.Proofs.Syntax.Grammatical

/-!
How many nesting levels the reading of a tree takes. An operand takes a level,
and so does each sign, parenthesis, argument list and subscript around it. An
operator gives a level less to its right operand and to the rest of its chain,
so the operands of a chain stand one level deeper from each to the next. A
statement takes a level more than what it holds.
-/

namespace MiniC

namespace Expr

/-- The operators of the chain that an expression is, counted along its left
operands. -/
def operators : Expr → Nat
  | binary _ _ left _ => left.operators + 1
  | _ => 0

mutual

def levels : Expr → Nat
  | bad _ | composite _ _ => 0
  | ident _ _ | lit _ _ _ => 1
  | paren _ inner => inner.levels + 1
  | index _ base subscript => max base.levels (subscript.levels + 1)
  | call _ callee args => max callee.levels (mostLevels args + 1)
  | unary _ _ operand => operand.levels + 1
  | binary _ _ left right => max left.levels (right.levels + left.operators + 1)

def mostLevels : List Expr → Nat
  | [] => 0
  | e :: rest => max e.levels (mostLevels rest)

end

def initLevels : Option Expr → Nat
  | none => 0
  | some e => e.levels

end Expr

open MiniC.Expr (initLevels)

def VarDecl.levels (v : VarDecl) : Nat :=
  v.declarators.foldr (fun d deepest => max (initLevels d.init) deepest) 0

def Simple.levels : Simple → Nat
  | .expr _ e => e.levels
  | .assign _ target value => max target.levels value.levels

def Simple.headerLevels : Option Simple → Nat
  | none => 0
  | some s => s.levels

namespace Stmt

open Simple (headerLevels)

mutual

def levels : Stmt → Nat
  | bad _ | decl _ none => 0
  | empty _ => 1
  | decl _ (some vars) => vars.levels + 1
  | simple s => s.levels + 1
  | ret _ value => initLevels value + 1
  | block _ body => mostLevels body + 1
  | branch _ cond yes none => max cond.levels yes.levels + 1
  | branch _ cond yes (some no) => max cond.levels (max yes.levels no.levels) + 1
  | switch _ subject clauses => max subject.levels (mostLevels clauses) + 1
  | clause _ label body => max (initLevels label) (mostLevels body)
  | forLoop _ init cond next body =>
    max (max (headerLevels init) (headerLevels cond)) (max (headerLevels next) body.levels) + 1
  | whileLoop _ cond body => max cond.levels body.levels + 1
  | scan _ target => target.levels + 1
  | print _ args => Expr.mostLevels args + 1

def mostLevels : List Stmt → Nat
  | [] => 0
  | s :: rest => max s.levels (mostLevels rest)

end

end Stmt

def Decl.levels : Decl → Nat
  | .bad _ => 0
  | .func _ f => Stmt.mostLevels f.body
  | .vars _ v => v.levels

def File.levels (file : File) : Nat :=
  file.decls.foldr (fun decl deepest => max decl.levels deepest) 0

theorem le_foldr_max {α : Type} (f : α → Nat) {a : α} {as : List α} (member : a ∈ as) :
    f a ≤ as.foldr (fun b most => max (f b) most) 0 := by
  induction as with
  | nil => cases member
  | cons first later ih =>
    rw [List.foldr_cons]
    rcases List.mem_cons.mp member with isFirst | isLater
    · exact isFirst ▸ Nat.le_max_left _ _
    · exact Nat.le_trans (ih isLater) (Nat.le_max_right _ _)

namespace Expr

theorem levels_pos : (e : Expr) → e.Grammatical → 0 < e.levels
  | .ident _ _, _ | .lit _ _ _, _ | .paren _ _, _ | .unary _ _ _, _ => by simp only [levels]; omega
  | .index _ base _, grammatical => by
    have := levels_pos base grammatical.2.1
    simp only [levels]
    omega
  | .call _ callee _, grammatical => by
    have := levels_pos callee grammatical.2.1
    simp only [levels]
    omega
  | .binary _ _ left _, grammatical => by
    have := levels_pos left grammatical.2.2.1
    simp only [levels]
    omega

theorem mostLevels_eq (es : List Expr) :
    mostLevels es = es.foldr (fun e most => max e.levels most) 0 := by
  induction es with
  | nil => rfl
  | cons e rest ih => rw [mostLevels, ih, List.foldr_cons]

theorem levels_le_mostLevels {e : Expr} {es : List Expr} (member : e ∈ es) :
    e.levels ≤ mostLevels es :=
  mostLevels_eq es ▸ le_foldr_max levels member

end Expr

namespace Stmt

theorem levels_pos (t : Stmt) (grammatical : t.Grammatical) : 0 < t.levels := by
  cases t with
  | bad | clause => exact grammatical.elim
  | decl pos vars =>
    cases vars with
    | none => exact grammatical.elim
    | some => simp only [levels]; omega
  | branch pos cond yes no => cases no <;> simp only [levels] <;> omega
  | _ => simp only [levels]; omega

theorem mostLevels_eq (stmts : List Stmt) :
    mostLevels stmts = stmts.foldr (fun t most => max t.levels most) 0 := by
  induction stmts with
  | nil => rfl
  | cons t rest ih => rw [mostLevels, ih, List.foldr_cons]

theorem levels_le_mostLevels {t : Stmt} {stmts : List Stmt} (member : t ∈ stmts) :
    t.levels ≤ mostLevels stmts :=
  mostLevels_eq stmts ▸ le_foldr_max levels member

end Stmt

theorem VarDecl.initLevels_le_levels {v : VarDecl} {d : Declarator} (member : d ∈ v.declarators) :
    initLevels d.init ≤ v.levels :=
  le_foldr_max (fun d => initLevels d.init) member

theorem File.decl_levels_le {file : File} {decl : Decl} (member : decl ∈ file.decls) :
    decl.levels ≤ file.levels :=
  le_foldr_max Decl.levels member

end MiniC
