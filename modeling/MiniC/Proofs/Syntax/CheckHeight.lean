import MiniC.Proofs.Expr.HasType
import MiniC.Proofs.Resolve.Resolver
import MiniC.Proofs.Syntax.Bare
import MiniC.Proofs.Syntax.Height

/-!
How deep the check of an expression calls itself. A parenthesis, a sign, an
operator and a call are each a call more than what is in them. A run of
subscripts is one call, however long it is, and braces are none. What reading
does not bound is how many calls stand behind one another.
-/

namespace MiniC

namespace Expr

/-- Whether a subscript behind the expression goes on with a run of subscripts. -/
def isSubscripted : Expr → Bool
  | index _ _ _ => true
  | _ => false

mutual

def checkHeight : Expr → Nat
  | bad _ | ident _ _ | lit _ _ _ => 0
  | composite _ items => greatestCheckHeight items
  | paren _ inner => inner.checkHeight + 1
  | index _ base subscript =>
    max (base.checkHeight + if base.isSubscripted then 0 else 1) (subscript.checkHeight + 1)
  | call _ callee args => max callee.checkHeight (greatestCheckHeight args) + 1
  | unary _ _ operand => operand.checkHeight + 1
  | binary _ _ left right => max left.checkHeight right.checkHeight + 1

def greatestCheckHeight : List Expr → Nat
  | [] => 0
  | e :: rest => max e.checkHeight (greatestCheckHeight rest)

end

/-- The calls among the suffixes that end an expression. -/
def calls : Expr → Nat
  | call _ callee _ => callee.calls + 1
  | index _ base _ => base.calls
  | _ => 0

mutual

/-- An expression and all expressions in it. -/
def parts : Expr → List Expr
  | bad pos => [bad pos]
  | ident pos name => [ident pos name]
  | lit pos kind text => [lit pos kind text]
  | composite pos items => composite pos items :: partsOfAll items
  | paren pos inner => paren pos inner :: inner.parts
  | index pos base subscript => index pos base subscript :: (base.parts ++ subscript.parts)
  | call pos callee args => call pos callee args :: (callee.parts ++ partsOfAll args)
  | unary pos sign operand => unary pos sign operand :: operand.parts
  | binary pos op left right => binary pos op left right :: (left.parts ++ right.parts)

def partsOfAll : List Expr → List Expr
  | [] => []
  | e :: rest => e.parts ++ partsOfAll rest

end

/-- Nowhere in the expression stand more calls behind one another. -/
def CallsWithin (bound : Nat) (e : Expr) : Prop := ∀ part ∈ e.parts, part.calls ≤ bound

instance (bound : Nat) (e : Expr) : Decidable (e.CallsWithin bound) :=
  inferInstanceAs (Decidable (∀ part ∈ e.parts, part.calls ≤ bound))

end Expr

def VarDecl.exprs (v : VarDecl) : List Expr := v.declarators.flatMap (·.init.toList)

mutual

/-- The expressions of a statement and of the statements in it, each as a whole. -/
def Stmt.exprs : Stmt → List Expr
  | .bad _ | .empty _ | .decl _ none => []
  | .decl _ (some vars) => vars.exprs
  | .simple s => s.exprs
  | .ret _ value => value.toList
  | .block _ body => Stmt.exprsOfAll body
  | .branch _ cond yes none => cond :: yes.exprs
  | .branch _ cond yes (some no) => cond :: (yes.exprs ++ no.exprs)
  | .switch _ subject clauses => subject :: Stmt.exprsOfAll clauses
  | .clause _ label body => label.toList ++ Stmt.exprsOfAll body
  | .forLoop _ init cond next body =>
    Simple.headerExprs init ++ (Simple.headerExprs cond ++ (Simple.headerExprs next ++ body.exprs))
  | .whileLoop _ cond body => cond :: body.exprs
  | .scan _ target => [target]
  | .print _ args => args

def Stmt.exprsOfAll : List Stmt → List Expr
  | [] => []
  | s :: rest => s.exprs ++ Stmt.exprsOfAll rest

end

def Decl.exprs : Decl → List Expr
  | .bad _ => []
  | .func _ f => Stmt.exprsOfAll f.body
  | .vars _ v => v.exprs

def File.exprs (file : File) : List Expr := file.decls.flatMap Decl.exprs

namespace Expr

theorem greatestCheckHeight_eq (es : List Expr) :
    greatestCheckHeight es = es.foldr (fun e most => max e.checkHeight most) 0 := by
  induction es with
  | nil => rfl
  | cons e rest ih => rw [greatestCheckHeight, ih, List.foldr_cons]

theorem greatestCheckHeight_le {es : List Expr} {n : Nat} (each : ∀ e ∈ es, e.checkHeight ≤ n) :
    greatestCheckHeight es ≤ n :=
  greatestCheckHeight_eq es ▸ foldr_max_le each

theorem greatestCheckHeight_concat (es : List Expr) (last : Expr) :
    greatestCheckHeight (es ++ [last]) = max (greatestCheckHeight es) last.checkHeight := by
  induction es with
  | nil => simp [greatestCheckHeight]
  | cons e rest ih => simp [greatestCheckHeight, ih, Nat.max_assoc]

/-- A run of subscripts is one call of the check, above its base and above all of
its subscripts. -/
theorem checkHeight_index (pos : Position) (base subscript : Expr) :
    (index pos base subscript).checkHeight =
      max base.indexBase.checkHeight
        (greatestCheckHeight (base.subscripts ++ [subscript])) + 1 := by
  rw [greatestCheckHeight_concat]
  match base with
  | index inner first second =>
    have run := checkHeight_index inner first second
    rw [checkHeight, run]
    simp only [isSubscripted, indexBase, subscripts, if_true]
    omega
  | bad _ | ident _ _ | lit _ _ _ | composite _ _ | paren _ _ | call _ _ _ | unary _ _ _
  | binary _ _ _ _ =>
    rw [checkHeight]
    simp only [isSubscripted, indexBase, subscripts, greatestCheckHeight, Bool.false_eq_true,
      if_false]
    omega

theorem checkHeight_le_greatest {e : Expr} {es : List Expr} (member : e ∈ es) :
    e.checkHeight ≤ greatestCheckHeight es :=
  greatestCheckHeight_eq es ▸ le_foldr_max checkHeight member

theorem isSubscripted_bare (e : Expr) : e.bare.isSubscripted = e.isSubscripted := by
  cases e <;> simp only [bare, isSubscripted]

mutual

theorem checkHeight_bare : (e : Expr) → e.bare.checkHeight = e.checkHeight
  | bad _ | ident _ _ | lit _ _ _ => by simp only [bare, checkHeight]
  | composite _ items => greatestCheckHeight_bareAll items
  | paren _ inner => congrArg (· + 1) (checkHeight_bare inner)
  | index _ base subscript => by
    simp only [bare, checkHeight, checkHeight_bare base, checkHeight_bare subscript,
      isSubscripted_bare]
  | call _ callee args => by
    simp only [bare, checkHeight, checkHeight_bare callee, greatestCheckHeight_bareAll args]
  | unary _ _ operand => congrArg (· + 1) (checkHeight_bare operand)
  | binary _ _ left right => by
    simp only [bare, checkHeight, checkHeight_bare left, checkHeight_bare right]

theorem greatestCheckHeight_bareAll :
    (es : List Expr) → greatestCheckHeight (bareAll es) = greatestCheckHeight es
  | [] => rfl
  | e :: rest => by
    simp only [bareAll, greatestCheckHeight, checkHeight_bare e, greatestCheckHeight_bareAll rest]

end

/-- Each of the calls behind one another is a call of the check. -/
theorem calls_le_checkHeight : (e : Expr) → e.calls ≤ e.checkHeight
  | bad _ | ident _ _ | lit _ _ _ | composite _ _ | paren _ _ | unary _ _ _ | binary _ _ _ _ =>
    Nat.zero_le _
  | index _ base _ => by
    have inner := calls_le_checkHeight base
    simp only [calls, checkHeight]
    omega
  | call _ callee _ => by
    have inner := calls_le_checkHeight callee
    simp only [calls, checkHeight]
    omega

theorem mem_parts (e : Expr) : e ∈ e.parts := by
  cases e <;> exact List.mem_cons_self

section Bounds

variable {m n : Nat} {es fs : List Expr}

theorem checkHeight_le_append (left : ∀ e ∈ es, e.checkHeight ≤ m)
    (right : ∀ e ∈ fs, e.checkHeight ≤ n) : ∀ e ∈ es ++ fs, e.checkHeight ≤ max m n :=
  List.forall_mem_append.mpr
    ⟨fun e member => Nat.le_trans (left e member) (Nat.le_max_left m n),
      fun e member => Nat.le_trans (right e member) (Nat.le_max_right m n)⟩

theorem checkHeight_le_whole {whole : Expr} (within : ∀ e ∈ es, e.checkHeight ≤ n)
    (below : n ≤ whole.checkHeight) : ∀ e ∈ whole :: es, e.checkHeight ≤ whole.checkHeight :=
  List.forall_mem_cons.mpr
    ⟨Nat.le_refl _, fun e member => Nat.le_trans (within e member) below⟩

end Bounds

mutual

/-- No part of an expression is checked deeper than the whole. -/
theorem checkHeight_le_of_mem_parts :
    (e : Expr) → ∀ part ∈ e.parts, part.checkHeight ≤ e.checkHeight
  | bad _ | ident _ _ | lit _ _ _ => by simp [parts]
  | composite _ items =>
    checkHeight_le_whole (checkHeight_le_of_mem_partsOfAll items) (Nat.le_refl _)
  | paren _ inner => checkHeight_le_whole (checkHeight_le_of_mem_parts inner) (Nat.le_succ _)
  | unary _ _ operand => checkHeight_le_whole (checkHeight_le_of_mem_parts operand) (Nat.le_succ _)
  | index _ base subscript => by
    apply checkHeight_le_whole (checkHeight_le_append (checkHeight_le_of_mem_parts base)
      (checkHeight_le_of_mem_parts subscript))
    simp only [checkHeight]
    omega
  | call _ callee args =>
    checkHeight_le_whole (checkHeight_le_append (checkHeight_le_of_mem_parts callee)
      (checkHeight_le_of_mem_partsOfAll args)) (Nat.le_succ _)
  | binary _ _ left right =>
    checkHeight_le_whole (checkHeight_le_append (checkHeight_le_of_mem_parts left)
      (checkHeight_le_of_mem_parts right)) (Nat.le_succ _)

theorem checkHeight_le_of_mem_partsOfAll :
    (es : List Expr) → ∀ part ∈ partsOfAll es, part.checkHeight ≤ greatestCheckHeight es
  | [] => nofun
  | e :: rest =>
    checkHeight_le_append (checkHeight_le_of_mem_parts e) (checkHeight_le_of_mem_partsOfAll rest)

end

theorem partsOfAll_eq (es : List Expr) : partsOfAll es = es.flatMap parts := by
  induction es with
  | nil => rfl
  | cons e rest ih => rw [partsOfAll, ih, List.flatMap_cons]

end Expr

theorem VarDecl.exprs_bare (v : VarDecl) : v.bare.exprs = v.exprs.map Expr.bare := by
  simp only [VarDecl.exprs, VarDecl.bare, Declarator.bare, List.flatMap_map, List.map_flatMap,
    Option.toList_map]

theorem Simple.exprs_bare (s : Simple) : s.bare.exprs = s.exprs.map Expr.bare := by
  cases s <;> rfl

theorem Simple.headerExprs_bare (header : Option Simple) :
    Simple.headerExprs (header.map Simple.bare) = (Simple.headerExprs header).map Expr.bare := by
  cases header with
  | none => rfl
  | some s => simp [Simple.headerExprs, Simple.exprs_bare]

mutual

theorem Stmt.exprs_bare : (s : Stmt) → s.bare.exprs = s.exprs.map Expr.bare
  | .bad _ | .empty _ | .decl _ none => rfl
  | .decl _ (some vars) => vars.exprs_bare
  | .simple s => s.exprs_bare
  | .ret _ value => Option.toList_map
  | .block _ body => Stmt.exprsOfAll_bareAll body
  | .branch _ cond yes none => congrArg (cond.bare :: ·) yes.exprs_bare
  | .branch _ cond yes (some no) => by
    simp only [Stmt.bare, Stmt.exprs, yes.exprs_bare, no.exprs_bare, List.map_cons, List.map_append]
  | .switch _ subject clauses => congrArg (subject.bare :: ·) (Stmt.exprsOfAll_bareAll clauses)
  | .clause _ label body => by
    simp only [Stmt.bare, Stmt.exprs, Stmt.exprsOfAll_bareAll body, Option.toList_map,
      List.map_append]
  | .forLoop _ init cond next body => by
    simp only [Stmt.bare, Stmt.exprs, body.exprs_bare, Simple.headerExprs_bare, List.map_append]
  | .whileLoop _ cond body => congrArg (cond.bare :: ·) body.exprs_bare
  | .scan _ _ | .print _ _ => rfl

theorem Stmt.exprsOfAll_bareAll : (stmts : List Stmt) →
    Stmt.exprsOfAll (Stmt.bareAll stmts) = (Stmt.exprsOfAll stmts).map Expr.bare
  | [] => rfl
  | s :: rest => by
    simp only [Stmt.bareAll, Stmt.exprsOfAll, s.exprs_bare, Stmt.exprsOfAll_bareAll rest,
      List.map_append]

end

theorem Decl.exprs_bare (decl : Decl) : decl.bare.exprs = decl.exprs.map Expr.bare := by
  cases decl with
  | bad => rfl
  | func pos f => exact Stmt.exprsOfAll_bareAll f.body
  | vars pos v => exact v.exprs_bare

/-- Files that are the same up to positions are checked alike deep. -/
theorem File.map_checkHeight_eq {file other : File}
    (same : file.decls.map Decl.bare = other.decls.map Decl.bare) :
    file.exprs.map Expr.checkHeight = other.exprs.map Expr.checkHeight := by
  have bare (file : File) : (file.decls.map Decl.bare).flatMap Decl.exprs =
      file.exprs.map Expr.bare := by
    simp only [File.exprs, List.flatMap_map, List.map_flatMap, Decl.exprs_bare]
  have heights (file : File) : file.exprs.map Expr.checkHeight =
      ((file.decls.map Decl.bare).flatMap Decl.exprs).map Expr.checkHeight := by
    rw [bare, List.map_map]
    exact List.map_congr_left fun e _ => e.checkHeight_bare.symm
  rw [heights, heights, same]

end MiniC
