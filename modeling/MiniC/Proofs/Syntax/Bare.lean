import MiniC.Syntax

/-!
Trees without their places. Two trees are the same up to positions if they are
equal once every place in them is the unknown one.
-/

namespace MiniC

open Position (unknown)

def Name.bare (name : Name) : Name := ⟨name.text, unknown⟩

mutual

def Expr.bare : Expr → Expr
  | .bad _ => .bad unknown
  | .ident _ name => .ident unknown name
  | .lit _ kind text => .lit unknown kind text
  | .composite _ items => .composite unknown (Expr.bareAll items)
  | .paren _ inner => .paren unknown inner.bare
  | .index _ base subscript => .index unknown base.bare subscript.bare
  | .call _ callee args => .call unknown callee.bare (Expr.bareAll args)
  | .unary _ sign operand => .unary unknown sign operand.bare
  | .binary _ op left right => .binary unknown op left.bare right.bare

def Expr.bareAll : List Expr → List Expr
  | [] => []
  | e :: rest => e.bare :: Expr.bareAll rest

end

def Declarator.bare (d : Declarator) : Declarator :=
  ⟨d.name.bare, d.sizes, d.init.map Expr.bare⟩

def VarDecl.bare (v : VarDecl) : VarDecl :=
  ⟨v.isConst, v.base, unknown, v.declarators.map Declarator.bare⟩

def Simple.bare : Simple → Simple
  | .expr _ e => .expr unknown e.bare
  | .assign _ target value => .assign unknown target.bare value.bare

mutual

def Stmt.bare : Stmt → Stmt
  | .bad _ => .bad unknown
  | .empty _ => .empty unknown
  | .decl _ vars => .decl unknown (vars.map VarDecl.bare)
  | .simple s => .simple s.bare
  | .ret _ value => .ret unknown (value.map Expr.bare)
  | .block _ body => .block unknown (Stmt.bareAll body)
  | .branch _ cond yes none => .branch unknown cond.bare yes.bare none
  | .branch _ cond yes (some no) => .branch unknown cond.bare yes.bare (some no.bare)
  | .switch _ subject clauses => .switch unknown subject.bare (Stmt.bareAll clauses)
  | .clause _ label body => .clause unknown (label.map Expr.bare) (Stmt.bareAll body)
  | .forLoop _ init cond next body =>
    .forLoop unknown (init.map Simple.bare) (cond.map Simple.bare) (next.map Simple.bare)
      body.bare
  | .whileLoop _ cond body => .whileLoop unknown cond.bare body.bare
  | .scan _ target => .scan unknown target.bare
  | .print _ args => .print unknown (args.map Expr.bare)

def Stmt.bareAll : List Stmt → List Stmt
  | [] => []
  | s :: rest => s.bare :: Stmt.bareAll rest

end

def Param.bare (param : Param) : Param := ⟨unknown, param.ty, param.name.bare⟩

def FuncDecl.bare (f : FuncDecl) : FuncDecl :=
  { returns := f.returns
    returnsPos := unknown
    name := f.name.bare
    params := ⟨unknown, f.params.params.map Param.bare⟩
    bodyPos := unknown
    body := Stmt.bareAll f.body }

def Decl.bare : Decl → Decl
  | .bad _ => .bad unknown
  | .func _ f => .func unknown f.bare
  | .vars _ v => .vars unknown v.bare

theorem Expr.bareAll_eq_map (es : List Expr) : Expr.bareAll es = es.map Expr.bare := by
  induction es with
  | nil => rfl
  | cons e rest ih => rw [Expr.bareAll, ih, List.map_cons]

theorem Stmt.bareAll_eq_map (stmts : List Stmt) : Stmt.bareAll stmts = stmts.map Stmt.bare := by
  induction stmts with
  | nil => rfl
  | cons s rest ih => rw [Stmt.bareAll, ih, List.map_cons]

end MiniC
