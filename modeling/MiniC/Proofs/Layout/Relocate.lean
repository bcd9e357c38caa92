import MiniC.Syntax
import MiniC.Diagnostic
import MiniC.Parser.Basic
import MiniC.Proofs.Syntax.Bare

/-!
Moving all places of a tree, of a token or of a diagnostic by one map of places.
What is moved is the same as before up to positions.
-/

namespace MiniC

def Diagnostic.relocate (move : Position → Position) (d : Diagnostic) : Diagnostic :=
  { d with pos := move d.pos }

def Token.relocate (move : Position → Position) (token : Token) : Token :=
  { token with pos := move token.pos }

def Lexeme.relocate (move : Position → Position) (lexeme : Lexeme) : Lexeme :=
  ⟨lexeme.token.relocate move, lexeme.faults.map (Diagnostic.relocate move)⟩

def Stream.relocate (move : Position → Position) (stream : Stream) : Stream where
  upcoming := stream.upcoming.map (Lexeme.relocate move)
  endPos := move stream.endPos
  endFaults := stream.endFaults.map (Diagnostic.relocate move)
  remaining := stream.remaining
  remaining_eq := by rw [List.length_map, stream.remaining_eq]

def Name.relocate (move : Position → Position) (name : Name) : Name := ⟨name.text, move name.pos⟩

mutual

def Expr.relocate (move : Position → Position) : Expr → Expr
  | .bad pos => .bad (move pos)
  | .ident pos name => .ident (move pos) name
  | .lit pos kind text => .lit (move pos) kind text
  | .composite pos items => .composite (move pos) (Expr.relocateAll move items)
  | .paren pos inner => .paren (move pos) (inner.relocate move)
  | .index pos base subscript => .index (move pos) (base.relocate move) (subscript.relocate move)
  | .call pos callee args =>
    .call (move pos) (callee.relocate move) (Expr.relocateAll move args)
  | .unary pos sign operand => .unary (move pos) sign (operand.relocate move)
  | .binary pos op left right => .binary (move pos) op (left.relocate move) (right.relocate move)

def Expr.relocateAll (move : Position → Position) : List Expr → List Expr
  | [] => []
  | e :: rest => e.relocate move :: Expr.relocateAll move rest

end

def Declarator.relocate (move : Position → Position) (d : Declarator) : Declarator :=
  ⟨d.name.relocate move, d.sizes, d.init.map (Expr.relocate move)⟩

def VarDecl.relocate (move : Position → Position) (v : VarDecl) : VarDecl :=
  ⟨v.isConst, v.base, move v.basePos, v.declarators.map (Declarator.relocate move)⟩

def Simple.relocate (move : Position → Position) : Simple → Simple
  | .expr pos e => .expr (move pos) (e.relocate move)
  | .assign pos target value => .assign (move pos) (target.relocate move) (value.relocate move)

mutual

def Stmt.relocate (move : Position → Position) : Stmt → Stmt
  | .bad pos => .bad (move pos)
  | .empty pos => .empty (move pos)
  | .decl pos vars => .decl (move pos) (vars.map (VarDecl.relocate move))
  | .simple s => .simple (s.relocate move)
  | .ret pos value => .ret (move pos) (value.map (Expr.relocate move))
  | .block pos body => .block (move pos) (Stmt.relocateAll move body)
  | .branch pos cond yes none => .branch (move pos) (cond.relocate move) (yes.relocate move) none
  | .branch pos cond yes (some no) =>
    .branch (move pos) (cond.relocate move) (yes.relocate move) (some (no.relocate move))
  | .switch pos subject clauses =>
    .switch (move pos) (subject.relocate move) (Stmt.relocateAll move clauses)
  | .clause pos label body =>
    .clause (move pos) (label.map (Expr.relocate move)) (Stmt.relocateAll move body)
  | .forLoop pos init cond next body =>
    .forLoop (move pos) (init.map (Simple.relocate move)) (cond.map (Simple.relocate move))
      (next.map (Simple.relocate move)) (body.relocate move)
  | .whileLoop pos cond body => .whileLoop (move pos) (cond.relocate move) (body.relocate move)
  | .scan pos target => .scan (move pos) (target.relocate move)
  | .print pos args => .print (move pos) (args.map (Expr.relocate move))

def Stmt.relocateAll (move : Position → Position) : List Stmt → List Stmt
  | [] => []
  | s :: rest => s.relocate move :: Stmt.relocateAll move rest

end

def Param.relocate (move : Position → Position) (param : Param) : Param :=
  ⟨move param.pos, param.ty, param.name.relocate move⟩

def ParamList.relocate (move : Position → Position) (list : ParamList) : ParamList :=
  ⟨move list.pos, list.params.map (Param.relocate move)⟩

def FuncDecl.relocate (move : Position → Position) (f : FuncDecl) : FuncDecl :=
  { returns := f.returns
    returnsPos := move f.returnsPos
    name := f.name.relocate move
    params := f.params.relocate move
    bodyPos := move f.bodyPos
    body := Stmt.relocateAll move f.body }

def Decl.relocate (move : Position → Position) : Decl → Decl
  | .bad pos => .bad (move pos)
  | .func pos f => .func (move pos) (f.relocate move)
  | .vars pos v => .vars (move pos) (v.relocate move)

def File.relocate (move : Position → Position) (file : File) : File :=
  ⟨file.name, file.decls.map (Decl.relocate move)⟩

variable {move : Position → Position}

theorem Expr.relocateAll_eq_map (es : List Expr) :
    Expr.relocateAll move es = es.map (Expr.relocate move) := by
  induction es with
  | nil => rfl
  | cons e rest ih => rw [Expr.relocateAll, ih, List.map_cons]

theorem Stmt.relocateAll_eq_map (stmts : List Stmt) :
    Stmt.relocateAll move stmts = stmts.map (Stmt.relocate move) := by
  induction stmts with
  | nil => rfl
  | cons s rest ih => rw [Stmt.relocateAll, ih, List.map_cons]

@[simp] theorem Expr.relocate_pos (e : Expr) : (e.relocate move).pos = move e.pos := by
  cases e <;> simp only [relocate, pos]

@[simp] theorem Simple.relocate_pos (s : Simple) : (s.relocate move).pos = move s.pos := by
  cases s <;> rfl

section Bare

mutual

theorem Expr.bare_relocate : (e : Expr) → (e.relocate move).bare = e.bare
  | .bad _ | .ident _ _ | .lit _ _ _ => by simp only [relocate, bare]
  | .composite _ items => by simp only [relocate, bare, Expr.bareAll_relocateAll items]
  | .paren _ inner => by simp only [relocate, bare, inner.bare_relocate]
  | .index _ base subscript => by
    simp only [relocate, bare, base.bare_relocate, subscript.bare_relocate]
  | .call _ callee args => by
    simp only [relocate, bare, callee.bare_relocate, Expr.bareAll_relocateAll args]
  | .unary _ _ operand => by simp only [relocate, bare, operand.bare_relocate]
  | .binary _ _ left right => by
    simp only [relocate, bare, left.bare_relocate, right.bare_relocate]

theorem Expr.bareAll_relocateAll : (es : List Expr) →
    Expr.bareAll (Expr.relocateAll move es) = Expr.bareAll es
  | [] => rfl
  | e :: rest => by
    simp only [Expr.relocateAll, Expr.bareAll, e.bare_relocate, Expr.bareAll_relocateAll rest]

end

theorem Expr.bare_comp_relocate : Expr.bare ∘ Expr.relocate move = Expr.bare :=
  funext Expr.bare_relocate

theorem Declarator.bare_relocate (d : Declarator) : (d.relocate move).bare = d.bare := by
  simp only [relocate, bare, Name.relocate, Name.bare, Option.map_map, Expr.bare_comp_relocate]

theorem VarDecl.bare_relocate (v : VarDecl) : (v.relocate move).bare = v.bare := by
  have each : Declarator.bare ∘ Declarator.relocate move = Declarator.bare :=
    funext Declarator.bare_relocate
  simp only [relocate, bare, List.map_map, each]

theorem Simple.bare_relocate (s : Simple) : (s.relocate move).bare = s.bare := by
  cases s <;> simp only [relocate, bare, Expr.bare_relocate]

theorem Simple.bare_comp_relocate : Simple.bare ∘ Simple.relocate move = Simple.bare :=
  funext Simple.bare_relocate

theorem VarDecl.bare_comp_relocate : VarDecl.bare ∘ VarDecl.relocate move = VarDecl.bare :=
  funext VarDecl.bare_relocate

mutual

theorem Stmt.bare_relocate : (s : Stmt) → (s.relocate move).bare = s.bare
  | .bad _ | .empty _ => by simp only [relocate, bare]
  | .decl _ _ => by simp only [relocate, bare, Option.map_map, VarDecl.bare_comp_relocate]
  | .simple s => by simp only [relocate, bare, s.bare_relocate]
  | .ret _ _ => by simp only [relocate, bare, Option.map_map, Expr.bare_comp_relocate]
  | .block _ body => by simp only [relocate, bare, Stmt.bareAll_relocateAll body]
  | .branch _ _ yes none => by simp only [relocate, bare, Expr.bare_relocate, yes.bare_relocate]
  | .branch _ _ yes (some no) => by
    simp only [relocate, bare, Expr.bare_relocate, yes.bare_relocate, no.bare_relocate]
  | .switch _ _ clauses => by
    simp only [relocate, bare, Expr.bare_relocate, Stmt.bareAll_relocateAll clauses]
  | .clause _ _ body => by
    simp only [relocate, bare, Option.map_map, Expr.bare_comp_relocate,
      Stmt.bareAll_relocateAll body]
  | .forLoop _ _ _ _ body => by
    simp only [relocate, bare, Option.map_map, Simple.bare_comp_relocate, body.bare_relocate]
  | .whileLoop _ _ body => by simp only [relocate, bare, Expr.bare_relocate, body.bare_relocate]
  | .scan _ _ => by simp only [relocate, bare, Expr.bare_relocate]
  | .print _ _ => by simp only [relocate, bare, List.map_map, Expr.bare_comp_relocate]

theorem Stmt.bareAll_relocateAll : (stmts : List Stmt) →
    Stmt.bareAll (Stmt.relocateAll move stmts) = Stmt.bareAll stmts
  | [] => rfl
  | s :: rest => by
    simp only [Stmt.relocateAll, Stmt.bareAll, s.bare_relocate, Stmt.bareAll_relocateAll rest]

end

theorem Param.bare_comp_relocate : Param.bare ∘ Param.relocate move = Param.bare := rfl

theorem FuncDecl.bare_relocate (f : FuncDecl) : (f.relocate move).bare = f.bare := by
  simp only [relocate, bare, ParamList.relocate, List.map_map, Param.bare_comp_relocate,
    Stmt.bareAll_relocateAll]
  rfl

theorem Decl.bare_relocate (d : Decl) : (d.relocate move).bare = d.bare := by
  cases d with
  | bad => rfl
  | func _ f => simp only [relocate, bare, f.bare_relocate]
  | vars _ v => simp only [relocate, bare, v.bare_relocate]

end Bare

end MiniC
