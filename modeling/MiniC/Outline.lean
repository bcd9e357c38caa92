import MiniC.Syntax

/-!
A tree laid out as rows, parents before children, each row one level deeper
than its parent. A row names the part its node plays in the parent, the kind of
the node, its place, and what the kind leaves open: a name, an operator, a text
or a number of parts.
-/

namespace MiniC

inductive Detail where
  | text (s : String)
  | count (n : Nat)
deriving DecidableEq

structure Row where
  depth : Nat
  role : String
  kind : String
  pos : Position
  detail : Option Detail
deriving DecidableEq

inductive Outline where
  | node (role kind : String) (pos : Position) (detail : Option Detail) (parts : List Outline)

namespace Outline

mutual

def rows (depth : Nat) : Outline → List Row
  | node role kind pos detail parts => ⟨depth, role, kind, pos, detail⟩ :: rowsOfAll (depth + 1) parts

def rowsOfAll (depth : Nat) : List Outline → List Row
  | [] => []
  | part :: rest => rows depth part ++ rowsOfAll depth rest

end

def leaf (role kind : String) (pos : Position) (detail : Option Detail) : Outline :=
  node role kind pos detail []

end Outline

open Outline

def LitKind.rowKind : LitKind → String
  | .int => "IntLit"
  | .char => "CharLit"
  | .string => "StringLit"

def BinOp.rowKind (op : BinOp) : String := if op.isRelational then "Relational" else "Binary"

mutual

def Expr.outline (role : String) : Expr → Outline
  | .bad pos => leaf role "BadExpr" pos none
  | .ident pos name => leaf role "Ident" pos (some (.text name))
  | .lit pos kind text => leaf role kind.rowKind pos (some (.text text))
  | .composite pos items =>
    node role "CompositeLit" pos (some (.count items.length)) (Expr.outlines "item" items)
  | .paren pos inner => node role "Paren" pos none [inner.outline "inner"]
  | .index pos base subscript =>
    node role "Index" pos none [base.outline "base", subscript.outline "index"]
  | .call pos callee args =>
    node role "Call" pos (some (.count args.length))
      (callee.outline "callee" :: Expr.outlines "arg" args)
  | .unary pos sign operand =>
    node role "Unary" pos (some (.text sign.symbol)) [operand.outline "operand"]
  | .binary pos op left right =>
    node role op.rowKind pos (some (.text op.symbol))
      [left.outline "left", right.outline "right"]

def Expr.outlines (role : String) : List Expr → List Outline
  | [] => []
  | e :: rest => e.outline role :: Expr.outlines role rest

end

def Name.outline (name : Name) : Outline :=
  leaf "name" "Name" name.pos (some (.text name.text))

def Ty.outline (ty : Ty) (pos : Position) : Outline :=
  Outline.leaf "type" "Type" pos (some (.text ty.display))

def VarDecl.declaratorOutline (vars : VarDecl) (declarator : Declarator) : Outline :=
  node "var" (if vars.isConst then "ConstVar" else "SingleVar") declarator.name.pos
    (some (.text declarator.name.text))
    ((vars.typeOf declarator).outline vars.basePos ::
      (declarator.init.map (Expr.outline "init")).toList)

def VarDecl.outline (vars : VarDecl) (role : String) (pos : Position) : Outline :=
  node role "Var" pos (some (.count vars.declarators.length))
    (vars.declarators.map vars.declaratorOutline)

def Simple.outline (role : String) : Simple → Outline
  | .expr pos e => node role "ExprStmt" pos none [e.outline "expr"]
  | .assign pos target value =>
    node role "Assign" pos none [target.outline "lhs", value.outline "rhs"]

mutual

def Stmt.outline (role : String) : Stmt → Outline
  | .bad pos => leaf role "BadStmt" pos none
  | .empty pos => leaf role "Empty" pos none
  | .decl pos none => node role "DeclStmt" pos none [leaf "decl" "BadDecl" pos none]
  | .decl pos (some vars) => node role "DeclStmt" pos none [vars.outline "decl" pos]
  | .simple s => s.outline role
  | .ret pos value => node role "Return" pos none (value.map (Expr.outline "value")).toList
  | .block pos body => node role "Block" pos (some (.count body.length)) (Stmt.outlines "stmt" body)
  | .branch pos cond yes none =>
    node role "If" pos none [cond.outline "cond", yes.outline "then"]
  | .branch pos cond yes (some no) =>
    node role "If" pos none [cond.outline "cond", yes.outline "then", no.outline "else"]
  | .switch pos subject clauses =>
    node role "Switch" pos (some (.count clauses.length))
      (subject.outline "cond" :: Stmt.outlines "case" clauses)
  | .clause pos none body =>
    node role "Default" pos (some (.count body.length)) (Stmt.outlines "stmt" body)
  | .clause pos (some label) body =>
    node role "Case" pos (some (.count body.length))
      (label.outline "label" :: Stmt.outlines "stmt" body)
  | .forLoop pos init cond next body =>
    node role "For" pos none
      ((init.map (Simple.outline "init")).toList ++ (cond.map (Simple.outline "cond")).toList ++
        (next.map (Simple.outline "step")).toList ++ [body.outline "body"])
  | .whileLoop pos cond body =>
    node role "While" pos none [cond.outline "cond", body.outline "body"]
  | .scan pos target => node role "Scan" pos none [target.outline "target"]
  | .print pos args =>
    node role "Printf" pos (some (.count args.length)) (Expr.outlines "arg" args)

def Stmt.outlines (role : String) : List Stmt → List Outline
  | [] => []
  | s :: rest => s.outline role :: Stmt.outlines role rest

end

def Param.outline (param : Param) : Outline :=
  node "param" "Field" param.pos none [param.ty.outline param.pos, param.name.outline]

def ParamList.outline (list : ParamList) : Outline :=
  node "params" "Params" list.pos (some (.count list.params.length))
    (list.params.map Param.outline)

def FuncDecl.outlineParts (f : FuncDecl) : List Outline :=
  [f.returns.outline f.returnsPos, f.name.outline, f.params.outline,
   (Stmt.block f.bodyPos f.body).outline "body"]

def Decl.outline : Decl → Outline
  | .bad pos => leaf "decl" "BadDecl" pos none
  | .func pos f => node "decl" "Func" pos (some (.text f.name.text)) f.outlineParts
  | .vars pos v => v.outline "decl" pos

def File.rows (file : File) : List Row := Outline.rowsOfAll 0 (file.decls.map Decl.outline)

end MiniC
