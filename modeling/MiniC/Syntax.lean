import MiniC.Token.Basic

/-!
The trees that are read, and the types they declare. An array type holds its
element type and its size, so the type of a declared array nests one array per
dimension, the outermost one on the outside. The invalid type stands in where an
error has been reported already.

Each expression holds the place of its leftmost token, each statement that of
its first. A composite literal is a braced list that initialises an array, one
level of braces per dimension. One declaration of variables gives several names
one base type and one const flag; each name has its own array sizes and initial
value. A simple statement is what may also stand in the header of a loop. A
clause belongs to a switch: a label and the statements behind it, or the default
without a label.

What could not be read leaves a bad expression, statement or declaration in its
place, so that the count of declarations tells what the source held.
-/

namespace MiniC

inductive Ty where
  | invalid | void | int | char | string
  | array (element : Ty) (size : Nat)
deriving DecidableEq

namespace Ty

/-- Wraps `leaf` in one array per size, the first size outermost. -/
def arrayOf (leaf : Ty) (sizes : List Nat) : Ty := sizes.foldr (fun size elem => .array elem size) leaf

/-- Array sizes, outermost first; none for what is no array. -/
def sizes : Ty → List Nat
  | .array elem size => size :: elem.sizes
  | _ => []

/-- The type inside all arrays. -/
def leaf : Ty → Ty
  | .array elem _ => elem.leaf
  | ty => ty

def isInvalid : Ty → Bool
  | .invalid => true
  | _ => false

def isArray : Ty → Bool
  | .array _ _ => true
  | _ => false

/-- Types whose values can be computed with, compared and printed. -/
def isBasic : Ty → Bool
  | .int | .char => true
  | _ => false

def leafName : Ty → String
  | .invalid => "<invalid>"
  | .void => "void"
  | .int => "int"
  | .char => "char"
  | .string => "string"
  | .array elem _ => elem.leafName

def sizeSuffix (size : Nat) : String := "[" ++ toString size ++ "]"

def display (ty : Ty) : String := ty.leafName ++ String.join (ty.sizes.map sizeSuffix)

end Ty

inductive LitKind where
  | int | char | string
deriving DecidableEq

inductive Expr where
  | bad (pos : Position)
  | ident (pos : Position) (name : String)
  /-- The text is kept as written, quotes included. -/
  | lit (pos : Position) (kind : LitKind) (text : String)
  | composite (pos : Position) (items : List Expr)
  | paren (pos : Position) (inner : Expr)
  | index (pos : Position) (base subscript : Expr)
  | call (pos : Position) (callee : Expr) (args : List Expr)
  | unary (pos : Position) (sign : Sign) (operand : Expr)
  | binary (pos : Position) (op : BinOp) (left right : Expr)

namespace Expr

def pos : Expr → Position
  | bad pos | ident pos _ | lit pos _ _ | composite pos _ | paren pos _
  | index pos _ _ | call pos _ _ | unary pos _ _ | binary pos _ _ _ => pos

/-- The expression inside any number of parentheses. -/
def unparen : Expr → Expr
  | paren _ inner => inner.unparen
  | e => e

end Expr

structure Name where
  text : String
  pos : Position
deriving DecidableEq

structure Declarator where
  name : Name
  /-- Array sizes, outermost first. -/
  sizes : List Nat
  init : Option Expr

structure VarDecl where
  isConst : Bool
  base : Ty
  basePos : Position
  declarators : List Declarator

def VarDecl.typeOf (vars : VarDecl) (declarator : Declarator) : Ty :=
  .arrayOf vars.base declarator.sizes

inductive Simple where
  | expr (pos : Position) (e : Expr)
  | assign (pos : Position) (target value : Expr)

def Simple.pos : Simple → Position
  | .expr pos _ | .assign pos _ _ => pos

inductive Stmt where
  | bad (pos : Position)
  | empty (pos : Position)
  /-- A local declaration; none if it could not be used. -/
  | decl (pos : Position) (vars : Option VarDecl)
  | simple (s : Simple)
  | ret (pos : Position) (value : Option Expr)
  | block (pos : Position) (body : List Stmt)
  | branch (pos : Position) (cond : Expr) (yes : Stmt) (no : Option Stmt)
  | switch (pos : Position) (subject : Expr) (clauses : List Stmt)
  | clause (pos : Position) (label : Option Expr) (body : List Stmt)
  | forLoop (pos : Position) (init cond next : Option Simple) (body : Stmt)
  | whileLoop (pos : Position) (cond : Expr) (body : Stmt)
  | scan (pos : Position) (target : Expr)
  | print (pos : Position) (args : List Expr)

namespace Stmt

def pos : Stmt → Position
  | simple s => s.pos
  | bad pos | empty pos | decl pos _ | ret pos _ | block pos _ | branch pos _ _ _
  | switch pos _ _ | clause pos _ _ | forLoop pos _ _ _ _ | whileLoop pos _ _
  | scan pos _ | print pos _ => pos

end Stmt

structure Param where
  pos : Position
  ty : Ty
  name : Name

structure ParamList where
  /-- Where the opening parenthesis stands. -/
  pos : Position
  params : List Param

structure FuncDecl where
  returns : Ty
  returnsPos : Position
  name : Name
  params : ParamList
  bodyPos : Position
  body : List Stmt

inductive Decl where
  | bad (pos : Position)
  | func (pos : Position) (f : FuncDecl)
  | vars (pos : Position) (v : VarDecl)

namespace Decl

def pos : Decl → Position
  | bad pos | func pos _ | vars pos _ => pos

def isBad : Decl → Bool
  | bad _ => true
  | _ => false

def func? : Decl → Option FuncDecl
  | func _ f => some f
  | _ => none

def vars? : Decl → Option VarDecl
  | vars _ v => some v
  | _ => none

end Decl

structure File where
  name : String
  decls : List Decl

namespace File

def funcs (file : File) : List FuncDecl := file.decls.filterMap Decl.func?

def badCount (file : File) : Nat := file.decls.countP Decl.isBad

end File

end MiniC
