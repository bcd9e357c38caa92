import MiniC.Proofs.Scope.Stack
import MiniC.Stmt.Check

/-!
Resolving the names of a file from its tree alone. The scopes that are open are
handed down the tree, and a declaration adds to those behind it. What is behind
a block sees none of the block's own variables, only that they were counted.
-/

namespace MiniC

abbrev Scopes := ScopeStack KnownFunction

/-- The expressions of a part of the tree, each with the scopes in which its
names are to be resolved, and the scopes behind the part. -/
structure Resolution where
  uses : List (Expr × Scopes)
  behind : Scopes

abbrev Resolver := Scopes → Resolution

namespace Resolver

def keep : Resolver := fun scopes => ⟨[], scopes⟩

def use (exprs : List Expr) : Resolver := fun scopes => ⟨exprs.map (·, scopes), scopes⟩

def andThen (first later : Resolver) : Resolver := fun scopes =>
  let before := first scopes
  let after := later before.behind
  ⟨before.uses ++ after.uses, after.behind⟩

/-- A part with a scope of its own. -/
def inBlock (inside : Resolver) : Resolver := fun scopes =>
  let body := inside scopes.openBlock
  ⟨body.uses, { scopes with count := body.behind.count }⟩

/-- The first declaration of a name in a scope is accepted. What initialises it
sees it. -/
def declare (name : String) (ty : Ty) (isConst : Bool) (init : List Expr) : Resolver :=
  fun scopes =>
    if scopes.isDeclaredHere name then ⟨[], scopes⟩
    else use init (scopes.declare name ty isConst)

end Resolver

open Resolver

/-- Among the global names, a function's is not free for a variable. -/
def VarDecl.resolveDeclarator (vars : VarDecl) (d : Declarator) : Resolver := fun scopes =>
  if scopes.outer.isEmpty && (scopes.funcs d.name.text).isSome then ⟨[], scopes⟩
  else declare d.name.text (vars.typeOf d) vars.isConst d.init.toList scopes

def VarDecl.resolve (vars : VarDecl) : List Declarator → Resolver
  | [] => keep
  | d :: rest => andThen (vars.resolveDeclarator d) (vars.resolve rest)

mutual

def Stmt.resolve : Stmt → Resolver
  | .bad _ | .empty _ | .decl _ none | .clause _ _ _ => keep
  | .decl _ (some vars) => vars.resolve vars.declarators
  | .simple s => use s.exprs
  | .ret _ value => use value.toList
  | .block _ body => inBlock (Stmt.resolveAll body)
  | .branch _ cond yes none => andThen (use [cond]) yes.resolve
  | .branch _ cond yes (some no) => andThen (use [cond]) (andThen yes.resolve no.resolve)
  | .whileLoop _ cond body => andThen (use [cond]) body.resolve
  | .forLoop _ init cond next body =>
    andThen (use (Simple.headerExprs init)) <| andThen (use (Simple.headerExprs cond)) <|
      andThen (use (Simple.headerExprs next)) body.resolve
  | .switch _ subject clauses => andThen (use [subject]) (Stmt.resolveClauses false clauses)
  | .scan _ target => use [target]
  | .print _ args => use args

def Stmt.resolveAll : List Stmt → Resolver
  | [] => keep
  | s :: rest => andThen s.resolve (Stmt.resolveAll rest)

/-- The clauses of a switch up to its second default. -/
def Stmt.resolveClauses (hasDefault : Bool) : List Stmt → Resolver
  | [] => keep
  | .clause _ (some label) body :: rest =>
    andThen (use [label]) (andThen (Stmt.resolveAll body) (Stmt.resolveClauses hasDefault rest))
  | .clause _ none body :: rest =>
    if hasDefault then keep
    else andThen (Stmt.resolveAll body) (Stmt.resolveClauses true rest)
  | _ :: rest => Stmt.resolveClauses hasDefault rest

end

/-- A parameter without a type is none. -/
def Param.resolve (param : Param) : Resolver :=
  if param.ty.isInvalid then keep else declare param.name.text param.ty false []

def Param.resolveAll : List Param → Resolver
  | [] => keep
  | param :: rest => andThen param.resolve (Param.resolveAll rest)

/-- A function whose name is taken is passed over. Its parameters and its body
share a scope. -/
def FuncDecl.resolve (f : FuncDecl) (number : Nat) : Resolver := fun scopes =>
  if (scopes.var? f.name.text).isSome || (scopes.funcs f.name.text).isSome then ⟨[], scopes⟩
  else
    inBlock (andThen (Param.resolveAll f.params.params) (Stmt.resolveAll f.body))
      (scopes.addFunc f.name.text ⟨number, f⟩)

def Decl.resolve (number : Nat) : Decl → Resolver
  | .bad _ => keep
  | .func _ f => f.resolve number
  | .vars _ v => v.resolve v.declarators

def File.resolveDecls : Nat → List Decl → Resolver
  | _, [] => keep
  | number, decl :: rest => andThen (decl.resolve number) (File.resolveDecls (number + 1) rest)

def File.resolve (file : File) : Resolution := File.resolveDecls 0 file.decls .start

/-- From `before` to `after` only the innermost scope has changed. -/
structure ScopeStack.SameAround (before after : Scopes) : Prop where
  outer : after.outer = before.outer
  funcs : after.funcs = before.funcs

theorem ScopeStack.SameAround.refl (scopes : Scopes) : scopes.SameAround scopes := ⟨rfl, rfl⟩

namespace Resolver

/-- Behind the part, the scopes around the innermost one are what they were. -/
def IsLocal (resolver : Resolver) : Prop :=
  ∀ scopes : Scopes, scopes.SameAround (resolver scopes).behind

variable {first later : Resolver}

theorem keep_isLocal : keep.IsLocal := ScopeStack.SameAround.refl

theorem use_isLocal (exprs : List Expr) : (use exprs).IsLocal := ScopeStack.SameAround.refl

theorem IsLocal.andThen (isFirst : first.IsLocal) (isLater : later.IsLocal) :
    (andThen first later).IsLocal := by
  intro scopes
  have before := isFirst scopes
  have after := isLater (first scopes).behind
  constructor
  · exact after.outer.trans before.outer
  · exact after.funcs.trans before.funcs

theorem inBlock_isLocal (inside : Resolver) : (inBlock inside).IsLocal := fun _ => ⟨rfl, rfl⟩

theorem declare_isLocal (name : String) (ty : Ty) (isConst : Bool) (init : List Expr) :
    (declare name ty isConst init).IsLocal := by
  intro scopes
  unfold declare
  split
  · exact .refl scopes
  · exact ⟨rfl, rfl⟩

end Resolver

theorem VarDecl.resolveDeclarator_isLocal (vars : VarDecl) (d : Declarator) :
    (vars.resolveDeclarator d).IsLocal := by
  intro scopes
  unfold resolveDeclarator
  split
  · exact .refl scopes
  · exact declare_isLocal _ _ _ _ scopes

theorem VarDecl.resolve_isLocal (vars : VarDecl) (list : List Declarator) :
    (vars.resolve list).IsLocal := by
  induction list with
  | nil => exact keep_isLocal
  | cons d rest ih => exact (vars.resolveDeclarator_isLocal d).andThen ih

theorem Param.resolve_isLocal (param : Param) : param.resolve.IsLocal := by
  unfold resolve
  split
  · exact keep_isLocal
  · exact declare_isLocal _ _ _ _

theorem Param.resolveAll_isLocal (params : List Param) : (Param.resolveAll params).IsLocal := by
  induction params with
  | nil => exact keep_isLocal
  | cons param rest ih => exact param.resolve_isLocal.andThen ih

namespace Stmt

mutual

theorem resolve_isLocal : (s : Stmt) → s.resolve.IsLocal
  | .bad _ | .empty _ | .decl _ none | .clause _ _ _ => keep_isLocal
  | .decl _ (some vars) => vars.resolve_isLocal vars.declarators
  | .simple s => use_isLocal s.exprs
  | .ret _ value => use_isLocal value.toList
  | .block _ body => inBlock_isLocal (resolveAll body)
  | .branch _ cond yes none => (use_isLocal [cond]).andThen (resolve_isLocal yes)
  | .branch _ cond yes (some no) =>
    (use_isLocal [cond]).andThen ((resolve_isLocal yes).andThen (resolve_isLocal no))
  | .whileLoop _ cond body => (use_isLocal [cond]).andThen (resolve_isLocal body)
  | .forLoop _ _ _ _ body =>
    (use_isLocal _).andThen <| (use_isLocal _).andThen <|
      (use_isLocal _).andThen (resolve_isLocal body)
  | .switch _ subject clauses =>
    (use_isLocal [subject]).andThen (resolveClauses_isLocal false clauses)
  | .scan _ target => use_isLocal [target]
  | .print _ args => use_isLocal args

theorem resolveAll_isLocal : (list : List Stmt) → (resolveAll list).IsLocal
  | [] => keep_isLocal
  | s :: rest => (resolve_isLocal s).andThen (resolveAll_isLocal rest)

theorem resolveClauses_isLocal (hasDefault : Bool) :
    (list : List Stmt) → (resolveClauses hasDefault list).IsLocal
  | [] => keep_isLocal
  | .clause _ (some label) body :: rest =>
    (use_isLocal [label]).andThen
      ((resolveAll_isLocal body).andThen (resolveClauses_isLocal hasDefault rest))
  | .clause _ none body :: rest => by
    cases hasDefault with
    | true => exact keep_isLocal
    | false => exact (resolveAll_isLocal body).andThen (resolveClauses_isLocal true rest)
  | .bad _ :: rest | .empty _ :: rest | .decl _ _ :: rest | .simple _ :: rest | .ret _ _ :: rest
  | .block _ _ :: rest | .branch _ _ _ _ :: rest | .switch _ _ _ :: rest
  | .forLoop _ _ _ _ _ :: rest | .whileLoop _ _ _ :: rest | .scan _ _ :: rest
  | .print _ _ :: rest => resolveClauses_isLocal hasDefault rest

end

end Stmt

end MiniC
