import MiniC.Expr.Typing

/-!
Checking statements and files. A variable is in scope from its own initial value
on. A global variable may not take the name of a function.

A block has a scope of its own; the body of a function shares that of its
parameters, and clauses, branches and loop bodies open none. A switch stops
being checked at its second default.

The declarations of a file are taken in order; functions and global variables
share their names, and the first declaration of a name stands. A file has to
have a function `main`, unless a declaration was lost that might have been it.
-/

namespace MiniC

open Verdict (report)
open Visiting (visit)
open Walking (judge stray)

section Scopes

variable {v : Type → Type} [Monad v] [MonadLiftT Verdict v] [Visiting v]

/-- An initial value for a variable that is no array. -/
def checkScalarInit (scope : Scope) (declared : Ty) (init : Expr) : v Unit :=
  match init with
  | .composite pos items => visit [.composite pos items] do
    report pos (.compositeForScalar declared)
  | _ => do
    let found ← init.type scope
    if !found.isInvalid && found ≠ declared then
      report init.pos (.initMismatch found declared)

/-- An initial value for an array. -/
def checkArrayInit (scope : Scope) (declared : Ty) (init : Expr) : v Unit :=
  match init with
  | .composite pos items => do
    let found ← Expr.compositeType scope (.composite pos items)
    if !found.isInvalid && found ≠ declared then
      report pos (.compositeMismatch found declared)
  | _ => do
    init.check scope
    report init.pos (.plainForArray declared)

def checkInit (declared : Ty) (init : Expr) (scope : Scope) : v Unit :=
  if declared.isArray then checkArrayInit scope declared init
  else checkScalarInit scope declared init

/-- The expression that the subscripts behind it apply to. -/
def Expr.indexBase : Expr → Expr
  | .index _ base _ => base.indexBase
  | e => e

def isConstName (scope : Scope) (name : String) : Bool := (scope.var? name).any (·.isConst)

/-- A target that is a variable has to be writable as a whole. A name that is known is not
checked as an expression. -/
def checkTargetName (scope : Scope) (pos : Position) (name : String) : v Unit :=
  match scope.var? name with
  | none => Expr.check scope (.ident pos name)
  | some symbol => visit [.ident pos name] <|
    if symbol.isConst then report pos (.assignToConst name)
    else if symbol.ty.isArray then report pos (.assignToArray name)
    else pure ()

def checkTarget (scope : Scope) (target : Expr) : v Unit :=
  match target with
  | .ident pos name => checkTargetName scope pos name
  | .index _ _ _ => do
    let element ← target.type scope
    match target.indexBase with
    | .ident _ name =>
      if !element.isInvalid && isConstName scope name then
        report target.pos (.assignToConstElement name)
    | _ => pure ()
  | _ => do
    target.check scope
    report target.pos .assignToExpression

def Simple.check (scope : Scope) : Simple → v Unit
  | .expr _ e => e.check scope
  | .assign _ target value => do
    checkTarget scope target
    value.check scope

/-- The condition of a counting loop; only a comparison will do. -/
def Simple.checkCondition (scope : Scope) : Simple → v Unit
  | .expr _ e => e.checkCondition scope
  | .assign pos target value => do
    Simple.check scope (.assign pos target value)
    report pos .loopConditionNotRelational

def checkScan (target : Expr) (scope : Scope) : v Unit :=
  match target with
  | .ident pos name => do
    let found ← target.type scope
    if !found.isInvalid then
      if found.isArray then report pos (.scanIntoArray name)
      else if isConstName scope name then report pos (.scanIntoConst name)
  | _ => do
    target.check scope
    report target.pos .scanIntoExpression

/-- A printed argument, by its index among `count` of them. A format is not checked as an
expression. -/
def checkPrinted (scope : Scope) (count index : Nat) (arg : Expr) : v Unit :=
  match arg with
  | .lit pos .string text => visit [.lit pos .string text] do
    discard (Literal.check pos .string text)
    if index ≠ 0 then report pos .printStringLate
  | _ => do
    if index = 0 && count = 2 then report arg.pos .printWithoutFormat
    let found ← arg.type scope
    if !found.isInvalid && !found.isBasic then report arg.pos (.printValue found)

def checkPrintedFrom (scope : Scope) (count : Nat) : Nat → List Expr → v Unit
  | _, [] => pure ()
  | index, arg :: rest => do
    checkPrinted scope count index arg
    checkPrintedFrom scope count (index + 1) rest

/-- A format alone, a format and a value, or a value alone. -/
def checkPrint (pos : Position) (args : List Expr) (scope : Scope) : v Unit := do
  let count := args.length
  if count = 0 || 2 < count then report pos (.printArity count)
  checkPrintedFrom scope count 0 args

def checkSubject (subject : Expr) (scope : Scope) : v Ty := do
  let found ← subject.type scope
  if !found.isInvalid && !found.isBasic then report subject.pos (.switchSubject found)
  pure found

def checkLabel (subject : Ty) (label : Expr) (scope : Scope) : v Unit := do
  let found ← label.type scope
  if !found.isInvalid && subject.isBasic && found ≠ subject then
    report label.pos (.switchLabel found subject)

end Scopes

/-- What returns are checked against. -/
structure FunctionContext where
  name : String
  returns : Ty

namespace FunctionContext

variable (context : FunctionContext)

def checkReturned {v : Type → Type} [Monad v] [MonadLiftT Verdict v] [Visiting v] (value : Expr)
    (scope : Scope) : v Unit := do
  let found ← value.type scope
  if !found.isInvalid && !context.returns.isInvalid && found ≠ context.returns then
    report value.pos (.returnMismatch found context.returns)

def needsValue : Bool := context.returns ≠ .void && !context.returns.isInvalid

end FunctionContext

def Simple.exprs : Simple → List Expr
  | .expr _ e => [e]
  | .assign _ target value => [target, value]

def Simple.headerExprs (header : Option Simple) : List Expr := header.toList.flatMap Simple.exprs

section Statements

variable {m v : Type → Type} [Monad v] [MonadLiftT Verdict v] [Visiting v]
  [Monad m] [MonadLiftT Checker m] [Walking m v]

/-- What is left of a declarator when its name is entered, or is refused. -/
def VarDecl.checkEntered (vars : VarDecl) (declarator : Declarator) (isEntered : Bool) : m Unit :=
  if isEntered then
    match declarator.init with
    | some init => judge [init] (checkInit (vars.typeOf declarator) init)
    | none => pure ()
  else Checker.report declarator.name.pos (.redeclared declarator.name.text)

def VarDecl.checkDeclarator (vars : VarDecl) (declarator : Declarator) : m Unit := do
  let name := declarator.name.text
  let scope ← Checker.scope
  let isFunction := scope.isGlobal && (scope.func? name).isSome
  let isEntered ←
    if isFunction then pure false
    else Checker.declare name (vars.typeOf declarator) vars.isConst
  vars.checkEntered declarator isEntered

def VarDecl.checkAll (vars : VarDecl) : List Declarator → m Unit
  | [] => pure ()
  | declarator :: rest => do
    vars.checkDeclarator declarator
    vars.checkAll rest

def VarDecl.check (vars : VarDecl) : m Unit := vars.checkAll vars.declarators

/-- A part of a loop header, if it is there. -/
def checkHeader (look : Scope → Simple → v Unit) (header : Option Simple) : m Unit :=
  judge (Simple.headerExprs header) fun scope => header.forM (look scope)

namespace FunctionContext

variable (context : FunctionContext)

def checkReturn (pos : Position) : Option Expr → m Unit
  | some value =>
    if context.returns = .void then do
      judge [value] (value.check ·)
      Checker.report pos (.valueFromVoid context.name)
    else do
      judge [value] (context.checkReturned value)
      Checker.setReturnsValue true
  | none =>
    if context.needsValue then
      Checker.report pos (.returnWithoutValue context.name context.returns)
    else pure ()

mutual

def checkStmt : Stmt → m Unit
  | .bad _ | .empty _ | .decl _ none => pure ()
  | .decl _ (some vars) => vars.check
  | .simple s => judge s.exprs (s.check ·)
  | .ret pos value => context.checkReturn pos value
  | .block _ body => do
    Checker.openBlock
    checkStmts body
    Checker.closeBlock
  | .branch _ cond yes none => do
    judge [cond] (cond.checkCondition ·)
    checkStmt yes
  | .branch _ cond yes (some no) => do
    judge [cond] (cond.checkCondition ·)
    checkStmt yes
    checkStmt no
  | .whileLoop _ cond body => do
    judge [cond] (cond.checkCondition ·)
    checkStmt body
  | .forLoop _ init cond next body => do
    checkHeader Simple.check init
    checkHeader Simple.checkCondition cond
    checkHeader Simple.check next
    checkStmt body
  | .switch pos subject clauses => do
    let found ← judge [subject] (checkSubject subject)
    checkClauses pos found false clauses
  | .clause pos label body => stray (.clause pos label body)
  | .scan _ target => judge [target] (checkScan target)
  | .print pos args => judge args (checkPrint pos args)

def checkStmts : List Stmt → m Unit
  | [] => pure ()
  | s :: rest => do
    checkStmt s
    checkStmts rest

/-- The clauses of the switch at `pos`, given whether a default came before. -/
def checkClauses (pos : Position) (subject : Ty) (hasDefault : Bool) : List Stmt → m Unit
  | [] => if hasDefault then pure () else Checker.report pos .missingDefault
  | .clause _ (some label) body :: rest => do
    judge [label] (checkLabel subject label)
    checkStmts body
    checkClauses pos subject hasDefault rest
  | .clause clausePos none body :: rest =>
    if hasDefault then Checker.report clausePos .secondDefault
    else do
      checkStmts body
      checkClauses pos subject true rest
  | s :: rest => do
    stray s
    checkClauses pos subject hasDefault rest

end

end FunctionContext

/-- Enters the parameters of a function; those without a type are left out. -/
def declareParams : List Param → Checker Unit
  | [] => pure ()
  | param :: rest => do
    if !param.ty.isInvalid then
      if !(← Checker.declare param.name.text param.ty false) then
        Checker.report param.name.pos (.duplicateParameter param.name.text)
    declareParams rest

namespace FuncDecl

def context (f : FuncDecl) : FunctionContext := ⟨f.name.text, f.returns⟩

/-- The inside of a function, in a block that its parameters share. -/
def checkBody (f : FuncDecl) : m Unit := do
  Checker.openBlock
  declareParams f.params.params
  Checker.setReturnsValue false
  f.context.checkStmts f.body
  if f.context.needsValue && !(← Checker.returnsValue) then
    Checker.report f.name.pos (.neverReturns f.name.text f.returns)
  Checker.closeBlock

/-- The scope with the function in it, if its name is free. -/
def enter? (f : FuncDecl) (number : Nat) (scope : Scope) : Option Scope :=
  match scope.var? f.name.text with
  | some _ => none
  | none => scope.addFunc f.name.text ⟨number, f⟩

def check (f : FuncDecl) (number : Nat) : m Unit := do
  match f.enter? number (← Checker.scope) with
  | none => Checker.report f.name.pos (.redeclared f.name.text)
  | some scope =>
    Checker.setScope scope [.checkFunction f.name.text f.returns f.params.params.length]
    f.checkBody

/-- By what the scope makes of the name. -/
theorem run_check (f : FuncDecl) (number : Nat) (state : CheckState) :
    (f.check number).run state =
      Checker.run (match f.enter? number state.scope with
        | none => Checker.report f.name.pos (.redeclared f.name.text)
        | some scope =>
          Checker.setScope scope
            [.checkFunction f.name.text f.returns f.params.params.length] >>= fun _ => f.checkBody)
        state := rfl

end FuncDecl

def Decl.check (number : Nat) : Decl → m Unit
  | .bad _ => pure ()
  | .func _ f => f.check number
  | .vars _ v => v.check

namespace File

def checkDecls : Nat → List Decl → m Unit
  | _, [] => pure ()
  | number, decl :: rest => do
    decl.check number
    checkDecls (number + 1) rest

def checkMain (file : File) : Checker Unit := do
  let scope ← Checker.scope
  if (scope.func? "main").isNone && file.badCount = 0 then
    Checker.report .unknown (.missingMain file.name)

/-- Checks all of a file; leaves the scope of its global names. -/
def check (file : File) : m Scope := do
  checkDecls 0 file.decls
  file.checkMain
  Checker.scope

end File

end Statements

end MiniC
