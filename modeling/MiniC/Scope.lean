import MiniC.Syntax

/-!
The variables and functions that are in scope. All variables of the open blocks
stand in one list, the latest first, each with the level of its block: the
first entry with a name is the visible one, and closing a block drops the
entries of its level. Functions form a table of their own that no block hides.
Ids count the variables entered and are never given again.

In the scope in which a file is checked, functions are known by their
declaration and by its number among the declarations of the file.
-/

namespace MiniC

structure Symbol where
  id : Nat
  name : String
  ty : Ty
  isConst : Bool
  /-- How many blocks lie around its block; 0 for a global variable. -/
  level : Nat
deriving DecidableEq

/-- A table whose functions are known by values of type `φ`. -/
structure SymbolTable (φ : Type) where
  /-- Latest first. -/
  symbols : List Symbol
  /-- Level of the innermost open block. -/
  level : Nat
  funcs : List (String × φ)
  nextId : Nat

namespace SymbolTable

variable {φ : Type}

def empty : SymbolTable φ := ⟨[], 0, [], 0⟩

/-- Open blocks, the global one included. -/
def depth (table : SymbolTable φ) : Nat := table.level + 1

def isGlobal (table : SymbolTable φ) : Bool := table.level == 0

def openBlock (table : SymbolTable φ) : SymbolTable φ :=
  { table with level := table.level + 1 }

/-- Closes the innermost block. The global block stays open. -/
def closeBlock (table : SymbolTable φ) : SymbolTable φ :=
  match table.level with
  | 0 => table
  | outer + 1 =>
    { table with
      symbols := table.symbols.filter (·.level ≤ outer)
      level := outer }

def var? (table : SymbolTable φ) (name : String) : Option Symbol :=
  table.symbols.find? (·.name == name)

def byId? (table : SymbolTable φ) (id : Nat) : Option Symbol :=
  table.symbols.find? (·.id == id)

def isDeclaredHere (table : SymbolTable φ) (name : String) : Bool :=
  table.symbols.any fun symbol => symbol.level == table.level && symbol.name == name

/-- Enters a variable into the innermost block, unless that block has its name
already. -/
def addVar (table : SymbolTable φ) (name : String) (ty : Ty) (isConst : Bool) :
    Option (Symbol × SymbolTable φ) :=
  if table.isDeclaredHere name then none
  else
    let symbol : Symbol := ⟨table.nextId, name, ty, isConst, table.level⟩
    some (symbol,
      { table with symbols := symbol :: table.symbols, nextId := table.nextId + 1 })

def func? (table : SymbolTable φ) (name : String) : Option φ := table.funcs.lookup name

/-- Enters a function, unless its name is a function already. -/
def addFunc (table : SymbolTable φ) (name : String) (func : φ) : Option (SymbolTable φ) :=
  match table.func? name with
  | some _ => none
  | none => some { table with funcs := (name, func) :: table.funcs }

/-- Variables of all open blocks, hidden ones included. -/
def visibleCount (table : SymbolTable φ) : Nat := table.symbols.length

end SymbolTable

structure KnownFunction where
  number : Nat
  decl : FuncDecl

abbrev Scope := SymbolTable KnownFunction

end MiniC
