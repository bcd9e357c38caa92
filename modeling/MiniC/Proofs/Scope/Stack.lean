import MiniC.Proofs.Scope.Visible

/-!
The scopes of a program as a stack of frames, one for each open block, and a
table of variables as a picture of such a stack: its list of entries is the
frames one behind the other, and the level of an entry is the number of frames
behind its own. Each operation on the table is pictured by the one on the stack.
-/

namespace MiniC

/-- The open blocks, at least one, each with the variables declared in it. -/
structure ScopeStack (φ : Type) where
  /-- Variables of the innermost block, latest first. -/
  inner : List Symbol
  /-- Those of the blocks around it, from the inside out. -/
  outer : List (List Symbol)
  funcs : String → Option φ
  /-- How many variables have been declared, those of closed blocks among them. -/
  count : Nat

namespace ScopeStack

variable {φ : Type}

def start : ScopeStack φ := ⟨[], [], fun _ => none, 0⟩

def frames (stack : ScopeStack φ) : List (List Symbol) := stack.inner :: stack.outer

def depth (stack : ScopeStack φ) : Nat := stack.frames.length

def named (frame : List Symbol) (name : String) : Option Symbol := frame.find? (·.name == name)

/-- The variable of the innermost block that has the name. -/
def var? (stack : ScopeStack φ) (name : String) : Option Symbol :=
  stack.frames.findSome? (named · name)

def isDeclaredHere (stack : ScopeStack φ) (name : String) : Bool := (named stack.inner name).isSome

def byId? (stack : ScopeStack φ) (id : Nat) : Option Symbol :=
  stack.frames.findSome? (·.find? (·.id == id))

def visibleCount (stack : ScopeStack φ) : Nat := stack.frames.flatten.length

def openBlock (stack : ScopeStack φ) : ScopeStack φ :=
  { stack with inner := [], outer := stack.frames }

def closeBlock (stack : ScopeStack φ) : ScopeStack φ :=
  match stack.outer with
  | [] => stack
  | frame :: rest => { stack with inner := frame, outer := rest }

theorem closeBlock_count (stack : ScopeStack φ) : stack.closeBlock.count = stack.count := by
  unfold closeBlock
  split <;> rfl

/-- The variable as the innermost block would hold it. -/
def fresh (stack : ScopeStack φ) (name : String) (ty : Ty) (isConst : Bool) : Symbol :=
  ⟨stack.count, name, ty, isConst, stack.outer.length⟩

@[simp]
theorem fresh_id (stack : ScopeStack φ) (name : String) (ty : Ty) (isConst : Bool) :
    (stack.fresh name ty isConst).id = stack.count := rfl

@[simp]
theorem fresh_name (stack : ScopeStack φ) (name : String) (ty : Ty) (isConst : Bool) :
    (stack.fresh name ty isConst).name = name := rfl

def declare (stack : ScopeStack φ) (name : String) (ty : Ty) (isConst : Bool) : ScopeStack φ :=
  { stack with inner := stack.fresh name ty isConst :: stack.inner, count := stack.count + 1 }

def addFunc (stack : ScopeStack φ) (name : String) (func : φ) : ScopeStack φ :=
  { stack with funcs := fun other => if other = name then some func else stack.funcs other }

end ScopeStack

/-- Every entry knows how many frames lie behind its own. -/
def AreLeveled : List (List Symbol) → Prop
  | [] => True
  | frame :: behind => (∀ symbol ∈ frame, symbol.level = behind.length) ∧ AreLeveled behind

theorem AreLeveled.level_lt {frames : List (List Symbol)} (leveled : AreLeveled frames) :
    ∀ symbol ∈ frames.flatten, symbol.level < frames.length := by
  induction frames with
  | nil => simp
  | cons frame behind ih =>
    intro symbol member
    rw [List.flatten_cons, List.mem_append] at member
    rw [List.length_cons]
    cases member with
    | inl here => exact Nat.lt_succ_of_le (Nat.le_of_eq (leveled.1 symbol here))
    | inr further => exact Nat.lt_succ_of_lt (ih leveled.2 symbol further)

namespace SymbolTable

variable {φ : Type} {table : SymbolTable φ} {stack : ScopeStack φ} {name : String}

/-- The table shows the stack. -/
structure Pictures (table : SymbolTable φ) (stack : ScopeStack φ) : Prop where
  symbols : table.symbols = stack.frames.flatten
  level : table.level = stack.outer.length
  leveled : AreLeveled stack.frames
  funcs : ∀ name, table.func? name = stack.funcs name
  nextId : table.nextId = stack.count

namespace Pictures

theorem start : (SymbolTable.empty : SymbolTable φ).Pictures .start :=
  ⟨rfl, rfl, ⟨nofun, trivial⟩, fun _ => rfl, rfl⟩

theorem var? (pictures : table.Pictures stack) (name : String) :
    table.var? name = stack.var? name := by
  unfold SymbolTable.var?
  rw [pictures.symbols, List.find?_flatten]
  rfl

theorem byId? (pictures : table.Pictures stack) (id : Nat) : table.byId? id = stack.byId? id := by
  unfold SymbolTable.byId?
  rw [pictures.symbols, List.find?_flatten]
  rfl

theorem visibleCount (pictures : table.Pictures stack) :
    table.visibleCount = stack.visibleCount := by
  unfold SymbolTable.visibleCount
  rw [pictures.symbols]
  rfl

theorem depth (pictures : table.Pictures stack) : table.depth = stack.depth := by
  unfold SymbolTable.depth
  rw [pictures.level]
  rfl

/-- Entries of the level of the innermost block are those of its frame. -/
theorem isDeclaredHere (pictures : table.Pictures stack) (name : String) :
    table.isDeclaredHere name = stack.isDeclaredHere name := by
  have here : (stack.inner.any fun symbol => symbol.level == table.level && symbol.name == name) =
      stack.isDeclaredHere name := by
    unfold ScopeStack.isDeclaredHere ScopeStack.named
    rw [List.isSome_find?, Bool.eq_iff_iff, List.any_eq_true, List.any_eq_true]
    apply exists_congr
    intro symbol
    apply and_congr_right
    intro member
    have own : symbol.level = stack.outer.length := pictures.leveled.1 symbol member
    simp [own, pictures.level]
  have further : (stack.outer.flatten.any fun symbol =>
      symbol.level == table.level && symbol.name == name) = false := by
    apply List.any_eq_false.mpr
    intro symbol member
    have outside := pictures.leveled.2.level_lt symbol member
    have differs : symbol.level ≠ table.level := by
      rw [pictures.level]
      exact Nat.ne_of_lt outside
    simp [differs]
  unfold SymbolTable.isDeclaredHere
  rw [pictures.symbols, ScopeStack.frames, List.flatten_cons, List.any_append, here, further,
    Bool.or_false]

theorem openBlock (pictures : table.Pictures stack) : table.openBlock.Pictures stack.openBlock where
  symbols := pictures.symbols
  level := congrArg Nat.succ pictures.level
  leveled := ⟨nofun, pictures.leveled⟩
  funcs := pictures.funcs
  nextId := pictures.nextId

/-- The entries that are left when a block is closed are the frames behind it. -/
theorem closeBlock (pictures : table.Pictures stack) :
    table.closeBlock.Pictures stack.closeBlock := by
  obtain ⟨inner, outer, funcs, count⟩ := stack
  cases outer with
  | nil =>
    have level : table.level = 0 := pictures.level
    unfold SymbolTable.closeBlock ScopeStack.closeBlock
    rw [level]
    exact pictures
  | cons frame rest =>
    have level : table.level = rest.length + 1 := pictures.level
    -- the level tells the frame that is closed from those behind it
    have gone : inner.filter (·.level ≤ rest.length) = [] := by
      apply List.filter_eq_nil_iff.mpr
      intro symbol member
      have own : symbol.level = rest.length + 1 := pictures.leveled.1 symbol member
      simp [own]
    have kept :
        (frame :: rest).flatten.filter (·.level ≤ rest.length) = (frame :: rest).flatten := by
      apply List.filter_eq_self.mpr
      intro symbol member
      have outside : symbol.level < rest.length + 1 := pictures.leveled.2.level_lt symbol member
      simpa using Nat.le_of_lt_succ outside
    have symbols : table.symbols.filter (·.level ≤ rest.length) = (frame :: rest).flatten := by
      rw [pictures.symbols]
      change (inner ++ (frame :: rest).flatten).filter _ = _
      rw [List.filter_append, gone, kept, List.nil_append]
    unfold SymbolTable.closeBlock ScopeStack.closeBlock
    rw [level]
    exact ⟨symbols, rfl, pictures.leveled.2, pictures.funcs, pictures.nextId⟩

theorem addVar_none (pictures : table.Pictures stack) {ty : Ty} {isConst : Bool}
    (isDeclared : stack.isDeclaredHere name = true) : table.addVar name ty isConst = none := by
  unfold addVar
  rw [pictures.isDeclaredHere, if_pos isDeclared]

theorem addVar_some (pictures : table.Pictures stack) (ty : Ty) (isConst : Bool)
    (isFree : stack.isDeclaredHere name = false) :
    ∃ next, table.addVar name ty isConst = some (stack.fresh name ty isConst, next) ∧
      next.Pictures (stack.declare name ty isConst) := by
  have symbol : (⟨table.nextId, name, ty, isConst, table.level⟩ : Symbol) =
      stack.fresh name ty isConst := by
    rw [pictures.nextId, pictures.level]
    rfl
  unfold addVar
  rw [pictures.isDeclaredHere, if_neg (by simp [isFree]), symbol]
  refine ⟨_, rfl, ?_⟩
  constructor
  · exact congrArg (stack.fresh name ty isConst :: ·) pictures.symbols
  · exact pictures.level
  · exact ⟨List.forall_mem_cons.mpr ⟨rfl, pictures.leveled.1⟩, pictures.leveled.2⟩
  · exact pictures.funcs
  · exact congrArg Nat.succ pictures.nextId

theorem addFunc_none (pictures : table.Pictures stack) (func : φ)
    (isKnown : (stack.funcs name).isSome = true) : table.addFunc name func = none := by
  obtain ⟨known, found⟩ := Option.isSome_iff_exists.mp isKnown
  unfold addFunc
  rw [pictures.funcs, found]

theorem addFunc_some (pictures : table.Pictures stack) (func : φ)
    (isFree : stack.funcs name = none) :
    ∃ next, table.addFunc name func = some next ∧ next.Pictures (stack.addFunc name func) := by
  unfold addFunc
  rw [pictures.funcs, isFree]
  refine ⟨_, rfl, ?_⟩
  constructor
  · exact pictures.symbols
  · exact pictures.level
  · exact pictures.leveled
  · intro other
    change List.lookup other ((name, func) :: table.funcs) = _
    rw [List.lookup_cons]
    unfold ScopeStack.addFunc
    by_cases same : other = name
    · simp [same]
    · have differs : (other == name) = false := by simpa using same
      simp only [differs, if_neg same]
      exact pictures.funcs other
  · exact pictures.nextId

end Pictures

end SymbolTable

end MiniC
