import MiniC.Proofs.Scope.Indexed

/-!
Histories of a table of variables. Whatever is done from the start on, in
whatever order, is answered as by a stack of frames. Ids count the variables
declared, so none is given twice; a variable is found by its id just as long as
its block is open; and a block that is closed leaves no trace of its variables.
-/

namespace MiniC

inductive Operation (φ : Type) where
  | openBlock
  | closeBlock
  | addVar (name : String) (ty : Ty) (isConst : Bool)
  | addFunc (name : String) (func : φ)
  | var? (name : String)
  | byId? (id : Nat)
  | func? (name : String)
  | isDeclaredHere (name : String)
  | visibleCount
  | depth

inductive Answer (φ : Type) where
  | done
  /-- The id of a variable that was entered. -/
  | entered (id : Option Nat)
  | symbol (found : Option Symbol)
  | func (found : Option φ)
  | flag (holds : Bool)
  | number (n : Nat)
deriving DecidableEq

namespace Operation

variable {φ σ : Type}

/-- The answers to operations done one after the other, and the state they
leave. -/
def run (perform : σ → Operation φ → Answer φ × σ) : σ → List (Operation φ) → List (Answer φ) × σ
  | state, [] => ([], state)
  | state, op :: rest =>
    let first := perform state op
    let later := run perform first.2 rest
    (first.1 :: later.1, later.2)

/-- How many blocks are left open of those that were opened, `opened` of them
before the operations; none if a block is closed that was open before. -/
def blocksLeft : Nat → List (Operation φ) → Option Nat
  | opened, [] => some opened
  | opened, .openBlock :: rest => blocksLeft (opened + 1) rest
  | 0, .closeBlock :: _ => none
  | opened + 1, .closeBlock :: rest => blocksLeft opened rest
  | opened, _ :: rest => blocksLeft opened rest

/-- What is left of the operations where `blocksLeft` comes to its last case. -/
theorem ne_closeBlock {opened : Nat} {op : Operation φ}
    (outer : opened = 0 → op = .closeBlock → False)
    (inner : ∀ fewer, opened = fewer + 1 → op = .closeBlock → False) : op ≠ .closeBlock := by
  cases opened with
  | zero => exact outer rfl
  | succ fewer => exact inner fewer rfl

/-- States that are related answer alike as long as every operation keeps them
related. -/
theorem run_refines {τ : Type} {perform : σ → Operation φ → Answer φ × σ}
    {other : τ → Operation φ → Answer φ × τ} {Related : σ → τ → Prop}
    (step : ∀ left right op, Related left right →
      (perform left op).1 = (other right op).1 ∧ Related (perform left op).2 (other right op).2)
    {left : σ} {right : τ} (related : Related left right) (ops : List (Operation φ)) :
    (run perform left ops).1 = (run other right ops).1 ∧
      Related (run perform left ops).2 (run other right ops).2 := by
  induction ops generalizing left right with
  | nil => exact ⟨rfl, related⟩
  | cons op rest ih =>
    obtain ⟨sameAnswer, next⟩ := step left right op related
    obtain ⟨sameAnswers, last⟩ := ih next
    exact ⟨List.cons_eq_cons.mpr ⟨sameAnswer, sameAnswers⟩, last⟩

theorem run_append (perform : σ → Operation φ → Answer φ × σ) (state : σ)
    (sooner later : List (Operation φ)) :
    (run perform state (sooner ++ later)).2 =
      (run perform (run perform state sooner).2 later).2 := by
  induction sooner generalizing state with
  | nil => rfl
  | cons op rest ih => exact ih (perform state op).2

end Operation

def Answer.id? {φ : Type} : Answer φ → Option Nat
  | .entered id => id
  | _ => none

def SymbolTable.perform {φ : Type} (table : SymbolTable φ) :
    Operation φ → Answer φ × SymbolTable φ
  | .openBlock => (.done, table.openBlock)
  | .closeBlock => (.done, table.closeBlock)
  | .addVar name ty isConst =>
    match table.addVar name ty isConst with
    | none => (.entered none, table)
    | some (symbol, next) => (.entered (some symbol.id), next)
  | .addFunc name func =>
    match table.addFunc name func with
    | none => (.flag false, table)
    | some next => (.flag true, next)
  | .var? name => (.symbol (table.var? name), table)
  | .byId? id => (.symbol (table.byId? id), table)
  | .func? name => (.func (table.func? name), table)
  | .isDeclaredHere name => (.flag (table.isDeclaredHere name), table)
  | .visibleCount => (.number table.visibleCount, table)
  | .depth => (.number table.depth, table)

def IndexedTable.perform {φ : Type} (table : IndexedTable φ) :
    Operation φ → Answer φ × IndexedTable φ
  | .openBlock => (.done, table.openBlock)
  | .closeBlock => (.done, table.closeBlock)
  | .addVar name ty isConst =>
    match table.addVar name ty isConst with
    | none => (.entered none, table)
    | some (id, next) => (.entered (some id), next)
  | .addFunc name func =>
    match table.addFunc name func with
    | none => (.flag false, table)
    | some next => (.flag true, next)
  | .var? name => (.symbol (table.var? name), table)
  | .byId? id => (.symbol (table.byId? id), table)
  | .func? name => (.func (table.func? name), table)
  | .isDeclaredHere name => (.flag (table.isDeclaredHere name), table)
  | .visibleCount => (.number table.visibleCount, table)
  | .depth => (.number table.depth, table)

def ScopeStack.perform {φ : Type} (stack : ScopeStack φ) : Operation φ → Answer φ × ScopeStack φ
  | .openBlock => (.done, stack.openBlock)
  | .closeBlock => (.done, stack.closeBlock)
  | .addVar name ty isConst =>
    if stack.isDeclaredHere name then (.entered none, stack)
    else (.entered (some stack.count), stack.declare name ty isConst)
  | .addFunc name func =>
    if (stack.funcs name).isSome then (.flag false, stack)
    else (.flag true, stack.addFunc name func)
  | .var? name => (.symbol (stack.var? name), stack)
  | .byId? id => (.symbol (stack.byId? id), stack)
  | .func? name => (.func (stack.funcs name), stack)
  | .isDeclaredHere name => (.flag (stack.isDeclaredHere name), stack)
  | .visibleCount => (.number stack.visibleCount, stack)
  | .depth => (.number stack.depth, stack)

namespace SymbolTable

open Operation

variable {φ : Type} {table : SymbolTable φ} {stack : ScopeStack φ}

theorem Pictures.perform (pictures : table.Pictures stack) (op : Operation φ) :
    (table.perform op).1 = (stack.perform op).1 ∧
      (table.perform op).2.Pictures (stack.perform op).2 := by
  cases op with
  | openBlock => exact ⟨rfl, pictures.openBlock⟩
  | closeBlock => exact ⟨rfl, pictures.closeBlock⟩
  | addVar name ty isConst =>
    by_cases isDeclared : stack.isDeclaredHere name = true
    · simp only [SymbolTable.perform, ScopeStack.perform, pictures.addVar_none isDeclared,
        if_pos isDeclared]
      exact ⟨trivial, pictures⟩
    · obtain ⟨next, added, later⟩ :=
        pictures.addVar_some ty isConst (Bool.eq_false_iff.mpr isDeclared)
      simp only [SymbolTable.perform, ScopeStack.perform, added, if_neg isDeclared]
      exact ⟨rfl, later⟩
  | addFunc name func =>
    by_cases isKnown : (stack.funcs name).isSome = true
    · simp only [SymbolTable.perform, ScopeStack.perform, pictures.addFunc_none func isKnown,
        if_pos isKnown]
      exact ⟨trivial, pictures⟩
    · obtain ⟨next, added, later⟩ :=
        pictures.addFunc_some func (Option.not_isSome_iff_eq_none.mp isKnown)
      simp only [SymbolTable.perform, ScopeStack.perform, added, if_neg isKnown]
      exact ⟨trivial, later⟩
  | var? name => exact ⟨congrArg Answer.symbol (pictures.var? name), pictures⟩
  | byId? id => exact ⟨congrArg Answer.symbol (pictures.byId? id), pictures⟩
  | func? name => exact ⟨congrArg Answer.func (pictures.funcs name), pictures⟩
  | isDeclaredHere name => exact ⟨congrArg Answer.flag (pictures.isDeclaredHere name), pictures⟩
  | visibleCount => exact ⟨congrArg Answer.number pictures.visibleCount, pictures⟩
  | depth => exact ⟨congrArg Answer.number pictures.depth, pictures⟩

theorem Pictures.run (pictures : table.Pictures stack) (ops : List (Operation φ)) :
    (run SymbolTable.perform table ops).1 = (run ScopeStack.perform stack ops).1 ∧
      (run SymbolTable.perform table ops).2.Pictures (run ScopeStack.perform stack ops).2 :=
  run_refines (fun _ _ op pictures => pictures.perform op) pictures ops

end SymbolTable

theorem ScopeStack.IsSound.perform {φ : Type} {stack : ScopeStack φ} (sound : stack.IsSound)
    (op : Operation φ) : (stack.perform op).2.IsSound := by
  cases op with
  | openBlock => exact sound.openBlock
  | closeBlock => exact sound.closeBlock
  | addVar name ty isConst =>
    by_cases isDeclared : stack.isDeclaredHere name = true
    · simp only [ScopeStack.perform, if_pos isDeclared]
      exact sound
    · simp only [ScopeStack.perform, if_neg isDeclared]
      exact sound.declare (Bool.eq_false_iff.mpr isDeclared) ty isConst
  | addFunc name func =>
    by_cases isKnown : (stack.funcs name).isSome = true
    · simp only [ScopeStack.perform, if_pos isKnown]
      exact sound
    · simp only [ScopeStack.perform, if_neg isKnown]
      exact ⟨sound.names, sound.ids, sound.bound⟩
  | _ => exact sound

namespace IndexedTable

open Operation

variable {φ : Type} {table : IndexedTable φ} {stack : ScopeStack φ}

theorem Indexes.perform (indexes : table.Indexes stack) (sound : stack.IsSound)
    (op : Operation φ) :
    (table.perform op).1 = (stack.perform op).1 ∧
      (table.perform op).2.Indexes (stack.perform op).2 := by
  cases op with
  | openBlock => exact ⟨rfl, indexes.openBlock⟩
  | closeBlock => exact ⟨rfl, indexes.closeBlock sound⟩
  | addVar name ty isConst =>
    by_cases isDeclared : stack.isDeclaredHere name = true
    · simp only [IndexedTable.perform, ScopeStack.perform, indexes.addVar_none isDeclared,
        if_pos isDeclared]
      exact ⟨trivial, indexes⟩
    · obtain ⟨next, added, later⟩ :=
        indexes.addVar_some ty isConst (Bool.eq_false_iff.mpr isDeclared)
      simp only [IndexedTable.perform, ScopeStack.perform, added, if_neg isDeclared]
      exact ⟨trivial, later⟩
  | addFunc name func =>
    by_cases isKnown : (stack.funcs name).isSome = true
    · simp only [IndexedTable.perform, ScopeStack.perform, indexes.addFunc_none func isKnown,
        if_pos isKnown]
      exact ⟨trivial, indexes⟩
    · obtain ⟨next, added, later⟩ :=
        indexes.addFunc_some func (Option.not_isSome_iff_eq_none.mp isKnown)
      simp only [IndexedTable.perform, ScopeStack.perform, added, if_neg isKnown]
      exact ⟨trivial, later⟩
  | var? name => exact ⟨congrArg Answer.symbol (indexes.var? sound name), indexes⟩
  | byId? id => exact ⟨congrArg Answer.symbol (indexes.symbols id), indexes⟩
  | func? name => exact ⟨congrArg Answer.func (indexes.funcs name), indexes⟩
  | isDeclaredHere name => exact ⟨congrArg Answer.flag (indexes.isDeclaredHere name), indexes⟩
  | visibleCount => exact ⟨congrArg Answer.number (indexes.visibleCount sound), indexes⟩
  | depth => exact ⟨congrArg Answer.number indexes.depth, indexes⟩

/-- That the stack is sound has to be kept along with what the maps say of it. -/
theorem Indexes.run (indexes : table.Indexes stack) (sound : stack.IsSound)
    (ops : List (Operation φ)) :
    (run IndexedTable.perform table ops).1 = (run ScopeStack.perform stack ops).1 ∧
      (run IndexedTable.perform table ops).2.Indexes (run ScopeStack.perform stack ops).2 := by
  have step (table : IndexedTable φ) (stack : ScopeStack φ) (op : Operation φ)
      (both : table.Indexes stack ∧ stack.IsSound) :
      (table.perform op).1 = (stack.perform op).1 ∧
        (table.perform op).2.Indexes (stack.perform op).2 ∧ (stack.perform op).2.IsSound := by
    obtain ⟨indexes, sound⟩ := both
    obtain ⟨sameAnswer, next⟩ := indexes.perform sound op
    exact ⟨sameAnswer, next, sound.perform op⟩
  obtain ⟨sameAnswers, last, _⟩ := run_refines step ⟨indexes, sound⟩ ops
  exact ⟨sameAnswers, last⟩

end IndexedTable

namespace ScopeStack

open Operation

variable {φ : Type}

/-- Variables are numbered in the order in which they are declared. -/
theorem issued_run (stack : ScopeStack φ) (ops : List (Operation φ)) :
    ∃ n, (run perform stack ops).1.filterMap Answer.id? = List.range' stack.count n ∧
      (run perform stack ops).2.count = stack.count + n := by
  induction ops generalizing stack with
  | nil => exact ⟨0, rfl, rfl⟩
  | cons op rest ih =>
    obtain ⟨n, later, count⟩ := ih (stack.perform op).2
    -- an operation that enters no variable gives no id and leaves the count
    have still (noId : (stack.perform op).1.id? = none)
        (same : (stack.perform op).2.count = stack.count) :
        ∃ n, (run perform stack (op :: rest)).1.filterMap Answer.id? = List.range' stack.count n ∧
          (run perform stack (op :: rest)).2.count = stack.count + n := by
      rw [same] at later count
      exact ⟨n, (List.filterMap_cons_none noId).trans later, count⟩
    cases op with
    | addVar name ty isConst =>
      by_cases isDeclared : stack.isDeclaredHere name = true
      · apply still <;> simp only [perform, if_pos isDeclared, Answer.id?]
      · have answer : (stack.perform (.addVar name ty isConst)).1.id? = some stack.count := by
          simp only [perform, if_neg isDeclared, Answer.id?]
        have next : (stack.perform (.addVar name ty isConst)).2.count = stack.count + 1 := by
          simp only [perform, if_neg isDeclared, declare]
        rw [next] at later count
        refine ⟨n + 1, ?_, ?_⟩
        · rw [List.range'_succ, ← later]
          exact List.filterMap_cons_some answer
        · rw [← Nat.add_assoc, Nat.add_right_comm]
          exact count
    | addFunc name func =>
      by_cases isKnown : (stack.funcs name).isSome = true
      · apply still <;> simp only [perform, if_pos isKnown, Answer.id?]
      · apply still <;> simp only [perform, if_neg isKnown, Answer.id?, addFunc]
    | closeBlock => exact still rfl (closeBlock_count stack)
    | _ => exact still rfl rfl

end ScopeStack

namespace SymbolTable

open Operation

variable {φ : Type} {table : SymbolTable φ}

theorem closeBlock_of_global (global : table.level = 0) : table.closeBlock = table := by
  unfold closeBlock
  rw [global]

theorem closeBlock_of_inner {outer : Nat} (level : table.level = outer + 1) :
    table.closeBlock =
      { table with symbols := table.symbols.filter (·.level ≤ outer), level := outer } := by
  unfold closeBlock
  rw [level]

theorem closeBlock_nextId (table : SymbolTable φ) : table.closeBlock.nextId = table.nextId := by
  unfold closeBlock
  split <;> rfl

theorem closeBlock_sublist : table.closeBlock.symbols.Sublist table.symbols := by
  unfold closeBlock
  split
  · exact List.Sublist.refl _
  · exact List.filter_sublist

/-- An operation that closes no block keeps all entries. What it adds belongs to
the innermost block and has the next id. -/
theorem perform_adds (table : SymbolTable φ) (op : Operation φ) (closes : op ≠ .closeBlock) :
    (table.perform op).2.symbols = table.symbols ∧ (table.perform op).2.nextId = table.nextId ∨
      ∃ symbol : Symbol, symbol.level = table.level ∧ symbol.id = table.nextId ∧
        (table.perform op).2.symbols = symbol :: table.symbols ∧
          (table.perform op).2.nextId = table.nextId + 1 := by
  cases op with
  | closeBlock => exact absurd rfl closes
  | addVar name ty isConst =>
    unfold perform addVar
    by_cases isDeclared : table.isDeclaredHere name = true
    · simp only [if_pos isDeclared]
      exact .inl ⟨trivial, trivial⟩
    · simp only [if_neg isDeclared]
      exact .inr ⟨_, rfl, rfl, rfl, trivial⟩
  | addFunc name func => cases known : table.func? name <;> simp [perform, addFunc, known]
  | _ => exact .inl ⟨rfl, rfl⟩

theorem perform_level (op : Operation φ) (opens : op ≠ .openBlock) (closes : op ≠ .closeBlock) :
    (table.perform op).2.level = table.level := by
  cases op with
  | openBlock => exact absurd rfl opens
  | closeBlock => exact absurd rfl closes
  | addVar name ty isConst =>
    by_cases isDeclared : table.isDeclaredHere name = true <;> simp [perform, addVar, isDeclared]
  | addFunc name func => cases known : table.func? name <;> simp [perform, addFunc, known]
  | _ => rfl

/-- No two entries have one id, and the next id is larger than all. -/
structure HasFreshIds (table : SymbolTable φ) : Prop where
  bound : ∀ symbol ∈ table.symbols, symbol.id < table.nextId
  distinct : (table.symbols.map Symbol.id).Nodup

namespace HasFreshIds

theorem empty : (SymbolTable.empty : SymbolTable φ).HasFreshIds := ⟨nofun, List.nodup_nil⟩

theorem closeBlock (fresh : table.HasFreshIds) : table.closeBlock.HasFreshIds where
  bound symbol member := by
    rw [closeBlock_nextId]
    exact fresh.bound symbol (closeBlock_sublist.subset member)
  distinct := fresh.distinct.sublist (closeBlock_sublist.map Symbol.id)

theorem perform (fresh : table.HasFreshIds) (op : Operation φ) :
    (table.perform op).2.HasFreshIds := by
  by_cases closes : op = .closeBlock
  · subst closes
    exact fresh.closeBlock
  rcases perform_adds table op closes with
    ⟨symbols, nextId⟩ | ⟨symbol, _, id, symbols, nextId⟩
  · constructor
    · rw [symbols, nextId]
      exact fresh.bound
    · rw [symbols]
      exact fresh.distinct
  · constructor
    · rw [symbols, nextId, List.forall_mem_cons]
      constructor
      · omega
      · exact fun other member => Nat.lt_succ_of_lt (fresh.bound other member)
    · rw [symbols, List.map_cons, List.nodup_cons, id]
      constructor
      · intro taken
        obtain ⟨other, member, same⟩ := List.mem_map.mp taken
        have smaller := fresh.bound other member
        omega
      · exact fresh.distinct

theorem run (fresh : table.HasFreshIds) (ops : List (Operation φ)) :
    (run SymbolTable.perform table ops).2.HasFreshIds := by
  induction ops generalizing table with
  | nil => exact fresh
  | cons op rest ih => exact ih (fresh.perform op)

/-- An id belongs to one entry. -/
theorem eq_of_id_eq (fresh : table.HasFreshIds) {left right : Symbol}
    (isLeft : left ∈ table.symbols) (isRight : right ∈ table.symbols) (same : left.id = right.id) :
    left = right :=
  List.inj_on_of_nodup_map fresh.distinct isLeft isRight same

theorem byId?_of_mem (fresh : table.HasFreshIds) {symbol : Symbol}
    (member : symbol ∈ table.symbols) : table.byId? symbol.id = some symbol := by
  have present : (table.byId? symbol.id).isSome = true := by
    apply List.isSome_find?.trans
    exact List.any_eq_true.mpr ⟨symbol, member, beq_self_eq_true _⟩
  obtain ⟨found, isFound⟩ := Option.isSome_iff_exists.mp present
  have sameId : found.id = symbol.id := by simpa using List.find?_some isFound
  rw [isFound, fresh.eq_of_id_eq (List.mem_of_find?_eq_some isFound) member sameId]

end HasFreshIds

section Blocks

variable {symbol : Symbol} {level : Nat}

/-- An id that is out of use stays so. -/
theorem byId?_run_of_unused {id : Nat} (ops : List (Operation φ)) (issued : id < table.nextId)
    (unused : ∀ symbol ∈ table.symbols, symbol.id ≠ id) :
    (run perform table ops).2.byId? id = none := by
  induction ops generalizing table with
  | nil =>
    apply List.find?_eq_none.mpr
    intro symbol member
    simpa using unused symbol member
  | cons op rest ih =>
    by_cases closes : op = .closeBlock
    · subst closes
      apply ih
      · exact closeBlock_nextId table ▸ issued
      · exact fun symbol member => unused symbol (closeBlock_sublist.subset member)
    rcases perform_adds table op closes with
      ⟨symbols, nextId⟩ | ⟨symbol, _, next, symbols, nextId⟩
    · apply ih
      · rwa [nextId]
      · rwa [symbols]
    · apply ih
      · omega
      · rw [symbols, List.forall_mem_cons]
        exact ⟨by omega, unused⟩

theorem mem_perform (op : Operation φ) (closes : op ≠ .closeBlock)
    (member : symbol ∈ table.symbols) : symbol ∈ (table.perform op).2.symbols := by
  rcases perform_adds table op closes with ⟨symbols, _⟩ | ⟨other, _, _, symbols, _⟩
  · rwa [symbols]
  · rw [symbols]
    exact List.mem_cons_of_mem other member

/-- A global variable is never lost. -/
theorem mem_run_of_global (ops : List (Operation φ)) (member : symbol ∈ table.symbols)
    (global : symbol.level = 0) : symbol ∈ (run perform table ops).2.symbols := by
  induction ops generalizing table with
  | nil => exact member
  | cons op rest ih =>
    apply ih
    by_cases closes : op = .closeBlock
    · subst closes
      change symbol ∈ table.closeBlock.symbols
      cases level : table.level with
      | zero => rwa [closeBlock_of_global level]
      | succ outer =>
        rw [closeBlock_of_inner level]
        exact List.mem_filter.mpr ⟨member, by simp [global]⟩
    · exact mem_perform op closes member

/-- As long as its block is open, a variable is kept. -/
theorem mem_run_of_open {opened : Nat} {ops : List (Operation φ)} (member : symbol ∈ table.symbols)
    (level : table.level = symbol.level + opened) (isOpen : (blocksLeft opened ops).isSome = true) :
    symbol ∈ (run perform table ops).2.symbols := by
  fun_induction blocksLeft opened ops generalizing table with
  | case1 opened => exact member
  | case2 opened rest ih => exact ih member (congrArg Nat.succ level) isOpen
  | case3 rest => cases isOpen
  | case4 opened rest ih =>
    have closed : (table.perform .closeBlock).2 = _ := closeBlock_of_inner level
    apply ih _ _ isOpen
    · rw [closed]
      exact List.mem_filter.mpr ⟨member, by simp⟩
    · rw [closed]
      rfl
  | case5 opened op rest opens closesOuter closesInner ih =>
    have closes := ne_closeBlock closesOuter closesInner
    exact ih (mem_perform op closes member) ((perform_level op opens closes).trans level) isOpen

/-- Once its block is closed, a variable is gone for good. -/
theorem byId?_run_of_closed {opened : Nat} {ops : List (Operation φ)} (fresh : table.HasFreshIds)
    (member : symbol ∈ table.symbols) (level : table.level = symbol.level + opened)
    (inner : symbol.level ≠ 0) (closed : blocksLeft opened ops = none) :
    (run perform table ops).2.byId? symbol.id = none := by
  fun_induction blocksLeft opened ops generalizing table with
  | case1 opened => cases closed
  | case2 opened rest ih =>
    exact ih (fresh.perform .openBlock) member (congrArg Nat.succ level) closed
  | case3 rest =>
    -- this closes the block of the variable
    obtain ⟨outer, own⟩ := Nat.exists_eq_succ_of_ne_zero inner
    have left : (table.perform .closeBlock).2 = _ := closeBlock_of_inner (level.trans own)
    change (run perform (table.perform .closeBlock).2 rest).2.byId? symbol.id = none
    apply byId?_run_of_unused
    · rw [left]
      exact fresh.bound symbol member
    · intro other isLeft same
      rw [left] at isLeft
      obtain ⟨isOther, below⟩ := List.mem_filter.mp isLeft
      rw [fresh.eq_of_id_eq isOther member same, own, decide_eq_true_eq] at below
      exact Nat.not_succ_le_self outer below
  | case4 opened rest ih =>
    have left : (table.perform .closeBlock).2 = _ := closeBlock_of_inner level
    apply ih (fresh.perform .closeBlock) _ _ closed
    · rw [left]
      exact List.mem_filter.mpr ⟨member, by simp⟩
    · rw [left]
      rfl
  | case5 opened op rest opens closesOuter closesInner ih =>
    have closes := ne_closeBlock closesOuter closesInner
    apply ih (fresh.perform op) (mem_perform op closes member) _ closed
    exact (perform_level op opens closes).trans level

/-- Whatever is done inside a block, the entries of the levels around it stay. -/
theorem filter_run_of_blocksLeft {opened : Nat} {ops : List (Operation φ)}
    (inside : table.level = level + 1 + opened) (balanced : blocksLeft opened ops = some 0) :
    (run perform table ops).2.level = level + 1 ∧
      (run perform table ops).2.symbols.filter (·.level ≤ level) =
        table.symbols.filter (·.level ≤ level) := by
  fun_induction blocksLeft opened ops generalizing table with
  | case1 opened =>
    cases balanced
    exact ⟨inside, rfl⟩
  | case2 opened rest ih => exact ih (congrArg Nat.succ inside) balanced
  | case3 rest => cases balanced
  | case4 opened rest ih =>
    -- closing an inner block takes only entries of its own level
    have left : (table.perform .closeBlock).2 = _ := closeBlock_of_inner inside
    obtain ⟨same, kept⟩ := ih (congrArg SymbolTable.level left) balanced
    apply And.intro same
    apply kept.trans
    rw [left, List.filter_filter]
    apply List.filter_congr
    intro symbol _
    simp only [← Bool.decide_and]
    apply decide_eq_decide.mpr
    constructor
    · exact And.left
    · intro outside
      exact ⟨outside, Nat.le_trans (Nat.le_succ_of_le outside) (Nat.le_add_right _ _)⟩
  | case5 opened op rest opens closesOuter closesInner ih =>
    have closes := ne_closeBlock closesOuter closesInner
    obtain ⟨same, kept⟩ := ih ((perform_level op opens closes).trans inside) balanced
    apply And.intro same
    apply kept.trans
    -- what is entered is entered on the level of the block, above those around it
    rcases perform_adds table op closes with ⟨symbols, _⟩ | ⟨symbol, own, _, symbols, _⟩
    · rw [symbols]
    · rw [symbols]
      apply List.filter_cons_of_neg
      rw [own]
      simp only [decide_eq_true_eq]
      omega

end Blocks

/-- A block that was opened and closed again, with whatever was done in it,
leaves the variables and the level as they were. -/
theorem run_block (below : ∀ symbol ∈ table.symbols, symbol.level ≤ table.level)
    {inner : List (Operation φ)} (balanced : blocksLeft 0 inner = some 0) :
    (run perform table (.openBlock :: (inner ++ [.closeBlock]))).2.symbols = table.symbols ∧
      (run perform table (.openBlock :: (inner ++ [.closeBlock]))).2.level = table.level := by
  have inside : table.openBlock.level = table.level + 1 + 0 := rfl
  obtain ⟨level, kept⟩ := filter_run_of_blocksLeft inside balanced
  have closed : (run perform table (.openBlock :: (inner ++ [.closeBlock]))).2 =
      (run perform table.openBlock inner).2.closeBlock :=
    run_append perform table.openBlock inner [.closeBlock]
  rw [closed, closeBlock_of_inner level]
  constructor
  · apply kept.trans
    apply List.filter_eq_self.mpr
    intro symbol member
    exact decide_eq_true (below symbol member)
  · rfl

/-- A variable that was entered is found by its id just as long as its block is
open: a global one for ever, another one until more blocks are closed than were
opened after it. -/
theorem byId?_run (fresh : table.HasFreshIds) {name : String} {ty : Ty} {isConst : Bool}
    {symbol : Symbol} {next : SymbolTable φ}
    (added : table.addVar name ty isConst = some (symbol, next)) (later : List (Operation φ)) :
    (run perform next later).2.byId? symbol.id =
      if symbol.level = 0 ∨ (blocksLeft 0 later).isSome = true then some symbol else none := by
  have entered : (table.perform (.addVar name ty isConst)).2 = next := by
    simp only [perform, added]
  have nextFresh : next.HasFreshIds := entered ▸ fresh.perform (.addVar name ty isConst)
  obtain ⟨member, level⟩ : symbol ∈ next.symbols ∧ next.level = symbol.level + 0 := by
    unfold addVar at added
    by_cases isDeclared : table.isDeclaredHere name = true
    · simp [isDeclared] at added
    · rw [if_neg isDeclared, Option.some.injEq, Prod.mk.injEq] at added
      obtain ⟨rfl, rfl⟩ := added
      exact ⟨List.mem_cons_self, rfl⟩
  -- the global block is never closed, so its variables need no count of blocks
  by_cases global : symbol.level = 0
  · rw [if_pos (.inl global)]
    exact (nextFresh.run later).byId?_of_mem (mem_run_of_global later member global)
  by_cases isOpen : (blocksLeft 0 later).isSome = true
  · rw [if_pos (.inr isOpen)]
    exact (nextFresh.run later).byId?_of_mem (mem_run_of_open member level isOpen)
  · have isClosed := Option.not_isSome_iff_eq_none.mp isOpen
    rw [if_neg (not_or.mpr ⟨global, isOpen⟩)]
    exact byId?_run_of_closed nextFresh member level global isClosed

end SymbolTable

open Operation in
/-- A table refines a stack of frames, whatever is done with it: all answers are
those of the stack, and the table shows the stack in the end. So are the answers
of a table kept in maps, which agree in the end on the stack. Ids are given in
order and never again; the variables that a block hid are back when it is
closed; and a variable is found by its id just as long as its block is open. -/
theorem table_refines_stack {φ : Type} (ops : List (Operation φ)) :
    let answers := (run SymbolTable.perform .empty ops).1
    let table := (run SymbolTable.perform .empty ops).2
    let stack := (run ScopeStack.perform .start ops).2
    let maps := (run IndexedTable.perform .empty ops).2
    answers = (run ScopeStack.perform .start ops).1 ∧ table.Pictures stack ∧
      (run IndexedTable.perform .empty ops).1 = answers ∧ maps.Indexes stack ∧
      answers.filterMap Answer.id? = List.range stack.count ∧
      (∀ inner, blocksLeft 0 inner = some 0 →
        let closed := (run SymbolTable.perform table (.openBlock :: (inner ++ [.closeBlock]))).2
        closed.symbols = table.symbols ∧ closed.level = table.level ∧
          ∀ name, closed.var? name = table.var? name) ∧
      ∀ name ty isConst symbol next, table.addVar name ty isConst = some (symbol, next) →
        ∀ later, (run SymbolTable.perform next later).2.byId? symbol.id =
          if symbol.level = 0 ∨ (blocksLeft 0 later).isSome = true then some symbol else none := by
  intro answers table stack maps
  obtain ⟨sameAnswers, pictures⟩ := SymbolTable.Pictures.start.run ops
  obtain ⟨mapAnswers, indexes⟩ := IndexedTable.Indexes.empty.run ScopeStack.IsSound.start ops
  obtain ⟨n, issued, count⟩ := ScopeStack.issued_run (.start : ScopeStack φ) ops
  refine ⟨sameAnswers, pictures, mapAnswers.trans sameAnswers.symm, indexes, ?_, ?_, ?_⟩
  · have ids : stack.count = n := count.trans (Nat.zero_add n)
    rw [ids, List.range_eq_range']
    exact (congrArg (List.filterMap Answer.id?) sameAnswers).trans issued
  · intro inner balanced closed
    have below : ∀ symbol ∈ table.symbols, symbol.level ≤ table.level := by
      rw [pictures.symbols, pictures.level]
      exact fun symbol member => Nat.le_of_lt_succ (pictures.leveled.level_lt symbol member)
    obtain ⟨symbols, level⟩ := SymbolTable.run_block below balanced
    have sameVars (name : String) : closed.var? name = table.var? name := by
      unfold SymbolTable.var?
      rw [symbols]
    exact ⟨symbols, level, sameVars⟩
  · intro name ty isConst symbol next added later
    exact SymbolTable.byId?_run (SymbolTable.HasFreshIds.empty.run ops) added later

open Operation in
/-- In a block in which `x` is declared once more the second `x` has an id of its
own, which is lost with the block; a block inside it is left as it was entered. -/
theorem table_refines_stack_shadowing :
    let table : SymbolTable Nat :=
      (run SymbolTable.perform .empty [.addVar "x" .int false, .openBlock]).2
    let shadow : Symbol := ⟨1, "x", .char, true, 1⟩
    let inside : SymbolTable Nat := { table with symbols := shadow :: table.symbols, nextId := 2 }
    let inner : List (Operation Nat) := [.addVar "x" .char true, .var? "x"]
    (blocksLeft 0 inner = some 0 ∧
      (run SymbolTable.perform table (.openBlock :: (inner ++ [.closeBlock]))).2.var? "x" =
        table.var? "x") ∧
    table.addVar "x" .char true = some (shadow, inside) ∧
      (run SymbolTable.perform inside [.openBlock, .closeBlock]).2.byId? 1 = some shadow ∧
      (run SymbolTable.perform inside [.openBlock, .closeBlock, .closeBlock]).2.byId? 1 = none := by
  intro table shadow inside inner
  obtain ⟨_, _, _, _, _, blocks, ids⟩ :=
    table_refines_stack ([.addVar "x" .int false, .openBlock] : List (Operation Nat))
  have balanced : blocksLeft 0 inner = some 0 := rfl
  have added : table.addVar "x" .char true = some (shadow, inside) := rfl
  refine ⟨⟨balanced, (blocks inner balanced).2.2 "x"⟩, added, ?_, ?_⟩
  · exact ids _ _ _ _ _ added [.openBlock, .closeBlock]
  · exact ids _ _ _ _ _ added [.openBlock, .closeBlock, .closeBlock]

end MiniC
