import MiniC.Scope
import Mathlib.Data.List.Nodup

/-!
What a name stands for. The visible variable is the one of the innermost block
that has the name. A table finds it as the first entry with the name, because
its entries stand in the order of their levels, and no block has a name twice.
-/

namespace MiniC.SymbolTable

variable {φ : Type} {table : SymbolTable φ} {name : String} {symbol : Symbol}

structure IsVisible (table : SymbolTable φ) (name : String) (symbol : Symbol) : Prop where
  member : symbol ∈ table.symbols
  named : symbol.name = name
  innermost : ∀ other ∈ table.symbols, other.name = name → other.level ≤ symbol.level

/-- How an entry lies to an earlier one. -/
def Covers (later sooner : Symbol) : Prop :=
  sooner.level ≤ later.level ∧ (sooner.name = later.name → sooner.level < later.level)

/-- The order of the entries, which holds of every table that is built up by
its operations. -/
structure IsOrdered (table : SymbolTable φ) : Prop where
  levels : ∀ symbol ∈ table.symbols, symbol.level ≤ table.level
  symbols : table.symbols.Pairwise Covers
  funcs : (table.funcs.map Prod.fst).Nodup

namespace IsOrdered

theorem visible_of_var? (ordered : table.IsOrdered) (found : table.var? name = some symbol) :
    table.IsVisible name symbol := by
  obtain ⟨isNamed, sooner, later, shape, others⟩ := List.find?_eq_some_iff_append.mp found
  have named : symbol.name = name := by simpa using isNamed
  have order := ordered.symbols
  rw [shape, List.pairwise_append, List.pairwise_cons] at order
  constructor
  · simp [shape]
  · exact named
  · intro other member sameName
    rw [shape, List.mem_append, List.mem_cons] at member
    rcases member with isSooner | rfl | isLater
    · have differs := others other isSooner
      simp [sameName] at differs
    · exact Nat.le_refl _
    · exact (order.2.1.1 other isLater).1

theorem var?_eq_some_iff (ordered : table.IsOrdered) :
    table.var? name = some symbol ↔ table.IsVisible name symbol := by
  constructor
  · exact ordered.visible_of_var?
  · intro visible
    have present : (table.var? name).isSome := by
      rw [var?, List.find?_isSome]
      exact ⟨symbol, visible.member, by simpa using visible.named⟩
    obtain ⟨found, isFound⟩ := Option.isSome_iff_exists.mp present
    obtain ⟨_, sooner, later, shape, others⟩ := List.find?_eq_some_iff_append.mp isFound
    have first := ordered.visible_of_var? isFound
    have order := ordered.symbols
    rw [shape, List.pairwise_append, List.pairwise_cons] at order
    have member := visible.member
    rw [shape, List.mem_append, List.mem_cons] at member
    rcases member with isSooner | rfl | isLater
    · have differs := others symbol isSooner
      simp [visible.named] at differs
    · exact isFound
    · -- an earlier entry with the same name lies further out
      have outer := (order.2.1.1 symbol isLater).2 (visible.named.trans first.named.symm)
      have inner := visible.innermost found first.member first.named
      omega

theorem func?_eq_some_iff (ordered : table.IsOrdered) {func : φ} :
    table.func? name = some func ↔ (name, func) ∈ table.funcs := by
  have distinct := ordered.funcs
  unfold func?
  generalize table.funcs = funcs at distinct
  induction funcs with
  | nil => simp
  | cons entry later ih =>
    obtain ⟨key, value⟩ := entry
    rw [List.map_cons, List.nodup_cons] at distinct
    rw [List.lookup_cons, List.mem_cons]
    by_cases same : name = key
    · subst same
      have absent : (name, func) ∉ later := fun member =>
        distinct.1 (List.mem_map.mpr ⟨(name, func), member, rfl⟩)
      simp [absent, eq_comm]
    · have differs : (name == key) = false := by simpa using same
      simp [differs, same, ih distinct.2]

theorem empty : (SymbolTable.empty : SymbolTable φ).IsOrdered :=
  ⟨nofun, List.Pairwise.nil, List.nodup_nil⟩

theorem openBlock (ordered : table.IsOrdered) : table.openBlock.IsOrdered where
  levels symbol member := Nat.le_succ_of_le (ordered.levels symbol member)
  symbols := ordered.symbols
  funcs := ordered.funcs

theorem closeBlock (ordered : table.IsOrdered) : table.closeBlock.IsOrdered := by
  unfold SymbolTable.closeBlock
  split
  · exact ordered
  · constructor
    · intro symbol member
      simpa using (List.mem_filter.mp member).2
    · exact ordered.symbols.filter _
    · exact ordered.funcs

theorem addVar (ordered : table.IsOrdered) {ty : Ty} {isConst : Bool} {next : SymbolTable φ}
    (added : table.addVar name ty isConst = some (symbol, next)) : next.IsOrdered := by
  unfold SymbolTable.addVar at added
  by_cases isDeclared : table.isDeclaredHere name = true
  · simp [isDeclared] at added
  · rw [if_neg isDeclared, Option.some.injEq, Prod.mk.injEq] at added
    obtain ⟨_, rfl⟩ := added
    constructor
    · intro other member
      rcases List.mem_cons.mp member with rfl | isOlder
      · exact Nat.le_refl _
      · exact ordered.levels other isOlder
    · refine List.pairwise_cons.mpr ⟨fun other member => ?_, ordered.symbols⟩
      have level := ordered.levels other member
      refine ⟨level, fun sameName => Nat.lt_of_le_of_ne level fun sameLevel => isDeclared ?_⟩
      rw [isDeclaredHere, List.any_eq_true]
      exact ⟨other, member, by simp [sameLevel, sameName]⟩
    · exact ordered.funcs

theorem addFunc (ordered : table.IsOrdered) {func : φ} {next : SymbolTable φ}
    (added : table.addFunc name func = some next) : next.IsOrdered := by
  unfold SymbolTable.addFunc at added
  cases found : table.func? name with
  | some => simp [found] at added
  | none =>
    rw [found, Option.some.injEq] at added
    subst added
    refine ⟨ordered.levels, ordered.symbols, List.nodup_cons.mpr ⟨?_, ordered.funcs⟩⟩
    intro isKey
    obtain ⟨⟨key, value⟩, member, rfl⟩ := List.mem_map.mp isKey
    rw [ordered.func?_eq_some_iff.mpr member] at found
    cases found

end IsOrdered

end MiniC.SymbolTable
