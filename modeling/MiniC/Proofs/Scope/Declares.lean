import MiniC.Proofs.Scope.Reached
import MiniC.Proofs.Static.Rules

/-!
Scopes as environments. The checker keeps one table for all open blocks; seen
as an environment it is what has been declared so far. Declaring variables adds
to the table and changes nothing else, and closing a block takes away just what
was declared since it was opened.
-/

namespace MiniC

def Symbol.binding (symbol : Symbol) : Binding := ⟨symbol.name, symbol.ty, symbol.isConst⟩

def envOf (scope : Scope) : Env where
  vars := scope.symbols.map Symbol.binding
  funcs := scope.funcs.map fun entry => (entry.1, entry.2.decl)

theorem envOf_var? (scope : Scope) (name : String) :
    (envOf scope).var? name = (scope.var? name).map Symbol.binding := by
  unfold Env.var? envOf SymbolTable.var?
  rw [List.find?_map]
  rfl

theorem envOf_lookup (scope : Scope) (name : String) :
    (envOf scope).funcs.lookup name = (scope.func? name).map KnownFunction.decl := by
  change List.lookup name (scope.funcs.map fun entry => (entry.1, entry.2.decl)) =
    (scope.funcs.lookup name).map KnownFunction.decl
  induction scope.funcs with
  | nil => rfl
  | cons entry rest ih =>
    rw [List.map_cons, List.lookup_cons, List.lookup_cons, ih]
    cases name == entry.1 with
    | true => rfl
    | false => rfl

/-- A variable that was entered had a free name. -/
theorem SymbolTable.not_isDeclaredHere {φ : Type} {table next : SymbolTable φ} {name : String}
    {ty : Ty} {isConst : Bool} {symbol : Symbol}
    (added : table.addVar name ty isConst = some (symbol, next)) :
    table.isDeclaredHere name = false := by
  unfold addVar at added
  by_cases isDeclared : table.isDeclaredHere name = true
  · simp [isDeclared] at added
  · simpa using isDeclared

/-- A scope finds what its environment shows. -/
theorem SoundScope.shows_env {scope : Scope} (sound : SoundScope scope) :
    Shows scope (envOf scope).view := by
  have var (name : String) (ty : Ty) : (envOf scope).view.var name ty ↔
      ∃ symbol, scope.var? name = some symbol ∧ symbol.ty = ty := by
    simp [Env.view, envOf_var?, Symbol.binding]
  have func (name : String) (f : FuncDecl) : (envOf scope).view.func name f ↔
      ∃ known, scope.func? name = some known ∧ known.decl = f := by
    simp [Env.view, envOf_lookup]
  constructor
  · exact var
  · exact func
  · intro name ty shown
    exact sound.shows.leaf name ty ((sound.shows.var name ty).mpr ((var name ty).mp shown))
  · intro name f shown
    exact sound.shows.returns name f ((sound.shows.func name f).mpr ((func name f).mp shown))

/-- A name that may be declared in the innermost block. -/
def IsFree (scope : Scope) (name : String) : Prop :=
  scope.isDeclaredHere name = false ∧ (scope.isGlobal = true → scope.func? name = none)

/-- Names that may be declared one after the other. -/
structure Fresh (scope : Scope) (names : List String) : Prop where
  distinct : names.Nodup
  free : ∀ name ∈ names, IsFree scope name

/-- From `before` to `after`, just these names were taken. -/
def Takes (names : List String) (before after : Scope) : Prop :=
  ∀ name, IsFree after name ↔ IsFree before name ∧ name ∉ names

/-- From `before` to `after`, the bindings were declared in this order. -/
structure Declares (bindings : List Binding) (before after : Scope) : Prop where
  level : after.level = before.level
  funcs : after.funcs = before.funcs
  symbols : ∃ added, after.symbols = added ++ before.symbols ∧
    added.map Symbol.binding = bindings.reverse ∧ ∀ symbol ∈ added, symbol.level = before.level

theorem fresh_nil (scope : Scope) : Fresh scope [] := ⟨List.nodup_nil, nofun⟩

theorem fresh_singleton_iff {scope : Scope} {name : String} :
    Fresh scope [name] ↔ IsFree scope name := by
  constructor
  · exact fun fresh => fresh.free name (List.mem_singleton_self _)
  · intro free
    constructor
    · exact List.nodup_singleton _
    · exact List.forall_mem_singleton.mpr free

theorem Fresh.left {scope : Scope} {names later : List String}
    (fresh : Fresh scope (names ++ later)) : Fresh scope names where
  distinct := fresh.distinct.of_append_left
  free := (List.forall_mem_append.mp fresh.free).1

/-- Declaring more is declaring first the one and then the other. -/
theorem Takes.fresh_append_iff {before after : Scope} {names later : List String}
    (takes : Takes names before after) :
    Fresh before (names ++ later) ↔ Fresh before names ∧ Fresh after later := by
  constructor
  · rintro ⟨distinct, free⟩
    obtain ⟨distinctFirst, distinctLater, apart⟩ := List.nodup_append.mp distinct
    obtain ⟨freeFirst, freeLater⟩ := List.forall_mem_append.mp free
    refine ⟨⟨distinctFirst, freeFirst⟩, distinctLater, fun name member => ?_⟩
    refine (takes name).mpr ⟨freeLater name member, fun taken => ?_⟩
    exact apart name taken name member rfl
  · rintro ⟨first, second⟩
    have free (name : String) (member : name ∈ later) := (takes name).mp (second.free name member)
    constructor
    · refine List.nodup_append.mpr ⟨first.distinct, second.distinct, ?_⟩
      rintro name isFirst _ isLater rfl
      exact (free name isLater).2 isFirst
    · exact List.forall_mem_append.mpr ⟨first.free, fun name member => (free name member).1⟩

/-- A block that has just been opened holds no names. -/
theorem fresh_openBlock_iff {scope : Scope} (ordered : scope.IsOrdered) {names : List String} :
    Fresh scope.openBlock names ↔ names.Nodup := by
  constructor
  · exact Fresh.distinct
  · intro distinct
    refine ⟨distinct, fun name _ => ⟨?_, fun isGlobal => ?_⟩⟩
    · apply List.any_eq_false.mpr
      intro symbol member
      have outer := ordered.levels symbol member
      have differs : symbol.level ≠ scope.level + 1 := by omega
      simp [SymbolTable.openBlock, differs]
    · simp [SymbolTable.isGlobal, SymbolTable.openBlock] at isGlobal

namespace Declares

variable {before middle after : Scope} {bindings later : List Binding}

theorem refl (scope : Scope) : Declares [] scope scope := ⟨rfl, rfl, [], rfl, rfl, nofun⟩

theorem trans (first : Declares bindings before middle) (second : Declares later middle after) :
    Declares (bindings ++ later) before after := by
  obtain ⟨added, shape, areBindings, levels⟩ := first.symbols
  obtain ⟨more, moreShape, areLater, moreLevels⟩ := second.symbols
  constructor
  · rw [second.level, first.level]
  · rw [second.funcs, first.funcs]
  · refine ⟨more ++ added, ?_, ?_, ?_⟩
    · rw [moreShape, shape, List.append_assoc]
    · rw [List.map_append, areLater, areBindings, List.reverse_append]
    · exact List.forall_mem_append.mpr ⟨first.level ▸ moreLevels, levels⟩

theorem envOf_eq (declares : Declares bindings before after) :
    envOf after = (envOf before).declare bindings := by
  obtain ⟨added, shape, areBindings, _⟩ := declares.symbols
  unfold envOf Env.declare
  rw [shape, declares.funcs, List.map_append, areBindings]

theorem addVar {scope next : Scope} {name : String} {ty : Ty} {isConst : Bool} {symbol : Symbol}
    (added : scope.addVar name ty isConst = some (symbol, next)) :
    Declares [⟨name, ty, isConst⟩] scope next := by
  unfold SymbolTable.addVar at added
  by_cases isDeclared : scope.isDeclaredHere name = true
  · simp [isDeclared] at added
  · rw [if_neg isDeclared, Option.some.injEq, Prod.mk.injEq] at added
    obtain ⟨rfl, rfl⟩ := added
    exact ⟨rfl, rfl, [_], rfl, rfl, List.forall_mem_singleton.mpr rfl⟩

theorem isDeclaredHere_iff (declares : Declares bindings before after) (name : String) :
    after.isDeclaredHere name = true ↔
      before.isDeclaredHere name = true ∨ name ∈ bindings.map Binding.name := by
  obtain ⟨added, shape, areBindings, levels⟩ := declares.symbols
  have isAdded : (∃ symbol ∈ added, symbol.name = name) ↔ name ∈ bindings.map Binding.name := by
    rw [← List.mem_reverse, ← List.map_reverse, ← areBindings, List.map_map]
    exact List.mem_map.symm
  rw [← isAdded, or_comm]
  unfold SymbolTable.isDeclaredHere
  rw [shape, List.any_append, Bool.or_eq_true, declares.level]
  apply or_congr_left
  rw [List.any_eq_true]
  apply exists_congr
  intro symbol
  apply and_congr_right
  intro member
  simp [levels symbol member]

theorem takes (declares : Declares bindings before after) :
    Takes (bindings.map Binding.name) before after := by
  intro name
  have isGlobal : after.isGlobal = before.isGlobal := by
    unfold SymbolTable.isGlobal
    rw [declares.level]
  have func : after.func? name = before.func? name := by
    unfold SymbolTable.func?
    rw [declares.funcs]
  unfold IsFree
  rw [isGlobal, func, ← Bool.not_eq_true, ← Bool.not_eq_true, declares.isDeclaredHere_iff, not_or]
  exact and_right_comm

/-- Closing a block leaves what there was before it was opened. -/
theorem closeBlock {scope : Scope} (ordered : scope.IsOrdered)
    (declares : Declares bindings scope.openBlock after) : Declares [] scope after.closeBlock := by
  obtain ⟨added, shape, _, levels⟩ := declares.symbols
  have level : after.level = scope.level + 1 := declares.level
  have symbols : after.symbols.filter (·.level ≤ scope.level) = scope.symbols := by
    have gone : added.filter (·.level ≤ scope.level) = [] := by
      apply List.filter_eq_nil_iff.mpr
      intro symbol member
      have inner : symbol.level = scope.level + 1 := levels symbol member
      simp [inner]
    have kept : scope.symbols.filter (·.level ≤ scope.level) = scope.symbols := by
      apply List.filter_eq_self.mpr
      intro symbol member
      simpa using ordered.levels symbol member
    rw [shape, List.filter_append, gone, List.nil_append]
    exact kept
  unfold SymbolTable.closeBlock
  rw [level]
  exact ⟨rfl, declares.funcs, [], symbols, rfl, nofun⟩

end Declares

end MiniC
