import MiniC.Proofs.Scope.Stack
import Mathlib.Data.List.Perm.Basic

/-!
The variables in scope, kept in hash maps. Each open block maps its names to
ids, each name has the ids of the variables hidden under it, and each id its
variable. The maps say the same thing more than once; that they agree is what
the operations have to keep, and the stack of frames is what they agree on.
-/

namespace MiniC

/-- The table of variables as a number of maps. -/
structure IndexedTable (φ : Type) where
  /-- Ids of the names declared in the innermost block. -/
  inner : Std.HashMap String Nat
  /-- The same for the blocks around it, from the inside out. -/
  outer : List (Std.HashMap String Nat)
  /-- Ids of the variables of each name in open blocks, the visible one first. -/
  shadows : Std.HashMap String (List Nat)
  symbols : Std.HashMap Nat Symbol
  funcs : Std.HashMap String φ
  nextId : Nat

namespace IndexedTable

variable {φ : Type}

def empty : IndexedTable φ := ⟨∅, [], ∅, ∅, ∅, 0⟩

def depth (table : IndexedTable φ) : Nat := table.outer.length + 1

def openBlock (table : IndexedTable φ) : IndexedTable φ :=
  { table with inner := ∅, outer := table.inner :: table.outer }

/-- Uncovers the variable under the visible one; a name that has none is dropped. -/
def popShadow (shadows : Std.HashMap String (List Nat)) (name : String) :
    Std.HashMap String (List Nat) :=
  match shadows[name]? with
  | none => shadows
  | some ids =>
    if ids.tail.isEmpty then shadows.erase name else shadows.insert name ids.tail

def forget (table : IndexedTable φ) (name : String) (id : Nat) : IndexedTable φ :=
  { table with shadows := popShadow table.shadows name, symbols := table.symbols.erase id }

/-- Closes the innermost block and forgets its variables one by one. -/
def closeBlock (table : IndexedTable φ) : IndexedTable φ :=
  match table.outer with
  | [] => table
  | block :: rest => table.inner.fold forget { table with inner := block, outer := rest }

def isDeclaredHere (table : IndexedTable φ) (name : String) : Bool := table.inner.contains name

def addVar (table : IndexedTable φ) (name : String) (ty : Ty) (isConst : Bool) :
    Option (Nat × IndexedTable φ) :=
  if table.isDeclaredHere name then none
  else
    let id := table.nextId
    some (id,
      { table with
        inner := table.inner.insert name id
        shadows := table.shadows.insert name (id :: table.shadows.getD name [])
        symbols := table.symbols.insert id ⟨id, name, ty, isConst, table.outer.length⟩
        nextId := id + 1 })

def var? (table : IndexedTable φ) (name : String) : Option Symbol := do
  let ids ← table.shadows[name]?
  let id ← ids.head?
  table.symbols[id]?

def byId? (table : IndexedTable φ) (id : Nat) : Option Symbol := table.symbols[id]?

def addFunc (table : IndexedTable φ) (name : String) (func : φ) : Option (IndexedTable φ) :=
  if table.funcs.contains name then none
  else some { table with funcs := table.funcs.insert name func }

def func? (table : IndexedTable φ) (name : String) : Option φ := table.funcs[name]?

def visibleCount (table : IndexedTable φ) : Nat := table.symbols.size

end IndexedTable

namespace ScopeStack

variable {φ : Type} {stack : ScopeStack φ}

/-- No frame has a name twice, and no id is given twice. -/
structure IsSound (stack : ScopeStack φ) : Prop where
  names : ∀ frame ∈ stack.frames, (frame.map Symbol.name).Nodup
  ids : (stack.frames.flatten.map Symbol.id).Nodup
  bound : ∀ symbol ∈ stack.frames.flatten, symbol.id < stack.count

namespace IsSound

theorem start : (.start : ScopeStack φ).IsSound :=
  ⟨List.forall_mem_singleton.mpr List.nodup_nil, List.nodup_nil, nofun⟩

theorem openBlock (sound : stack.IsSound) : stack.openBlock.IsSound :=
  ⟨List.forall_mem_cons.mpr ⟨List.nodup_nil, sound.names⟩, sound.ids, sound.bound⟩

theorem closeBlock (sound : stack.IsSound) : stack.closeBlock.IsSound := by
  obtain ⟨inner, outer, funcs, count⟩ := stack
  cases outer with
  | nil => exact sound
  | cons frame rest =>
    obtain ⟨names, ids, bound⟩ := sound
    change ((inner ++ (frame :: rest).flatten).map Symbol.id).Nodup at ids
    rw [List.map_append] at ids
    constructor
    · exact fun other member => names other (List.mem_cons_of_mem _ member)
    · exact ids.of_append_right
    · exact fun symbol member => bound symbol (List.mem_append_right _ member)

theorem declare (sound : stack.IsSound) {name : String} (isFree : stack.isDeclaredHere name = false)
    (ty : Ty) (isConst : Bool) : (stack.declare name ty isConst).IsSound := by
  obtain ⟨names, ids, bound⟩ := sound
  obtain ⟨here, further⟩ := List.forall_mem_cons.mp names
  have frames : (stack.declare name ty isConst).frames =
      (stack.fresh name ty isConst :: stack.inner) :: stack.outer := rfl
  have unnamed : name ∉ stack.inner.map Symbol.name := by
    intro taken
    obtain ⟨symbol, member, same⟩ := List.mem_map.mp taken
    have none : named stack.inner name = none := by simpa [ScopeStack.isDeclaredHere] using isFree
    exact List.find?_eq_none.mp none symbol member (beq_iff_eq.mpr same)
  have unused : stack.count ∉ stack.frames.flatten.map Symbol.id := by
    intro taken
    obtain ⟨symbol, member, same⟩ := List.mem_map.mp taken
    exact Nat.ne_of_lt (bound symbol member) same
  constructor
  · rw [frames]
    exact List.forall_mem_cons.mpr ⟨List.nodup_cons.mpr ⟨unnamed, here⟩, further⟩
  · exact List.nodup_cons.mpr ⟨unused, ids⟩
  · intro symbol member
    rw [frames, List.flatten_cons, List.cons_append] at member
    rcases List.mem_cons.mp member with rfl | sooner
    · exact Nat.lt_succ_self _
    · exact Nat.lt_succ_of_lt (bound symbol sooner)

end IsSound

theorem byId?_eq_find? (stack : ScopeStack φ) (id : Nat) :
    stack.byId? id = stack.frames.flatten.find? (·.id == id) :=
  List.find?_flatten.symm

theorem var?_eq_find? (stack : ScopeStack φ) (name : String) :
    stack.var? name = stack.frames.flatten.find? (·.name == name) :=
  List.find?_flatten.symm

theorem IsSound.byId?_of_mem (sound : stack.IsSound) {symbol : Symbol}
    (member : symbol ∈ stack.frames.flatten) : stack.byId? symbol.id = some symbol := by
  rw [byId?_eq_find?]
  cases found : stack.frames.flatten.find? (·.id == symbol.id) with
  | none =>
    have differs := List.find?_eq_none.mp found symbol member
    exact absurd (beq_self_eq_true _) differs
  | some other =>
    have sameId : other.id = symbol.id := by simpa using List.find?_some found
    have isOther := List.mem_of_find?_eq_some found
    rw [List.inj_on_of_nodup_map sound.ids isOther member sameId]

/-- An id of the innermost frame is in no other. -/
theorem IsSound.byId?_of_outer {inner frame : List Symbol} {rest : List (List Symbol)}
    {funcs : String → Option φ} {count : Nat}
    (sound : (⟨inner, frame :: rest, funcs, count⟩ : ScopeStack φ).IsSound) (id : Nat) :
    (⟨frame, rest, funcs, count⟩ : ScopeStack φ).byId? id =
      if id ∈ inner.map Symbol.id then none
      else (⟨inner, frame :: rest, funcs, count⟩ : ScopeStack φ).byId? id := by
  rw [byId?_eq_find?, byId?_eq_find?]
  change (frame :: rest).flatten.find? _ =
    if _ then none else (inner ++ (frame :: rest).flatten).find? _
  have ids : ((inner ++ (frame :: rest).flatten).map Symbol.id).Nodup := sound.ids
  rw [List.map_append] at ids
  have apart := List.disjoint_of_nodup_append ids
  by_cases isHere : id ∈ inner.map Symbol.id
  · rw [if_pos isHere]
    apply List.find?_eq_none.mpr
    intro symbol member isNamed
    exact apart isHere (List.mem_map.mpr ⟨symbol, member, beq_iff_eq.mp isNamed⟩)
  · have unused : inner.find? (·.id == id) = none := by
      apply List.find?_eq_none.mpr
      intro symbol member isNamed
      exact isHere (List.mem_map.mpr ⟨symbol, member, beq_iff_eq.mp isNamed⟩)
    rw [if_neg isHere, List.find?_append, unused, Option.none_or]

/-- A frame has one variable of a name at most. -/
theorem filter_named {frame : List Symbol} (names : (frame.map Symbol.name).Nodup) (name : String) :
    frame.filter (·.name == name) = (named frame name).toList := by
  unfold named
  induction frame with
  | nil => rfl
  | cons symbol rest ih =>
    obtain ⟨unnamed, later⟩ := List.nodup_cons.mp names
    by_cases same : symbol.name = name
    · have isNamed : (symbol.name == name) = true := beq_iff_eq.mpr same
      have others : rest.filter (·.name == name) = [] := by
        apply List.filter_eq_nil_iff.mpr
        intro other member isOther
        exact unnamed (List.mem_map.mpr ⟨other, member, (beq_iff_eq.mp isOther).trans same.symm⟩)
      simp only [List.filter_cons, List.find?_cons, isNamed, if_true, others]
      rfl
    · have isOther : (symbol.name == name) = false := beq_eq_false_iff_ne.mpr same
      simp only [List.filter_cons, List.find?_cons, isOther, Bool.false_eq_true, if_false]
      exact ih later

end ScopeStack

namespace IndexedTable

variable {φ : Type} {table : IndexedTable φ} {stack : ScopeStack φ}

section Forget

variable {pairs : List (String × Nat)}

theorem getD_popShadow (shadows : Std.HashMap String (List Nat)) (name other : String) :
    (popShadow shadows name).getD other [] =
      if name = other then (shadows.getD other []).tail else shadows.getD other [] := by
  unfold popShadow
  cases found : shadows[name]? with
  | none =>
    by_cases same : name = other
    · subst same
      rw [if_pos rfl, Std.HashMap.getD_eq_getD_getElem?, found]
      rfl
    · rw [if_neg same]
  | some ids =>
    by_cases same : name = other
    · subst same
      rw [if_pos rfl, Std.HashMap.getD_eq_getD_getElem? (m := shadows), found, Option.getD_some]
      by_cases isLast : ids.tail.isEmpty = true
      · simp [List.isEmpty_iff.mp isLast]
      · simp [isLast]
    · rw [if_neg same]
      by_cases isLast : ids.tail.isEmpty = true
      · simp [isLast, Std.HashMap.getD_erase, same]
      · simp [isLast, Std.HashMap.getD_insert, same]

def forgetAll (table : IndexedTable φ) (pairs : List (String × Nat)) : IndexedTable φ :=
  pairs.foldl (fun table pair => table.forget pair.1 pair.2) table

theorem forgetAll_cons (pair : String × Nat) (pairs : List (String × Nat)) :
    table.forgetAll (pair :: pairs) = (table.forget pair.1 pair.2).forgetAll pairs := rfl

theorem forgetAll_shadows (distinct : (pairs.map Prod.fst).Nodup) (name : String) :
    (table.forgetAll pairs).shadows.getD name [] =
      if name ∈ pairs.map Prod.fst then (table.shadows.getD name []).tail
      else table.shadows.getD name [] := by
  induction pairs generalizing table with
  | nil => rfl
  | cons pair rest ih =>
    obtain ⟨unnamed, later⟩ := List.nodup_cons.mp distinct
    -- the first pair takes its own id off; the others have other names
    rw [forgetAll_cons, ih later, List.map_cons]
    change (if _ then ((popShadow table.shadows pair.1).getD name []).tail
      else (popShadow table.shadows pair.1).getD name []) = _
    rw [getD_popShadow]
    by_cases same : pair.1 = name
    · subst same
      rw [if_neg unnamed, if_pos rfl, if_pos (List.mem_cons_self ..)]
    · have iff : name ∈ pair.1 :: rest.map Prod.fst ↔ name ∈ rest.map Prod.fst := by
        rw [List.mem_cons, or_iff_right (Ne.symm same)]
      simp only [if_neg same, iff]

theorem forgetAll_symbols (id : Nat) :
    (table.forgetAll pairs).symbols[id]? =
      if id ∈ pairs.map Prod.snd then none else table.symbols[id]? := by
  induction pairs generalizing table with
  | nil => rfl
  | cons pair rest ih =>
    rw [forgetAll_cons, ih, List.map_cons]
    change (if _ then none else (table.symbols.erase pair.2)[id]?) = _
    rw [Std.HashMap.getElem?_erase]
    by_cases same : pair.2 = id
    · subst same
      simp
    · have iff : id ∈ pair.2 :: rest.map Prod.snd ↔ id ∈ rest.map Prod.snd := by
        rw [List.mem_cons, or_iff_right (Ne.symm same)]
      simp only [beq_iff_eq, if_neg same, iff]

/-- What is forgotten leaves the rest of the table as it is. -/
theorem forgetAll_eq (table : IndexedTable φ) (pairs : List (String × Nat)) :
    table.forgetAll pairs =
      { table with
        shadows := (table.forgetAll pairs).shadows
        symbols := (table.forgetAll pairs).symbols } := by
  induction pairs generalizing table with
  | nil => rfl
  | cons pair rest ih =>
    rw [forgetAll_cons]
    exact ih (table.forget pair.1 pair.2)

end Forget

/-- A block maps the names of a frame to their ids. -/
def Lists (block : Std.HashMap String Nat) (frame : List Symbol) : Prop :=
  ∀ name, block[name]? = (ScopeStack.named frame name).map Symbol.id

/-- The maps say what the stack says. -/
structure Indexes (table : IndexedTable φ) (stack : ScopeStack φ) : Prop where
  inner : Lists table.inner stack.inner
  outer : List.Forall₂ Lists table.outer stack.outer
  shadows : ∀ name, table.shadows.getD name [] =
    (stack.frames.flatten.filter (·.name == name)).map Symbol.id
  symbols : ∀ id, table.symbols[id]? = stack.byId? id
  funcs : ∀ name, table.funcs[name]? = stack.funcs name
  nextId : table.nextId = stack.count

theorem Lists.contains {block : Std.HashMap String Nat} {frame : List Symbol}
    (lists : Lists block frame) (name : String) :
    block.contains name = (ScopeStack.named frame name).isSome := by
  rw [Std.HashMap.contains_eq_isSome_getElem?, lists, Option.isSome_map]

/-- The ids that a block maps to are those of its frame. -/
theorem Lists.mem_ids {block : Std.HashMap String Nat} {frame : List Symbol}
    (lists : Lists block frame) (names : (frame.map Symbol.name).Nodup) (id : Nat) :
    id ∈ block.toList.map Prod.snd ↔ id ∈ frame.map Symbol.id := by
  have named (symbol : Symbol) (member : symbol ∈ frame) :
      ScopeStack.named frame symbol.name = some symbol := by
    have one : symbol ∈ (ScopeStack.named frame symbol.name).toList := by
      rw [← ScopeStack.filter_named names]
      exact List.mem_filter.mpr ⟨member, beq_self_eq_true _⟩
    exact Option.mem_toList.mp one
  constructor
  · intro member
    obtain ⟨⟨name, _⟩, isPair, rfl⟩ := List.mem_map.mp member
    have maps := Std.HashMap.mem_toList_iff_getElem?_eq_some.mp isPair
    rw [lists] at maps
    obtain ⟨symbol, found, sameId⟩ := Option.map_eq_some_iff.mp maps
    exact List.mem_map.mpr ⟨symbol, List.mem_of_find?_eq_some found, sameId⟩
  · intro member
    obtain ⟨symbol, isListed, rfl⟩ := List.mem_map.mp member
    have maps : block[symbol.name]? = some symbol.id := by
      rw [lists, named symbol isListed]
      rfl
    exact List.mem_map.mpr
      ⟨(symbol.name, symbol.id), Std.HashMap.mem_toList_iff_getElem?_eq_some.mpr maps, rfl⟩

namespace Indexes

theorem empty : (IndexedTable.empty : IndexedTable φ).Indexes .start where
  inner _ := Std.HashMap.getElem?_empty
  outer := .nil
  shadows _ := Std.HashMap.getD_empty
  symbols _ := Std.HashMap.getElem?_empty
  funcs _ := Std.HashMap.getElem?_empty
  nextId := rfl

variable (indexes : table.Indexes stack)

include indexes

theorem depth : table.depth = stack.depth := congrArg Nat.succ indexes.outer.length_eq

theorem isDeclaredHere (name : String) :
    table.isDeclaredHere name = stack.isDeclaredHere name :=
  indexes.inner.contains name

theorem var? (sound : stack.IsSound) (name : String) : table.var? name = stack.var? name := by
  have ids := indexes.shadows name
  have top : table.var? name = (table.shadows.getD name []).head?.bind (table.symbols[·]?) := by
    unfold IndexedTable.var?
    rw [Std.HashMap.getD_eq_getD_getElem?]
    cases table.shadows[name]? <;> rfl
  rw [top, ids, List.head?_map, List.head?_filter, ScopeStack.var?_eq_find?]
  cases found : stack.frames.flatten.find? (·.name == name) with
  | none => rfl
  | some symbol =>
    change table.symbols[symbol.id]? = some symbol
    rw [indexes.symbols, sound.byId?_of_mem (List.mem_of_find?_eq_some found)]

/-- There are as many ids as open variables. -/
theorem visibleCount (sound : stack.IsSound) : table.visibleCount = stack.visibleCount := by
  have same : table.symbols.keys.Perm (stack.frames.flatten.map Symbol.id) := by
    apply (List.perm_ext_iff_of_nodup Std.HashMap.nodup_keys sound.ids).mpr
    intro id
    rw [Std.HashMap.mem_keys, Std.HashMap.mem_iff_isSome_getElem?, indexes.symbols,
      ScopeStack.byId?_eq_find?, List.isSome_find?, List.any_eq_true, List.mem_map]
    apply exists_congr
    intro symbol
    rw [beq_iff_eq]
  have length := same.length_eq
  rwa [Std.HashMap.length_keys, List.length_map] at length

theorem openBlock : table.openBlock.Indexes stack.openBlock where
  inner _ := Std.HashMap.getElem?_empty
  outer := .cons indexes.inner indexes.outer
  shadows := indexes.shadows
  symbols := indexes.symbols
  funcs := indexes.funcs
  nextId := indexes.nextId

/-- The names of the innermost frame lose their first id each, and nothing else
is lost, in whatever order the map gives them. -/
theorem closeBlock (sound : stack.IsSound) : table.closeBlock.Indexes stack.closeBlock := by
  obtain ⟨frame, outer, funcs, count⟩ := stack
  cases outer with
  | nil =>
    have isGlobal : table.outer = [] := List.forall₂_nil_right_iff.mp indexes.outer
    unfold IndexedTable.closeBlock ScopeStack.closeBlock
    rw [isGlobal]
    exact indexes
  | cons next rest =>
    obtain ⟨block, blocks, lists, further, outer⟩ := List.forall₂_cons_right_iff.mp indexes.outer
    have names : (frame.map Symbol.name).Nodup := sound.names frame (List.mem_cons_self ..)
    have keys : (table.inner.toList.map Prod.fst).Nodup := by
      rw [Std.HashMap.map_fst_toList_eq_keys]
      exact Std.HashMap.nodup_keys
    have closed : table.closeBlock =
        { table with inner := block, outer := blocks }.forgetAll table.inner.toList := by
      unfold IndexedTable.closeBlock
      rw [outer]
      exact Std.HashMap.fold_eq_foldl_toList
    rw [closed, forgetAll_eq]
    constructor
    · exact lists
    · exact further
    · intro name
      have isKey : name ∈ table.inner.toList.map Prod.fst ↔
          (ScopeStack.named frame name).isSome = true := by
        rw [Std.HashMap.map_fst_toList_eq_keys, Std.HashMap.mem_keys, ← Std.HashMap.contains_iff_mem,
          indexes.inner.contains]
      -- only the id in front can be of the frame that is closed
      have ids : table.shadows.getD name [] = (ScopeStack.named frame name).toList.map Symbol.id ++
          ((next :: rest).flatten.filter (·.name == name)).map Symbol.id := by
        rw [← ScopeStack.filter_named names, ← List.map_append, ← List.filter_append]
        exact indexes.shadows name
      change (forgetAll _ _).shadows.getD name [] = _
      rw [forgetAll_shadows keys]
      change (if _ then (table.shadows.getD name []).tail else table.shadows.getD name []) = _
      simp only [isKey, ids]
      cases ScopeStack.named frame name <;> rfl
    · intro id
      change (forgetAll _ _).symbols[id]? = _
      rw [forgetAll_symbols]
      simp only [indexes.inner.mem_ids names]
      change (if _ then none else table.symbols[id]?) = _
      rw [indexes.symbols]
      exact (sound.byId?_of_outer id).symm
    · exact indexes.funcs
    · exact indexes.nextId

theorem addVar_none {name : String} {ty : Ty} {isConst : Bool}
    (isDeclared : stack.isDeclaredHere name = true) : table.addVar name ty isConst = none := by
  unfold addVar
  rw [indexes.isDeclaredHere, if_pos isDeclared]

theorem addVar_some {name : String} (ty : Ty) (isConst : Bool)
    (isFree : stack.isDeclaredHere name = false) :
    ∃ next, table.addVar name ty isConst = some (stack.count, next) ∧
      next.Indexes (stack.declare name ty isConst) := by
  have isNew : ¬ table.isDeclaredHere name = true := by
    rw [indexes.isDeclaredHere, isFree]
    exact Bool.false_ne_true
  have level : table.outer.length = stack.outer.length := indexes.outer.length_eq
  unfold addVar
  rw [if_neg isNew]
  simp only [indexes.nextId, level]
  refine ⟨_, rfl, ?_⟩
  -- each map has one more entry, at the new name or the new id
  constructor
  · intro other
    change (table.inner.insert name stack.count)[other]? =
      ((stack.fresh name ty isConst :: stack.inner).find? (·.name == other)).map Symbol.id
    rw [Std.HashMap.getElem?_insert, indexes.inner, ScopeStack.named]
    simp only [List.find?_cons, ScopeStack.fresh_name]
    cases name == other <;> rfl
  · exact indexes.outer
  · intro other
    change (table.shadows.insert name (stack.count :: table.shadows.getD name [])).getD other [] =
      ((stack.fresh name ty isConst :: stack.frames.flatten).filter (·.name == other)).map Symbol.id
    rw [Std.HashMap.getD_insert, List.filter_cons, ScopeStack.fresh_name, indexes.shadows,
      indexes.shadows]
    by_cases same : (name == other) = true
    · rw [if_pos same, if_pos same, beq_iff_eq.mp same]
      rfl
    · rw [if_neg same, if_neg same]
  · intro id
    change (table.symbols.insert stack.count (stack.fresh name ty isConst))[id]? =
      (stack.declare name ty isConst).byId? id
    rw [Std.HashMap.getElem?_insert, indexes.symbols, ScopeStack.byId?_eq_find?,
      ScopeStack.byId?_eq_find?]
    change _ = (stack.fresh name ty isConst :: stack.frames.flatten).find? (·.id == id)
    simp only [List.find?_cons, ScopeStack.fresh_id]
    cases stack.count == id <;> rfl
  · exact indexes.funcs
  · rfl

theorem addFunc_none {name : String} (func : φ) (isKnown : (stack.funcs name).isSome = true) :
    table.addFunc name func = none := by
  unfold addFunc
  rw [Std.HashMap.contains_eq_isSome_getElem?, indexes.funcs, if_pos isKnown]

theorem addFunc_some {name : String} (func : φ) (isFree : stack.funcs name = none) :
    ∃ next, table.addFunc name func = some next ∧ next.Indexes (stack.addFunc name func) := by
  unfold addFunc
  rw [Std.HashMap.contains_eq_isSome_getElem?, indexes.funcs, isFree]
  refine ⟨_, rfl, ?_⟩
  constructor
  · exact indexes.inner
  · exact indexes.outer
  · exact indexes.shadows
  · exact indexes.symbols
  · intro other
    change (table.funcs.insert name func)[other]? = if other = name then _ else stack.funcs other
    rw [Std.HashMap.getElem?_insert, indexes.funcs]
    by_cases same : other = name
    · rw [if_pos (beq_iff_eq.mpr same.symm), if_pos same]
    · rw [if_neg (fun isSame => same (beq_iff_eq.mp isSame).symm), if_neg same]
  · exact indexes.nextId

end Indexes

end IndexedTable

end MiniC
