import MiniC.Proofs.Expr.Plain
import MiniC.Proofs.Layout.Judging

/-!
Composite literals and their shapes. A literal is a grid when all that stands at
one depth has as many items as the rest, down to elements that are no literals.
The checker never asks an item for its own shape: it puts together the items of
all literals of a level and goes on with these. On the way it always has a level
with something on it, and it comes to the elements just when there is a grid.
-/

namespace MiniC

namespace Expr

/-- As many items at each depth as the sizes say, the outermost one first, and at
least one. -/
def IsGrid : List Nat → Expr → Prop
  | [], e => e.items? = none
  | size :: sizes, e => ∃ items, e.items? = some items ∧ items.length = size ∧ 1 ≤ size ∧
      ∀ item ∈ items, item.IsGrid sizes

mutual

/-- The elements of a literal at whatever depth, from left to right. -/
def cells : Expr → List Expr
  | composite _ items => cellsOfAll items
  | e => [e]

def cellsOfAll : List Expr → List Expr
  | [] => []
  | e :: rest => e.cells ++ cellsOfAll rest

end

theorem cells_of_none {e : Expr} (single : e.items? = none) : e.cells = [e] := by
  cases e with
  | composite => cases single
  | _ => rfl

theorem cells_of_some {e : Expr} {items : List Expr} (isList : e.items? = some items) :
    e.cells = cellsOfAll items := by
  obtain ⟨pos, rfl⟩ := items?_eq_some_iff.mp isList
  rfl

theorem mem_cellsOfAll {cell : Expr} {level : List Expr} :
    cell ∈ cellsOfAll level ↔ ∃ e ∈ level, cell ∈ e.cells := by
  induction level with
  | nil => simp [cellsOfAll]
  | cons e rest ih => simp [cellsOfAll, ih]

theorem cellsOfAll_append (left right : List Expr) :
    cellsOfAll (left ++ right) = cellsOfAll left ++ cellsOfAll right := by
  induction left with
  | nil => rfl
  | cons e rest ih => rw [List.cons_append, cellsOfAll, cellsOfAll, ih, List.append_assoc]

/-- Elements alone are the cells of their level. -/
theorem cellsOfAll_of_none {level : List Expr} (single : ∀ e ∈ level, e.items? = none) :
    cellsOfAll level = level := by
  induction level with
  | nil => rfl
  | cons e rest ih =>
    obtain ⟨here, later⟩ := List.forall_mem_cons.mp single
    rw [cellsOfAll, cells_of_none here, ih later, List.singleton_append]

/-- The cells stay the same from a level of literals to the one below. -/
theorem cellsOfAll_rows {level : List Expr} (literals : ∀ e ∈ level, e.items?.isSome) :
    cellsOfAll (level.filterMap items?).flatten = cellsOfAll level := by
  induction level with
  | nil => rfl
  | cons e rest ih =>
    obtain ⟨here, later⟩ := List.forall_mem_cons.mp literals
    obtain ⟨items, isList⟩ := Option.isSome_iff_exists.mp here
    rw [List.filterMap_cons_some isList, List.flatten_cons, cellsOfAll_append, ih later, cellsOfAll,
      cells_of_some isList]

/-- What fills an array is a grid with elements of the type of the array. -/
theorem fills_iff_grid {view : View} {leaf : Ty} {sizes : List Nat} {e : Expr} :
    e.Fills view leaf sizes ∧ 0 ∉ sizes ↔
      e.IsGrid sizes ∧ ∀ cell ∈ e.cells, HasType view cell leaf := by
  induction sizes generalizing e with
  | nil =>
    have single (typed : HasType view e leaf) : e.items? = none := by
      cases e with
      | composite => exact nomatch typed
      | _ => rfl
    constructor
    · rintro ⟨typed, _⟩
      rw [cells_of_none (single typed)]
      exact ⟨single typed, List.forall_mem_singleton.mpr typed⟩
    · rintro ⟨isSingle, typed⟩
      rw [cells_of_none isSingle] at typed
      exact ⟨List.forall_mem_singleton.mp typed, List.not_mem_nil⟩
  | cons size sizes ih =>
    constructor
    · rintro ⟨fills, positive⟩
      obtain ⟨someSize, later⟩ := not_or.mp (List.mem_cons.not.mp positive)
      obtain ⟨items, isList, count, inside⟩ := fills.items
      have each (item : Expr) (member : item ∈ items) := ih.mp ⟨inside item member, later⟩
      constructor
      · exact ⟨items, isList, count, Nat.pos_of_ne_zero (Ne.symm someSize),
          fun item member => (each item member).1⟩
      · intro cell isCell
        rw [cells_of_some isList] at isCell
        obtain ⟨item, member, isCell⟩ := mem_cellsOfAll.mp isCell
        exact (each item member).2 cell isCell
    · rintro ⟨⟨items, isList, count, positive, inside⟩, typed⟩
      rw [cells_of_some isList] at typed
      have each (item : Expr) (member : item ∈ items) := ih.mpr
        ⟨inside item member, fun cell isCell => typed cell (mem_cellsOfAll.mpr ⟨item, member, isCell⟩)⟩
      obtain ⟨pos, rfl⟩ := items?_eq_some_iff.mp isList
      constructor
      · exact ⟨count, fun item member => (each item member).1⟩
      · obtain ⟨item, member⟩ := List.exists_mem_of_length_pos (count ▸ positive)
        rw [List.mem_cons, not_or]
        exact ⟨fun none => absurd positive (by omega), (each item member).2⟩

section Levels

variable {level first : List Expr} {others : List (List Expr)}
  (rows : level.filterMap items? = first :: others)

include rows

/-- On a level with a literal, grids have a size. -/
theorem grid_sizes {more : List Nat} (grids : ∀ e ∈ level, e.IsGrid more) :
    ∃ size sizes, more = size :: sizes ∧ ∀ e ∈ level, e.items?.isSome := by
  have isRow : first ∈ level.filterMap items? := rows ▸ List.mem_cons_self
  obtain ⟨e, inLevel, isList⟩ := List.mem_filterMap.mp isRow
  cases more with
  | nil => cases (grids e inLevel).symm.trans isList
  | cons size sizes =>
    refine ⟨size, sizes, rfl, fun other member => ?_⟩
    obtain ⟨items, isItems, _⟩ := grids other member
    rw [isItems]
    rfl

/-- Literals are grids when they have as many items as the first one, and these
are grids on the level below. -/
theorem grids_iff (literals : ∀ e ∈ level, e.items?.isSome) {size : Nat} {sizes : List Nat} :
    (∀ e ∈ level, e.IsGrid (size :: sizes)) ↔
      first.length = size ∧ (∀ items ∈ others, items.length = size) ∧ 1 ≤ size ∧
        ∀ item ∈ (first :: others).flatten, item.IsGrid sizes := by
  rw [← and_assoc]
  have counts : first.length = size ∧ (∀ items ∈ others, items.length = size) ↔
      ∀ items ∈ level.filterMap items?, items.length = size := by
    rw [rows, List.forall_mem_cons]
  rw [counts, ← rows]
  constructor
  · intro grids
    have each (items : List Expr) (isRow : items ∈ level.filterMap items?) :
        items.length = size ∧ 1 ≤ size ∧ ∀ item ∈ items, item.IsGrid sizes := by
      obtain ⟨e, inLevel, isList⟩ := List.mem_filterMap.mp isRow
      obtain ⟨found, isFound, fits⟩ := grids e inLevel
      cases isList.symm.trans isFound
      exact fits
    refine ⟨fun items isRow => (each items isRow).1, ?_, ?_⟩
    · exact (each first (rows ▸ List.mem_cons_self)).2.1
    · intro item member
      obtain ⟨items, isRow, inRow⟩ := List.mem_flatten.mp member
      exact (each items isRow).2.2 item inRow
  · rintro ⟨counts, positive, inside⟩ e inLevel
    obtain ⟨items, isList⟩ := Option.isSome_iff_exists.mp (literals e inLevel)
    have isRow : items ∈ level.filterMap items? := List.mem_filterMap.mpr ⟨e, inLevel, isList⟩
    exact ⟨items, isList, counts items isRow, positive,
      fun item inRow => inside item (List.mem_flatten.mpr ⟨items, isRow, inRow⟩)⟩

/-- The step from a level to the one below it, past rows that are even. -/
theorem grids_below (literals : ∀ e ∈ level, e.items?.isSome)
    (even : ∀ items ∈ others, items.length = first.length) (someItem : first ≠ [])
    {more : List Nat} :
    (∀ e ∈ level, e.IsGrid more) ↔ ∃ inner, more = first.length :: inner ∧
      ∀ item ∈ (first :: others).flatten, item.IsGrid inner := by
  constructor
  · intro grids
    obtain ⟨size, inner, rfl, _⟩ := grid_sizes rows grids
    obtain ⟨rfl, _, _, inside⟩ := (grids_iff rows literals).mp grids
    exact ⟨inner, rfl, inside⟩
  · rintro ⟨inner, rfl, inside⟩
    apply (grids_iff rows literals).mpr
    exact ⟨rfl, even, List.length_pos_iff.mpr someItem, inside⟩

end Levels

end Expr

namespace Shape

open Verdict (reject)

/-- What the way down the levels ends with: a fault of the shape, or the sizes of
the levels passed and the elements on the last one. -/
inductive Outcome where
  | fault (problem : Problem)
  | elements (sizes : List Nat) (level : List Expr)

/-- The items of all literals of a level. -/
def rows (level : List Expr) : List (List Expr) := level.filterMap Expr.items?

/-- The way down alone. There is no way on from a level with nothing on it, which
has no first literal to compare the others with. -/
def descend? (sizes : List Nat) (level : List Expr) : Option Outcome :=
  if (rows level).length = level.length then
    match _ : rows level with
    | [] => none
    | first :: others =>
      if others.any (·.length ≠ first.length) then some (.fault (.unevenRows (sizes.length + 1)))
      else if first.isEmpty then some (.fault .emptyComposite)
      else descend? (sizes ++ [first.length]) (first :: others).flatten
  else if (rows level).isEmpty then some (.elements sizes level)
  else some (.fault (.mixedLevel (sizes.length + 1)))
termination_by Expr.literalsOfAll level
decreasing_by
  rename_i found _ _
  have fewer := literals_next level
  rw [show level.filterMap Expr.items? = _ from found] at fewer
  simp only [List.length_cons] at fewer
  omega

namespace Outcome

/-- The elements are looked at only if there is no fault. -/
def verdict (scope : Scope) (pos : Position) : Outcome → Verdict Ty
  | fault problem => reject pos problem
  | elements sizes level => ofElements scope sizes level

/-- The outcome is right for a level below levels of the given sizes. -/
def IsFor (sizes : List Nat) (level : List Expr) : Outcome → Prop
  | fault problem =>
    problem.kind = .compositeLitSizeError ∧ ∀ more, ¬ ∀ e ∈ level, e.IsGrid more
  | elements passed cells => ∃ more, passed = sizes ++ more ∧ (∀ e ∈ level, e.IsGrid more) ∧
      cells = Expr.cellsOfAll level

end Outcome

section Below

variable {sizes : List Nat} {level first : List Expr} {others : List (List Expr)}
  (found : rows level = first :: others)

include found

/-- What is right for the level below is so for a level of even rows. -/
theorem Outcome.IsFor.up {outcome : Outcome}
    (isFor : outcome.IsFor (sizes ++ [first.length]) (first :: others).flatten)
    (literals : ∀ e ∈ level, e.items?.isSome)
    (even : ∀ items ∈ others, items.length = first.length) (someItem : first ≠ []) :
    outcome.IsFor sizes level := by
  cases outcome with
  | fault problem =>
    obtain ⟨kind, noGrid⟩ := isFor
    refine ⟨kind, fun more grids => ?_⟩
    obtain ⟨inner, _, inside⟩ := (Expr.grids_below found literals even someItem).mp grids
    exact noGrid inner inside
  | elements passed cells =>
    obtain ⟨inner, rfl, inside, rfl⟩ := isFor
    refine ⟨first.length :: inner, ?_, ?_, ?_⟩
    · rw [List.append_assoc, List.singleton_append]
    · exact (Expr.grids_below found literals even someItem).mpr ⟨inner, rfl, inside⟩
    · rw [← Expr.cellsOfAll_rows literals]
      exact congrArg (fun rows => Expr.cellsOfAll rows.flatten) found.symm

/-- Rows of different lengths are no grid. -/
theorem no_grid_of_uneven (uneven : others.any (·.length ≠ first.length) = true)
    (more : List Nat) : ¬ ∀ e ∈ level, e.IsGrid more := by
  intro grids
  obtain ⟨size, inner, rfl, literals⟩ := Expr.grid_sizes found grids
  obtain ⟨rfl, counts, _⟩ := (Expr.grids_iff found literals).mp grids
  exact even_iff.mpr counts uneven

/-- Rows without items are none either. -/
theorem no_grid_of_isEmpty (isEmpty : first.isEmpty = true) (more : List Nat) :
    ¬ ∀ e ∈ level, e.IsGrid more := by
  intro grids
  obtain ⟨size, inner, rfl, literals⟩ := Expr.grid_sizes found grids
  obtain ⟨count, _, positive, _⟩ := (Expr.grids_iff found literals).mp grids
  rw [List.isEmpty_iff.mp isEmpty, List.length_nil] at count
  omega

end Below

theorem literals_of_length {level : List Expr} (all : (rows level).length = level.length) :
    ∀ e ∈ level, e.items?.isSome :=
  List.filterMap_length_eq_length.mp all

/-- The way down from a level with something on it ends, and is the way that the
literal's type is found. -/
theorem descend?_spec (sizes : List Nat) {level : List Expr} (nonempty : level ≠ []) :
    ∃ outcome, descend? sizes level = some outcome ∧ outcome.IsFor sizes level ∧
      ∀ scope pos, ofLevel scope pos sizes level = outcome.verdict scope pos := by
  fun_induction descend? sizes level with
  | case1 sizes level all noRows =>
    -- there is something on the level, so it has rows if all on it are rows
    rw [noRows] at all
    exact absurd (List.length_eq_zero_iff.mp all.symm) nonempty
  | case2 sizes level all first others found uneven =>
    refine ⟨_, rfl, ⟨rfl, no_grid_of_uneven found uneven⟩, fun scope pos => ?_⟩
    rw [ofLevel_cons scope pos sizes found, if_neg (by rw [← all, found]; simp), if_pos uneven]
    rfl
  | case3 sizes level all first others found even isEmpty =>
    refine ⟨_, rfl, ⟨rfl, no_grid_of_isEmpty found isEmpty⟩, fun scope pos => ?_⟩
    rw [ofLevel_cons scope pos sizes found, if_neg (by rw [← all, found]; simp), if_neg even,
      if_pos isEmpty]
    rfl
  | case4 sizes level all first others found even someItem ih =>
    have someFirst : first ≠ [] := fun none => someItem (List.isEmpty_iff.mpr none)
    obtain ⟨outcome, ends, isFor, same⟩ := ih (by simp [someFirst])
    refine ⟨outcome, ends, ?_, fun scope pos => ?_⟩
    · exact isFor.up found (literals_of_length all) (even_iff.mp even) someFirst
    · rw [ofLevel_cons scope pos sizes found, if_neg (by rw [← all, found]; simp), if_neg even,
        if_neg someItem, Verdict.visit_eq, same]
  | case5 sizes level notAll noRows =>
    have none : level.filterMap Expr.items? = [] := List.isEmpty_iff.mp noRows
    have single := List.filterMap_eq_nil_iff.mp none
    refine ⟨_, rfl, ⟨[], by rw [List.append_nil], single, ?_⟩, fun scope pos => ?_⟩
    · exact (Expr.cellsOfAll_of_none single).symm
    · exact ofLevel_nil scope pos sizes none
  | case6 sizes level notAll someRow =>
    have some : rows level ≠ [] := fun none => someRow (List.isEmpty_iff.mpr none)
    obtain ⟨first, others, found⟩ := List.exists_cons_of_ne_nil some
    refine ⟨_, rfl, ⟨rfl, fun more grids => ?_⟩, fun scope pos => ?_⟩
    · obtain ⟨size, inner, rfl, literals⟩ := Expr.grid_sizes found grids
      exact notAll (List.filterMap_length_eq_length.mpr literals)
    · have fewer : others.length + 1 < level.length := by
        have atMost := List.length_filterMap_le Expr.items? level
        have counted : (rows level).length = others.length + 1 := by rw [found, List.length_cons]
        change (rows level).length ≤ level.length at atMost
        omega
      rw [ofLevel_cons scope pos sizes found, if_pos fewer]
      rfl

section Elements

open Verdict (isSilent_bind_iff value_bind isSilent_pure)

variable {scope : Scope}

/-- After an element that is good as well nothing has been said. -/
theorem addElement_good {sofar : Elements} {pos : Position} {found : Ty}
    (good : (addElement sofar pos found).value.areGood = true) :
    found ≠ .invalid ∧ (addElement sofar pos found).IsSilent ∧ sofar.areGood = true := by
  unfold addElement at good ⊢
  by_cases invalid : found.isInvalid = true
  · rw [if_pos invalid] at good
    cases good
  · rw [if_neg invalid] at good ⊢
    refine ⟨Ty.isInvalid_iff.not.mp invalid, ?_⟩
    by_cases basic : found.isBasic = true
    · rw [if_neg (by simp [basic])] at good ⊢
      cases isLeaf : sofar.leaf with
      | none =>
        rw [isLeaf] at good
        exact ⟨isSilent_pure _, good⟩
      | some first =>
        rw [isLeaf] at good
        by_cases same : first = found
        · simp only [if_pos same] at good ⊢
          exact ⟨isSilent_pure _, good⟩
        · simp only [if_neg same] at good
          cases good
    · rw [if_pos (by simp [basic])] at good
      cases good

/-- If all elements were good, nothing has been said about any of them. -/
theorem addElements_good {sofar : Elements} {level : List Expr}
    (strict : ∀ e ∈ level, (e.type scope).IsStrict)
    (good : (addElements scope sofar level).value.areGood = true) :
    (addElements scope sofar level).IsSilent ∧ sofar.areGood = true := by
  induction level generalizing sofar with
  | nil => exact ⟨isSilent_pure _, good⟩
  | cons e rest ih =>
    obtain ⟨here, later⟩ := List.forall_mem_cons.mp strict
    obtain ⟨silentRest, nextGood⟩ := ih later good
    obtain ⟨valid, added, sofarGood⟩ := addElement_good nextGood
    have silent : (e.type scope).IsSilent := Classical.byContradiction fun found => valid (here found)
    exact ⟨isSilent_bind_iff.mpr ⟨silent, isSilent_bind_iff.mpr ⟨added, silentRest⟩⟩, sofarGood⟩

theorem ofElements_isStrict (sizes : List Nat) {level : List Expr}
    (strict : ∀ e ∈ level, (e.type scope).IsStrict) :
    (ofElements scope sizes level).IsStrict := by
  intro reported
  rw [ofElements, value_bind]
  cases isLeaf : (addElements scope ⟨none, true⟩ level).value.leaf with
  | none => rfl
  | some leaf =>
    apply if_neg
    intro good
    apply reported
    apply isSilent_bind_iff.mpr ⟨(addElements_good strict good).1, ?_⟩
    rw [isLeaf]
    exact isSilent_pure _

end Elements

end Shape

namespace Expr

mutual

/-- The cells of what is plain are plain, and no literals of their own. -/
theorem IsPlain.cells {cell : Expr} : (e : Expr) → e.IsPlain → cell ∈ e.cells →
    cell.IsPlain ∧ cell.items? = none
  | composite _ items, plain, isCell => AllPlain.cells items plain isCell
  | ident _ _, plain, isCell | lit _ _ _, plain, isCell | unary _ _ _, plain, isCell => by
    rw [List.mem_singleton.mp isCell]
    exact ⟨plain, rfl⟩

theorem AllPlain.cells {cell : Expr} : (es : List Expr) → AllPlain es → cell ∈ cellsOfAll es →
    cell.IsPlain ∧ cell.items? = none
  | e :: rest, ⟨plain, later⟩, isCell =>
    (List.mem_append.mp isCell).elim (IsPlain.cells e plain) (AllPlain.cells rest later)

end

end Expr

theorem Verdict.eq_silent_iff {v : Verdict Ty} {ty : Ty} :
    v = ⟨ty, []⟩ ↔ v.IsSilent ∧ v.value = ty := by
  constructor
  · rintro rfl
    exact ⟨rfl, rfl⟩
  · obtain ⟨value, problems⟩ := v
    rintro ⟨silent, rfl⟩
    exact congrArg (Verdict.mk value) silent

section Literal

variable {scope : Scope} {view : View} {literal : Expr}

/-- Nothing is wrong with a cell that has a type. -/
theorem cell_typed_iff (shows : Shows scope view) (plain : literal.IsPlain) {cell : Expr}
    (isCell : cell ∈ literal.cells) (leaf : Ty) :
    HasType view cell leaf ↔ cell.type scope = ⟨leaf, []⟩ := by
  rw [Verdict.eq_silent_iff]
  exact (type_decides shows ((plain.cells _ isCell).1).noBad).found_iff leaf

/-- A literal of which something is said is left without a type. -/
theorem compositeType_isStrict (plain : literal.IsPlain) :
    (literal.compositeType scope).IsStrict := by
  obtain ⟨outcome, _, isFor, same⟩ := Shape.descend?_spec [] (List.cons_ne_nil literal [])
  unfold Expr.compositeType
  rw [same]
  cases outcome with
  | fault problem => exact .reject _ _
  | elements sizes cells =>
    obtain ⟨_, _, _, rfl⟩ := isFor
    apply Shape.ofElements_isStrict
    intro cell isCell
    rw [Expr.cellsOfAll, Expr.cellsOfAll, List.append_nil] at isCell
    obtain ⟨isPlain, single⟩ := plain.cells _ isCell
    exact isPlain.type_isStrict single

theorem compositeType_eq_iff (shows : Shows scope view) (plain : literal.IsPlain) {leaf : Ty}
    (basic : leaf.isBasic = true) (sizes : List Nat) :
    literal.compositeType scope = ⟨.arrayOf leaf sizes, []⟩ ↔
      literal.IsGrid sizes ∧ ∀ cell ∈ literal.cells, cell.type scope = ⟨leaf, []⟩ := by
  have decides := ofLevel_decides shows literal.pos [] (List.cons_ne_nil literal [])
    (List.forall_mem_singleton.mpr plain.noBad)
  rw [Verdict.eq_silent_iff, Expr.compositeType, ← decides.found_iff]
  calc
    _ ↔ literal.Fills view leaf sizes ∧ 0 ∉ sizes := by
      constructor
      · rintro ⟨found, more, same, isBasic, positive, fills⟩
        obtain ⟨rfl, rfl⟩ := Ty.arrayOf_inj basic isBasic same
        exact ⟨List.forall_mem_singleton.mp fills, positive⟩
      · rintro ⟨fills, positive⟩
        exact ⟨leaf, sizes, rfl, basic, positive, List.forall_mem_singleton.mpr fills⟩
    _ ↔ literal.IsGrid sizes ∧ ∀ cell ∈ literal.cells, HasType view cell leaf :=
      Expr.fills_iff_grid
    _ ↔ _ := by
      apply and_congr_right
      intro _
      exact forall₂_congr fun cell isCell => cell_typed_iff shows plain isCell leaf

/-- Without a problem there is an array with basic elements. -/
theorem compositeType_cases (shows : Shows scope view) (plain : literal.IsPlain) :
    (∃ leaf sizes, leaf.isBasic = true ∧
        literal.compositeType scope = ⟨.arrayOf leaf sizes, []⟩) ∨
      (literal.compositeType scope).problems ≠ [] ∧
        (literal.compositeType scope).value = .invalid := by
  have decides := ofLevel_decides shows literal.pos [] (List.cons_ne_nil literal [])
    (List.forall_mem_singleton.mpr plain.noBad)
  by_cases silent : (literal.compositeType scope).IsSilent
  · left
    obtain ⟨leaf, sizes, same, basic, _⟩ := (decides.found_iff _).mpr ⟨silent, rfl⟩
    exact ⟨leaf, sizes, basic, Verdict.eq_silent_iff.mpr ⟨silent, same⟩⟩
  · right
    exact ⟨silent, compositeType_isStrict plain silent⟩

/-- What is no grid is reported once, at the literal, whatever is in scope. -/
theorem compositeType_of_no_grid (noGrid : ∀ sizes, ¬ literal.IsGrid sizes) :
    ∃ problem : Problem, problem.kind = .compositeLitSizeError ∧
      ∀ any, literal.compositeType any = Verdict.reject literal.pos problem := by
  obtain ⟨outcome, _, isFor, same⟩ := Shape.descend?_spec [] (List.cons_ne_nil literal [])
  cases outcome with
  | fault problem => exact ⟨problem, isFor.1, fun any => same any literal.pos⟩
  | elements sizes cells =>
    obtain ⟨more, _, grids, _⟩ := isFor
    exact absurd (List.forall_mem_singleton.mp grids) (noGrid more)

theorem checkInit_of_literal (shows : Shows scope view) (isList : literal.items?.isSome)
    (plain : literal.IsPlain) {declared : Ty} (isArray : declared.isArray = true) :
    (checkInit declared literal scope).problems = [] ↔
      (literal.compositeType scope).value = declared := by
  obtain ⟨items, isItems⟩ := Option.isSome_iff_exists.mp isList
  obtain ⟨pos, rfl⟩ := Expr.items?_eq_some_iff.mp isItems
  have decides := ofLevel_decides shows pos [] (List.cons_ne_nil (.composite pos items) [])
    (List.forall_mem_singleton.mpr plain.noBad)
  rw [checkInit, if_pos isArray]
  refine (decides.isSilent_expect_iff.trans (decides.found_iff declared)).trans ?_
  apply and_iff_right_of_imp
  intro same
  apply Classical.byContradiction
  intro reported
  have invalid := same.symm.trans (compositeType_isStrict plain reported)
  rw [invalid] at isArray
  cases isArray

end Literal

end MiniC
