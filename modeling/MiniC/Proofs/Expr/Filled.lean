import MiniC.Stmt.Check
import MiniC.Proofs.Expr.Typing
import MiniC.Proofs.Static.Rules

/-!
The type found for a composite literal is that of the arrays that it fills. The
checker looks at whole levels of a literal at once, while an array is filled
row by row; the induction is on the levels, and says of all expressions of a
level that they fill arrays of the same sizes.
-/

namespace MiniC

open Verdict

namespace Ty

theorem ne_invalid_of_isBasic {ty : Ty} (basic : ty.isBasic = true) : ty ≠ .invalid := by
  rintro rfl
  simp [isBasic] at basic

theorem arrayOf_ne_invalid {leaf : Ty} (valid : leaf ≠ .invalid) (sizes : List Nat) :
    arrayOf leaf sizes ≠ .invalid := by
  cases sizes with
  | nil => exact valid
  | cons size rest => exact nofun

theorem arrayOf_inj {leaf other : Ty} (basic : leaf.isBasic = true) (otherBasic : other.isBasic = true)
    {sizes others : List Nat} (same : arrayOf leaf sizes = arrayOf other others) :
    leaf = other ∧ sizes = others := by
  have noArray (ty : Ty) : ty.isBasic = true → ty.isArray = false ∧ ty.leaf = ty := by
    cases ty <;> simp [isBasic, isArray, Ty.leaf]
  obtain ⟨flat, isLeaf⟩ := noArray leaf basic
  obtain ⟨otherFlat, otherLeaf⟩ := noArray other otherBasic
  constructor
  · rw [← isLeaf, ← otherLeaf, ← leaf_arrayOf leaf sizes, same, leaf_arrayOf]
  · rw [← sizes_arrayOf sizes flat, same, sizes_arrayOf others otherFlat]

end Ty

theorem Expr.items?_eq_some_iff {e : Expr} {items : List Expr} :
    e.items? = some items ↔ ∃ pos, e = .composite pos items := by
  cases e <;> simp [Expr.items?]

theorem Expr.allNoBad_iff (es : List Expr) : AllNoBad es ↔ ∀ e ∈ es, e.NoBad := by
  induction es with
  | nil => simp [AllNoBad]
  | cons e rest ih => simp [AllNoBad, ih]

section Elements

variable {scope : Scope} {view : View}

/-- An element behind a good one. -/
theorem addElement_spec (pos : Position) {leaf found : Ty} (basic : leaf.isBasic = true)
    (valid : found ≠ .invalid) :
    ((Shape.addElement ⟨some leaf, true⟩ pos found).IsSilent ↔ found = leaf) ∧
      ((Shape.addElement ⟨some leaf, true⟩ pos found).IsSilent →
        (Shape.addElement ⟨some leaf, true⟩ pos found).value = ⟨some leaf, true⟩) := by
  unfold Shape.addElement
  rw [if_neg (by rwa [Ty.isInvalid_iff])]
  by_cases isBasic : found.isBasic = true
  · rw [if_neg (by simp [isBasic])]
    by_cases same : leaf = found
    · simp [same, isSilent_pure]
      rfl
    · simp [same, Ne.symm same, isSilent_bind_iff, not_isSilent_report]
  · have differs : found ≠ leaf := fun same => isBasic (same ▸ basic)
    rw [if_pos (by simpa using isBasic)]
    simp [differs, isSilent_bind_iff, not_isSilent_report]

theorem addFirst_spec (pos : Position) {found : Ty} (valid : found ≠ .invalid) :
    ((Shape.addElement ⟨none, true⟩ pos found).IsSilent ↔ found.isBasic = true) ∧
      ((Shape.addElement ⟨none, true⟩ pos found).IsSilent →
        (Shape.addElement ⟨none, true⟩ pos found).value = ⟨some found, true⟩) := by
  unfold Shape.addElement
  rw [if_neg (by rwa [Ty.isInvalid_iff])]
  by_cases isBasic : found.isBasic = true
  · simp [isBasic, isSilent_pure]
    rfl
  · rw [if_pos (by simpa using isBasic)]
    simp [isBasic, isSilent_bind_iff, not_isSilent_report]

/-- Elements behind a good one are silent if they have its type. -/
theorem addElements_spec (shows : Shows scope view) {leaf : Ty} (basic : leaf.isBasic = true)
    {level : List Expr} (noBad : ∀ e ∈ level, e.NoBad) :
    ((Shape.addElements scope ⟨some leaf, true⟩ level).IsSilent ↔
        ∀ e ∈ level, HasType view e leaf) ∧
      ((Shape.addElements scope ⟨some leaf, true⟩ level).IsSilent →
        (Shape.addElements scope ⟨some leaf, true⟩ level).value = ⟨some leaf, true⟩) := by
  induction level with
  | nil => exact ⟨iff_of_true (isSilent_pure _) nofun, fun _ => rfl⟩
  | cons e rest ih =>
    obtain ⟨good, later⟩ := List.forall_mem_cons.mp noBad
    have decides := type_decides shows good
    obtain ⟨silentRest, valueRest⟩ := ih later
    have step (ty : Ty) (typed : HasType view e ty) :=
      addElement_spec e.pos basic (decides.ne_invalid typed)
    simp only [Shape.addElements, Verdict.lift_self]
    constructor
    · rw [decides.isSilent_bind_iff, List.forall_mem_cons, ← silentRest]
      constructor
      · rintro ⟨ty, typed, silent⟩
        obtain ⟨here, silent⟩ := isSilent_bind_iff.mp silent
        obtain ⟨same, value⟩ := step ty typed
        rw [value here] at silent
        exact ⟨same.mp here ▸ typed, silent⟩
      · rintro ⟨typed, silent⟩
        obtain ⟨same, value⟩ := step leaf typed
        have here := same.mpr rfl
        refine ⟨leaf, typed, isSilent_bind_iff.mpr ⟨here, ?_⟩⟩
        rwa [value here]
    · intro silent
      obtain ⟨found, silent⟩ := isSilent_bind_iff.mp silent
      obtain ⟨here, silent⟩ := isSilent_bind_iff.mp silent
      have typed := (decides.found_iff _).mpr ⟨found, rfl⟩
      rw [value_bind, value_bind]
      rw [(step _ typed).2 here] at silent ⊢
      exact valueRest silent

/-- The innermost level holds elements of one basic type. -/
theorem ofElements_decides (shows : Shows scope view) (sizes : List Nat) {level : List Expr}
    (nonempty : level ≠ []) (noBad : ∀ e ∈ level, e.NoBad) :
    (Shape.ofElements scope sizes level : Verdict Ty).Decides fun ty => ∃ leaf, ty = .arrayOf leaf sizes ∧
      leaf.isBasic = true ∧ ∀ e ∈ level, HasType view e leaf := by
  obtain ⟨e, rest, rfl⟩ := List.exists_cons_of_ne_nil nonempty
  obtain ⟨good, later⟩ := List.forall_mem_cons.mp noBad
  have decides := type_decides shows good
  -- the first element sets the type that the others have to have
  have first {ty : Ty} (typed : HasType view e ty) :=
    addFirst_spec e.pos (decides.ne_invalid typed)
  have silent_iff : (Shape.addElements scope ⟨none, true⟩ (e :: rest)).IsSilent ↔
      ∃ leaf, leaf.isBasic = true ∧ ∀ e' ∈ e :: rest, HasType view e' leaf := by
    simp only [Shape.addElements, Verdict.lift_self]
    rw [decides.isSilent_bind_iff]
    apply exists_congr
    intro ty
    rw [List.forall_mem_cons, isSilent_bind_iff, and_left_comm (a := ty.isBasic = true)]
    apply and_congr_right
    intro typed
    obtain ⟨isBasic, value⟩ := first typed
    rw [← isBasic]
    apply and_congr_right
    intro here
    rw [value here]
    exact (addElements_spec shows (isBasic.mp here) later).1
  have value_eq (leaf : Ty) (basic : leaf.isBasic = true)
      (typed : ∀ e' ∈ e :: rest, HasType view e' leaf) :
      (Shape.addElements scope ⟨none, true⟩ (e :: rest)).value = ⟨some leaf, true⟩ := by
    obtain ⟨typedFirst, typedRest⟩ := List.forall_mem_cons.mp typed
    obtain ⟨silentRest, valueRest⟩ := addElements_spec shows basic later
    obtain ⟨isBasic, value⟩ := first typedFirst
    simp only [Shape.addElements, Verdict.lift_self]
    rw [value_bind, value_bind, decides.value_eq typedFirst, value (isBasic.mpr basic)]
    exact valueRest (silentRest.mpr typedRest)
  constructor
  · intro ty
    rw [Shape.ofElements, isSilent_bind_iff, value_bind, silent_iff]
    constructor
    · rintro ⟨leaf, rfl, basic, typed⟩
      rw [value_eq leaf basic typed]
      exact ⟨⟨⟨leaf, basic, typed⟩, isSilent_pure _⟩, rfl⟩
    · rintro ⟨⟨⟨leaf, basic, typed⟩, _⟩, found⟩
      rw [value_eq leaf basic typed] at found
      exact ⟨leaf, found.symm, basic, typed⟩
  · rintro ⟨leaf, isInvalid, basic, _⟩
    exact Ty.arrayOf_ne_invalid (Ty.ne_invalid_of_isBasic basic) sizes isInvalid.symm

end Elements

namespace Expr

variable {view : View} {leaf : Ty}

theorem Fills.items {size : Nat} {sizes : List Nat} {e : Expr}
    (fills : e.Fills view leaf (size :: sizes)) : ∃ items, e.items? = some items ∧
      items.length = size ∧ ∀ item ∈ items, item.Fills view leaf sizes := by
  cases e with
  | composite pos items => exact ⟨items, rfl, fills⟩
  | _ => exact fills.elim

/-- Literals fill rows when there are as many items in each, and those fill
what is inside. -/
theorem fill_iff {size : Nat} {sizes : List Nat} {level : List Expr}
    (literals : ∀ e ∈ level, e.items?.isSome) :
    (∀ e ∈ level, e.Fills view leaf (size :: sizes)) ↔
      (∀ items ∈ level.filterMap items?, items.length = size) ∧
        ∀ item ∈ (level.filterMap items?).flatten, item.Fills view leaf sizes := by
  constructor
  · intro fills
    constructor
    · intro items member
      obtain ⟨e, inLevel, isItems⟩ := List.mem_filterMap.mp member
      obtain ⟨found, isFound, count, _⟩ := (fills e inLevel).items
      rw [isItems, Option.some.injEq] at isFound
      exact isFound ▸ count
    · intro item member
      obtain ⟨items, isRow, inRow⟩ := List.mem_flatten.mp member
      obtain ⟨e, inLevel, isItems⟩ := List.mem_filterMap.mp isRow
      obtain ⟨found, isFound, _, inside⟩ := (fills e inLevel).items
      rw [isItems, Option.some.injEq] at isFound
      exact inside item (isFound ▸ inRow)
  · rintro ⟨counts, inside⟩ e inLevel
    obtain ⟨items, isItems⟩ := Option.isSome_iff_exists.mp (literals e inLevel)
    have isRow : items ∈ level.filterMap items? := List.mem_filterMap.mpr ⟨e, inLevel, isItems⟩
    obtain ⟨pos, rfl⟩ := items?_eq_some_iff.mp isItems
    constructor
    · exact counts items isRow
    · exact fun item inRow => inside item (List.mem_flatten.mpr ⟨items, isRow, inRow⟩)

/-- Expressions that fill the same array are literals as soon as one is. -/
theorem fill_nested {more : List Nat} {level : List Expr} {items : List Expr}
    (isRow : items ∈ level.filterMap items?) (fills : ∀ e ∈ level, e.Fills view leaf more) :
    ∃ size sizes, more = size :: sizes ∧ ∀ e ∈ level, e.items?.isSome := by
  obtain ⟨e, inLevel, isItems⟩ := List.mem_filterMap.mp isRow
  cases more with
  | nil =>
    obtain ⟨pos, rfl⟩ := items?_eq_some_iff.mp isItems
    exact nomatch fills _ inLevel
  | cons size sizes =>
    refine ⟨size, sizes, rfl, fun other member => ?_⟩
    obtain ⟨found, isFound, _⟩ := (fills other member).items
    rw [isFound]
    rfl

/-- Expressions that fill an array, one of them a literal, are literals with as many items
each, and with some if no size is 0. -/
theorem fill_rows {level first : List Expr} {others : List (List Expr)}
    (rows : level.filterMap items? = first :: others) {more : List Nat}
    (fills : ∀ e ∈ level, e.Fills view leaf more) :
    others.length + 1 = level.length ∧ (∀ items ∈ others, items.length = first.length) ∧
      (0 ∉ more → first ≠ []) := by
  obtain ⟨size, sizes, rfl, literals⟩ := fill_nested (rows ▸ List.mem_cons_self) fills
  have count := List.filterMap_length_eq_length.mpr literals
  obtain ⟨counts, _⟩ := (fill_iff literals).mp fills
  rw [rows, List.length_cons] at count
  rw [rows, List.forall_mem_cons] at counts
  obtain ⟨rfl, even⟩ := counts
  refine ⟨count, even, ?_⟩
  rintro positive rfl
  exact positive List.mem_cons_self

/-- Literals with as many items each as the first one, which has some, fill an array
when their items fill the inner one. -/
theorem fill_below {level first : List Expr} {others : List (List Expr)}
    (rows : level.filterMap items? = first :: others) (literals : ∀ e ∈ level, e.items?.isSome)
    (even : ∀ items ∈ others, items.length = first.length) (someItem : first ≠ [])
    {more : List Nat} :
    (0 ∉ more ∧ ∀ e ∈ level, e.Fills view leaf more) ↔
      ∃ inner, more = first.length :: inner ∧ 0 ∉ inner ∧
        ∀ item ∈ (first :: others).flatten, item.Fills view leaf inner := by
  have isRow : first ∈ level.filterMap items? := rows ▸ List.mem_cons_self
  constructor
  · rintro ⟨positive, fills⟩
    obtain ⟨size, inner, rfl, _⟩ := fill_nested isRow fills
    obtain ⟨counts, inside⟩ := (fill_iff literals).mp fills
    rw [rows] at inside
    have same : first.length = size := counts first isRow
    exact ⟨inner, by rw [same], fun isZero => positive (List.mem_cons_of_mem _ isZero), inside⟩
  · rintro ⟨inner, rfl, positive, inside⟩
    constructor
    · rw [List.mem_cons, not_or]
      exact ⟨fun none => someItem (List.length_eq_zero_iff.mp none.symm), positive⟩
    · rw [fill_iff literals, rows, List.forall_mem_cons]
      exact ⟨⟨rfl, even⟩, inside⟩

theorem noBad_below {level : List Expr} {rows : List (List Expr)} (noBad : ∀ e ∈ level, e.NoBad)
    (areRows : level.filterMap items? = rows) : ∀ item ∈ rows.flatten, item.NoBad := by
  intro item member
  obtain ⟨items, isRow, inRow⟩ := List.mem_flatten.mp member
  rw [← areRows] at isRow
  obtain ⟨e, inLevel, isItems⟩ := List.mem_filterMap.mp isRow
  obtain ⟨pos, rfl⟩ := items?_eq_some_iff.mp isItems
  exact (allNoBad_iff items).mp (noBad _ inLevel) item inRow

end Expr

section Levels

variable {scope : Scope} {view : View}

theorem Shape.even_iff {others : List (List Expr)} {size : Nat} :
    ¬ others.any (·.length ≠ size) = true ↔ ∀ items ∈ others, items.length = size := by
  simp

/-- A level of a literal, below levels of the given sizes. -/
theorem ofLevel_decides (shows : Shows scope view) (pos : Position) (sizes : List Nat)
    {level : List Expr} (nonempty : level ≠ []) (noBad : ∀ e ∈ level, e.NoBad) :
    (Shape.ofLevel scope pos sizes level : Verdict Ty).Decides fun ty => ∃ leaf more,
      ty = .arrayOf leaf (sizes ++ more) ∧ leaf.isBasic = true ∧ 0 ∉ more ∧
        ∀ e ∈ level, e.Fills view leaf more := by
  fun_induction (Shape.ofLevel scope pos sizes level : Verdict Ty) with
  | case1 sizes level noRows =>
    -- what fills an array with sizes is a literal, and there is none on this level
    have notLiteral : ∀ e ∈ level, e.items? = none := List.filterMap_eq_nil_iff.mp noRows
    apply (ofElements_decides shows sizes nonempty noBad).congr
    intro ty
    apply exists_congr
    intro leaf
    constructor
    · rintro ⟨more, rfl, basic, _, fills⟩
      cases more with
      | nil => exact ⟨by rw [List.append_nil], basic, fills⟩
      | cons size more =>
        obtain ⟨e, member⟩ := List.exists_mem_of_ne_nil _ nonempty
        obtain ⟨items, isItems, _⟩ := (fills e member).items
        simp [notLiteral e member] at isItems
    · rintro ⟨rfl, basic, typed⟩
      exact ⟨[], by rw [List.append_nil], basic, List.not_mem_nil, typed⟩
  | case2 sizes level first others rows ih =>
    rw [Verdict.visit_eq]
    -- each of the three ways to be refused is one not to fill any array
    by_cases fewer : others.length + 1 < level.length
    · rw [if_pos fewer]
      apply decides_of_not_silent (not_isSilent_reject _ _)
      rintro ty ⟨leaf, more, _, _, _, fills⟩
      have count := (Expr.fill_rows rows fills).1
      omega
    rw [if_neg fewer]
    by_cases uneven : others.any (·.length ≠ first.length) = true
    · rw [if_pos uneven]
      apply decides_of_not_silent (not_isSilent_reject _ _)
      rintro ty ⟨leaf, more, _, _, _, fills⟩
      exact Shape.even_iff.mpr (Expr.fill_rows rows fills).2.1 uneven
    rw [if_neg uneven]
    by_cases isEmpty : first.isEmpty = true
    · rw [if_pos isEmpty]
      apply decides_of_not_silent (not_isSilent_reject _ _)
      rintro ty ⟨leaf, more, _, _, positive, fills⟩
      exact (Expr.fill_rows rows fills).2.2 positive (List.isEmpty_iff.mp isEmpty)
    rw [if_neg isEmpty]
    -- what is left is a level of rows, and the items of all of them are the next level
    have literals : ∀ e ∈ level, e.items?.isSome := by
      apply List.filterMap_length_eq_length.mp
      have atMost := List.length_filterMap_le Expr.items? level
      rw [rows, List.length_cons] at atMost ⊢
      omega
    have someItem : first ≠ [] := fun none => isEmpty (List.isEmpty_iff.mpr none)
    have evenRows := Shape.even_iff.mp uneven
    have below : (first :: others).flatten ≠ [] := by simp [someItem]
    apply (ih below (Expr.noBad_below noBad rows)).congr
    intro ty
    apply exists_congr
    intro leaf
    constructor
    · rintro ⟨more, rfl, basic, positive, fills⟩
      obtain ⟨inner, rfl, positive, inside⟩ :=
        (Expr.fill_below rows literals evenRows someItem).mp ⟨positive, fills⟩
      exact ⟨inner, by rw [List.append_assoc, List.singleton_append], basic, positive, inside⟩
    · rintro ⟨inner, rfl, basic, positive, inside⟩
      obtain ⟨positive, fills⟩ :=
        (Expr.fill_below rows literals evenRows someItem).mpr ⟨inner, rfl, positive, inside⟩
      refine ⟨first.length :: inner, ?_, basic, positive, fills⟩
      rw [List.append_assoc, List.singleton_append]

end Levels

namespace Expr

mutual

theorem IsItem.noBad : (e : Expr) → e.IsItem → e.NoBad
  | ident _ _, _ | lit _ _ _, _ => by simp only [NoBad]
  | composite _ items, areItems => AllItems.noBad items areItems
  | unary _ _ operand, signable => by
    rw [NoBad]
    cases operand with
    | ident | lit => simp only [NoBad]
    | _ => exact signable.elim

theorem AllItems.noBad : (es : List Expr) → AllItems es → AllNoBad es
  | [], _ => trivial
  | e :: rest, ⟨isItem, later⟩ => ⟨IsItem.noBad e isItem, AllItems.noBad rest later⟩

end

theorem IsInitializer.noBad {e : Expr} (isInit : e.IsInitializer) : e.NoBad := by
  cases e with
  | composite pos items => exact AllItems.noBad items isInit
  | _ => exact Grammatical.noBad _ isInit

end Expr

section Init

variable {scope : Scope} {view : View} {base : Ty} {init : Expr}

theorem checkScalarInit_isSilent_iff (shows : Shows scope view) (declared : Ty)
    (noBad : init.NoBad) :
    (checkScalarInit scope declared init).IsSilent ↔ HasType view init declared := by
  cases init with
  | composite pos items => exact iff_of_false (not_isSilent_report _ _) nofun
  | _ => exact (type_decides shows noBad).isSilent_expect_iff

theorem checkArrayInit_isSilent_iff (shows : Shows scope view) (basic : base.isBasic = true)
    (size : Nat) (sizes : List Nat) (noBad : init.NoBad) :
    (checkArrayInit scope (.arrayOf base (size :: sizes)) init).IsSilent ↔
      init.Fills view base (size :: sizes) ∧ 0 ∉ size :: sizes := by
  cases init with
  | composite pos items =>
    have decides := ofLevel_decides shows pos [] (List.cons_ne_nil _ [])
      (List.forall_mem_singleton.mpr noBad)
    refine decides.isSilent_expect_iff.trans ?_
    constructor
    · rintro ⟨leaf, more, same, isBasic, positive, fills⟩
      obtain ⟨rfl, rfl⟩ := Ty.arrayOf_inj basic isBasic same
      exact ⟨List.forall_mem_singleton.mp fills, positive⟩
    · rintro ⟨fills, positive⟩
      exact ⟨base, size :: sizes, rfl, basic, positive, List.forall_mem_singleton.mpr fills⟩
  | _ =>
    apply iff_of_false
    · exact fun silent => not_isSilent_report _ _ (isSilent_bind_iff.mp silent).2
    · exact fun filled => filled.1.elim

/-- An initial value is accepted when it fills the variable, and there is
something to fill. -/
theorem checkInit_isSilent_iff (shows : Shows scope view) (basic : base.isBasic = true)
    (sizes : List Nat) (isInit : init.IsInitializer) :
    (checkInit (.arrayOf base sizes) init scope).IsSilent ↔
      init.Fills view base sizes ∧ 0 ∉ sizes := by
  unfold checkInit
  cases sizes with
  | nil =>
    have flat : (Ty.arrayOf base []).isArray = false := by
      cases base <;> first | rfl | simp [Ty.isBasic] at basic
    rw [if_neg (by simp [flat]), checkScalarInit_isSilent_iff shows _ isInit.noBad]
    exact (and_iff_left List.not_mem_nil).symm
  | cons size sizes =>
    rw [if_pos (show (Ty.arrayOf base (size :: sizes)).isArray = true from rfl)]
    exact checkArrayInit_isSilent_iff shows basic size sizes isInit.noBad

end Init

end MiniC
