import MiniC.Proofs.Syntax.Declared

/-!
How types are shown. A type is taken apart from the outside in, one array after the other,
and is put together again from what is inside all arrays and their sizes. Its text is the
name of the one, and behind it the others in brackets, in the same order; so a type can be
told from its text.
-/

namespace MiniC

/-- What stands in front of the first of two equal marks, and what stands behind it. -/
theorem append_mark_inj {α : Type} {mark : α} {left right : List α} {rest rest' : List α}
    (clear : mark ∉ left) (clear' : mark ∉ right)
    (same : left ++ mark :: rest = right ++ mark :: rest') : left = right ∧ rest = rest' := by
  induction left generalizing right with
  | nil =>
    cases right with
    | nil => exact ⟨rfl, (List.cons.inj same).2⟩
    | cons c right => exact absurd ((List.cons.inj same).1 ▸ List.mem_cons_self) clear'
  | cons c left ih =>
    cases right with
    | nil => exact absurd ((List.cons.inj same).1 ▸ List.mem_cons_self) clear
    | cons d right =>
      obtain ⟨rfl, later⟩ := List.cons.inj same
      obtain ⟨rfl, behind⟩ := ih (mt (List.mem_cons_of_mem c) clear)
        (mt (List.mem_cons_of_mem c) clear') later
      exact ⟨rfl, behind⟩

namespace Ty

/-- Takes off all arrays, the outermost first. The sizes met before are put in front. -/
def unwrap : List Nat → Ty → List Nat × Ty
  | met, array element size => element.unwrap (met ++ [size])
  | met, ty => (met, ty)

theorem unwrap_eq (met : List Nat) (ty : Ty) : ty.unwrap met = (met ++ ty.sizes, ty.leaf) := by
  induction ty generalizing met with
  | array element size ih => rw [unwrap, ih, List.append_assoc, sizes, leaf, List.singleton_append]
  | _ => exact congrArg (·, _) (List.append_nil met).symm

theorem arrayOf_leaf_sizes (ty : Ty) : arrayOf ty.leaf ty.sizes = ty := by
  induction ty with
  | array element size ih => exact congrArg (array · size) ih
  | _ => rfl

theorem leaf_isArray (ty : Ty) : ty.leaf.isArray = false := by
  induction ty with
  | array element size ih => exact ih
  | _ => rfl

theorem leaf_eq_self {ty : Ty} (flat : ty.isArray = false) : ty.leaf = ty := by
  cases ty <;> first | rfl | cases flat

theorem leafName_leaf (ty : Ty) : ty.leaf.leafName = ty.leafName := by
  induction ty with
  | array element size ih => exact ih
  | _ => rfl

theorem display_leaf (ty : Ty) : ty.leaf.display = ty.leafName := by
  have sizes : ty.leaf.sizes = [] := sizes_arrayOf [] ty.leaf_isArray
  rw [display, sizes, leafName_leaf]
  exact String.append_empty

/-- The text of an array is that of what is inside it, with the sizes behind. -/
theorem display_eq (ty : Ty) :
    ty.display = ty.leaf.display ++ String.join (ty.sizes.map sizeSuffix) := by
  rw [display_leaf]
  rfl

section Text

variable {ty other : Ty}

/-- No two names of types that are no arrays begin with the same letter. -/
theorem leaf_eq_of_initial
    (same : ty.leafName.toList.head? = other.leafName.toList.head?) : ty.leaf = other.leaf := by
  induction ty with
  | array element size ih => exact ih same
  | _ =>
    induction other with
    | array element size ih => exact ih same
    | _ => first | rfl | exact absurd same (by decide)

theorem initial_append (ty : Ty) (rest : List Char) :
    (ty.leafName.toList ++ rest).head? = ty.leafName.toList.head? := by
  induction ty with
  | array element size ih => exact ih
  | _ => rfl

theorem toList_sizeSuffix (size : Nat) :
    (sizeSuffix size).toList = '[' :: (Nat.toDigits 10 size ++ [']']) := by
  rw [sizeSuffix, String.toList_append, String.toList_append, Nat.toString_eq_repr, Nat.toList_repr]
  rfl

/-- A size ends where its bracket does, and its digits are read back. -/
theorem sizeSuffix_append_inj {size size' : Nat} {rest rest' : List Char}
    (same : (sizeSuffix size).toList ++ rest = (sizeSuffix size').toList ++ rest') :
    size = size' ∧ rest = rest' := by
  have clear (n : Nat) : ']' ∉ Nat.toDigits 10 n := fun member =>
    absurd (Nat.isDigit_of_mem_toDigits (by decide) (by decide) member) (by decide)
  rw [toList_sizeSuffix, toList_sizeSuffix, List.cons_append, List.cons_append, List.append_assoc,
    List.append_assoc] at same
  -- no digit is a bracket, so the first one closed ends the number
  obtain ⟨digits, behind⟩ := append_mark_inj (clear size) (clear size') (List.cons.inj same).2
  have number := congrArg (Nat.ofDigitChars 10 · 0) digits
  simp only [Nat.ofDigitChars_ten_toDigits] at number
  exact ⟨number, behind⟩

theorem sizes_eq_of_text {sizes others : List Nat}
    (same : sizes.flatMap (fun size => (sizeSuffix size).toList) =
      others.flatMap fun size => (sizeSuffix size).toList) : sizes = others := by
  induction sizes generalizing others with
  | nil =>
    cases others with
    | nil => rfl
    | cons size' others => rw [List.flatMap_cons, toList_sizeSuffix] at same; cases same
  | cons size sizes ih =>
    cases others with
    | nil => rw [List.flatMap_cons, toList_sizeSuffix] at same; cases same
    | cons size' others =>
      rw [List.flatMap_cons, List.flatMap_cons] at same
      obtain ⟨rfl, behind⟩ := sizeSuffix_append_inj same
      rw [ih behind]

theorem toList_display (ty : Ty) : ty.display.toList =
    ty.leafName.toList ++ ty.sizes.flatMap fun size => (sizeSuffix size).toList := by
  rw [display, String.toList_append, String.toList_join, List.flatMap_map]

theorem display_inj : ty.display = other.display ↔ ty = other := by
  refine ⟨fun same => ?_, congrArg display⟩
  have chars := congrArg String.toList same
  rw [toList_display, toList_display] at chars
  -- the first letter tells what is inside all arrays, and with its name off the sizes are left
  have leaf : ty.leaf = other.leaf := by
    apply leaf_eq_of_initial
    have first := congrArg List.head? chars
    rwa [initial_append, initial_append] at first
  have name : ty.leafName = other.leafName := by
    rw [← leafName_leaf, leaf, leafName_leaf]
  rw [name] at chars
  have sizes : ty.sizes = other.sizes := sizes_eq_of_text (List.append_cancel_left chars)
  rw [← arrayOf_leaf_sizes ty, leaf, sizes, arrayOf_leaf_sizes]

end Text

end Ty

end MiniC
