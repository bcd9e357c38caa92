import MiniC.Proofs.Expr.Braced
import MiniC.Proofs.Expr.Filled

/-!
What stands in the composite literals of a source: names, literals, signs in
front of these, and literals again. Whatever is wrong with the source, an item
that was read is one of them, or a bad one is in it. None of them is a call, the
one expression that may be reported and have a type for all that.
-/

namespace MiniC

namespace Expr

def IsLeaf : Expr → Prop
  | ident _ _ | lit _ _ _ => True
  | _ => False

mutual

def IsPlain : Expr → Prop
  | ident _ _ | lit _ _ _ => True
  | unary _ _ operand => operand.IsLeaf
  | composite _ items => AllPlain items
  | _ => False

def AllPlain : List Expr → Prop
  | [] => True
  | e :: rest => e.IsPlain ∧ AllPlain rest

end

theorem allPlain_iff (es : List Expr) : AllPlain es ↔ ∀ e ∈ es, e.IsPlain := by
  induction es with
  | nil => simp [AllPlain]
  | cons e rest ih => simp [AllPlain, ih]

theorem IsLeaf.isPlain {e : Expr} (leaf : e.IsLeaf) : e.IsPlain := by
  cases e with
  | ident | lit => trivial
  | _ => exact leaf.elim

theorem IsLeaf.noBad {e : Expr} (leaf : e.IsLeaf) : e.NoBad := by
  cases e with
  | ident | lit => trivial
  | _ => exact leaf.elim

mutual

theorem IsPlain.noBad : (e : Expr) → e.IsPlain → e.NoBad
  | ident _ _, _ | lit _ _ _, _ => by simp only [NoBad]
  | unary _ _ operand, leaf => by
    change operand.NoBad
    exact IsLeaf.noBad leaf
  | composite _ items, plain => AllPlain.noBad items plain

theorem AllPlain.noBad : (es : List Expr) → AllPlain es → AllNoBad es
  | [], _ => trivial
  | e :: rest, ⟨plain, later⟩ => ⟨IsPlain.noBad e plain, AllPlain.noBad rest later⟩

end

end Expr

section Reading

open MiniC.Parser

theorem Composite.IsSingle.isPlain {e : Expr} (single : Composite.IsSingle e) (good : e.NoBad) :
    e.IsPlain := by
  have leaf {e : Expr} (isAtom : e.IsAtom) (good : e.NoBad) : e.IsLeaf := by
    cases e with
    | ident | lit => trivial
    | bad => exact good.elim
    | _ => exact isAtom.elim
  cases single with
  | atom isAtom => exact (leaf isAtom good).isPlain
  | signed pos sign isAtom => exact leaf isAtom good

/-- A composite literal that was read is plain, unless a bad item is in it. -/
theorem compositeLiteral_plain : Gives compositeLiteral fun e => e.NoBad → e.IsPlain := by
  have nested (e : Expr) (isList : Composite.IsListOf (fun item => item.NoBad → item.IsPlain) e)
      (good : e.NoBad) : e.IsPlain := by
    obtain ⟨pos, items, rfl, plain⟩ := isList
    change Expr.AllNoBad items at good
    change Expr.AllPlain items
    rw [Expr.allNoBad_iff] at good
    exact (Expr.allPlain_iff items).mpr fun item member => plain item member (good item member)
  exact fun s => nested _ <|
    Composite.literal_gives (fun _ single => Composite.IsSingle.isPlain single) nested s

end Reading

section Checking

open Verdict

/-- What is reported is left without a type. -/
def Verdict.IsStrict (v : Verdict Ty) : Prop := v.problems ≠ [] → v.value = .invalid

namespace Verdict.IsStrict

theorem pure (ty : Ty) : IsStrict (pure ty) := fun reported => absurd rfl reported

theorem reject (pos : Position) (problem : Problem) : IsStrict (reject pos problem) := fun _ => rfl

/-- What goes on from an invalid type finds none. -/
theorem bind {v : Verdict Ty} {f : Ty → Verdict Ty} (first : v.IsStrict)
    (next : ∀ ty, (f ty).IsStrict) (onInvalid : (f .invalid).value = .invalid) :
    IsStrict (v >>= f) := by
  intro reported
  rw [value_bind]
  by_cases silent : v.IsSilent
  · apply next
    intro none
    exact reported (isSilent_bind_iff.mpr ⟨silent, none⟩)
  · rw [first silent, onInvalid]

end Verdict.IsStrict

theorem Literal.check_isStrict (pos : Position) (kind : LitKind) (text : String) :
    (Literal.check pos kind text).IsStrict := by
  have content (kind : QuotedKind) (ty : Ty) (content : List UInt8) (forbidden : Option UInt8) :
      (Literal.checkContent pos kind ty content forbidden).IsStrict := by
    unfold Literal.checkContent
    split
    · exact .reject _ _
    · cases forbidden with
      | none => exact .pure ty
      | some b => exact .reject _ _
  cases kind with
  | int => exact .pure .int
  | char | string => exact content _ _ _ _

variable {scope : Scope}

theorem Expr.IsLeaf.type_isStrict {e : Expr} (leaf : e.IsLeaf) : (e.type scope).IsStrict := by
  cases e with
  | ident pos name =>
    change (typeOfName scope pos name).IsStrict
    unfold typeOfName
    cases scope.var? name with
    | none => exact .reject _ _
    | some symbol => exact .pure _
  | lit pos kind text => exact Literal.check_isStrict pos kind text
  | _ => exact leaf.elim

/-- An item that is no literal of its own has a type, or is reported, not both. -/
theorem Expr.IsPlain.type_isStrict {e : Expr} (plain : e.IsPlain) (single : e.items? = none) :
    (e.type scope).IsStrict := by
  cases e with
  | ident | lit => exact Expr.IsLeaf.type_isStrict trivial
  | unary pos sign operand =>
    have leaf : operand.IsLeaf := plain
    refine Verdict.IsStrict.bind leaf.type_isStrict (fun found => ?_) rfl
    cases found with
    | invalid => exact .pure _
    | int => exact .pure _
    | _ => exact .reject _ _
  | composite => cases single
  | _ => exact plain.elim

end Checking

end MiniC
