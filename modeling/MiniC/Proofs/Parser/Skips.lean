import MiniC.Proofs.Parser.Shortens
import MiniC.Proofs.Syntax.Spelled

/-!
What skipping passes. A text whose brackets come in pairs is passed as a whole;
if it has semicolons outside of them, then only where a bracket is open already.
So what skipping leaves of the tokens is the same from anywhere within a text
that is passed.
-/

namespace MiniC

namespace Spelled

variable {text : List Written} {from_ rest : List Lexeme}

theorem eq_of_nil (spelled : Spelled [] from_ rest) : from_ = rest := by
  cases spelled
  rfl

theorem kinds_eq (spelled : Spelled text from_ rest) :
    from_.map (·.token.kind) = text.map Written.kind ++ rest.map (·.token.kind) := by
  induction spelled with
  | nil => rfl
  | cons spells _ ih => rw [List.map_cons, List.map_cons, spells.kind_eq, ih, List.cons_append]

theorem drop_length (spelled : Spelled text from_ rest) : from_.drop text.length = rest := by
  induction spelled with
  | nil => rfl
  | cons _ _ ih => rwa [List.length_cons, List.drop_succ_cons]

end Spelled

namespace Parser

/-- What is left of the tokens when skipping ends. -/
def skipped (upcoming : List Lexeme) : List Lexeme :=
  upcoming.drop (nestedLength 0 (upcoming.map (·.token.kind)))

/-- Skipping passes the whole text wherever `least` brackets are open. -/
def SkipsOver (least : Nat) (text : List Written) : Prop :=
  ∀ opened, least ≤ opened → ∀ later,
    nestedLength opened (text.map Written.kind ++ later) =
      text.length + nestedLength opened later

/-- Tokens that skipping passes however many brackets are open, and that leave
them open. -/
def isNeutral (kind : TokenKind) : Bool :=
  !(isOpening kind || isClosing kind || kind = .semicolon)

theorem nestedLength_neutral {kind : TokenKind} (neutral : isNeutral kind = true) (opened : Nat)
    (later : List TokenKind) :
    nestedLength opened (kind :: later) = nestedLength opened later + 1 := by
  cases kind <;> first | rfl | exact absurd neutral (by decide)

theorem nestedLength_opening {kind : TokenKind} (opens : isOpening kind = true) (opened : Nat)
    (later : List TokenKind) :
    nestedLength opened (kind :: later) = nestedLength (opened + 1) later + 1 := by
  cases kind <;> first | rfl | exact absurd opens (by decide)

theorem nestedLength_closing {kind : TokenKind} (closes : isClosing kind = true) (outer : Nat)
    (later : List TokenKind) :
    nestedLength (outer + 1) (kind :: later) = nestedLength outer later + 1 := by
  cases kind <;> first | rfl | exact absurd closes (by decide)

namespace SkipsOver

variable {least : Nat} {text more : List Written} {written : Written}

theorem nil : SkipsOver least [] := fun _ _ _ => (Nat.zero_add _).symm

theorem mono {most : Nat} (skips : SkipsOver least text) (le : least ≤ most) :
    SkipsOver most text :=
  fun opened bound => skips opened (Nat.le_trans le bound)

theorem anywhere (skips : SkipsOver 0 text) : SkipsOver least text := skips.mono (Nat.zero_le least)

theorem append (sooner : SkipsOver least text) (later : SkipsOver least more) :
    SkipsOver least (text ++ more) := by
  intro opened bound behind
  rw [List.map_append, List.append_assoc, sooner opened bound, later opened bound,
    List.length_append, Nat.add_assoc]

theorem cons (neutral : isNeutral written.kind = true) (skips : SkipsOver least text) :
    SkipsOver least (written :: text) := by
  intro opened bound behind
  rw [List.map_cons, List.cons_append, nestedLength_neutral neutral, skips opened bound,
    List.length_cons]
  omega

theorem one (neutral : isNeutral written.kind = true) : SkipsOver least [written] :=
  cons neutral nil

theorem symbol (kind : TokenKind) (neutral : isNeutral kind = true)
    (skips : SkipsOver least text) : SkipsOver least (.symbol kind :: text) :=
  cons neutral skips

/-- Where a bracket is open, a semicolon belongs to what is skipped. -/
theorem semicolon : SkipsOver 1 [.symbol .semicolon] := by
  intro opened bound behind
  cases opened with
  | zero => exact absurd bound (Nat.not_succ_le_zero 0)
  | succ opened => exact Nat.add_comm _ _

/-- In brackets there may be semicolons. -/
theorem brackets (opening closing : TokenKind) (opens : isOpening opening = true)
    (closes : isClosing closing = true) (skips : SkipsOver 1 text) :
    SkipsOver least (.symbol opening :: text ++ [.symbol closing]) := by
  intro opened _ behind
  rw [List.map_append, List.map_cons, List.append_assoc, List.cons_append]
  change nestedLength opened (opening :: (_ ++ closing :: behind)) = _
  rw [nestedLength_opening opens, skips (opened + 1) (Nat.succ_pos _), nestedLength_closing closes,
    List.length_append, List.length_cons, List.length_singleton]
  omega

theorem flatMap {α : Type} {printed : α → List Written} {items : List α}
    (skips : ∀ item ∈ items, SkipsOver least (printed item)) :
    SkipsOver least (items.flatMap printed) := by
  induction items with
  | nil => exact nil
  | cons first later ih =>
    obtain ⟨isFirst, areLater⟩ := List.forall_mem_cons.mp skips
    exact append isFirst (ih areLater)

theorem commas {texts : List (List Written)} (skips : ∀ text ∈ texts, SkipsOver least text) :
    SkipsOver least (Written.commas texts) := by
  cases texts with
  | nil => exact nil
  | cons first later =>
    obtain ⟨isFirst, areLater⟩ := List.forall_mem_cons.mp skips
    exact append isFirst (flatMap fun text member => cons rfl (areLater text member))

/-- What is left is the same in front of the text and behind it. -/
theorem skipped_eq {from_ rest : List Lexeme} (skips : SkipsOver 0 text)
    (spelled : Spelled text from_ rest) : skipped from_ = skipped rest := by
  rw [skipped, spelled.kinds_eq, skips 0 (Nat.le_refl 0), ← List.drop_drop, spelled.drop_length]
  rfl

end SkipsOver

/-- Tokens that skipping passes in brackets only. -/
def endsSkipping (kind : TokenKind) : Bool := isClosing kind || kind = .semicolon

theorem skipped_of_ends {upcoming : List Lexeme}
    (ends : endsSkipping (frontKind upcoming) = true) : skipped upcoming = upcoming := by
  cases upcoming with
  | nil => rfl
  | cons lexeme later =>
    change endsSkipping lexeme.token.kind = true at ends
    have none : nestedLength 0 ((lexeme :: later).map (·.token.kind)) = 0 := by
      rw [List.map_cons]
      generalize lexeme.token.kind = kind at ends
      cases kind <;> first | rfl | exact absurd ends (by decide)
    rw [skipped, none, List.drop_zero]

theorem isEnclosing_skipped (upcoming : List Lexeme) :
    isEnclosing (frontKind (skipped upcoming)) = true := by
  have stops := nestedLength_stops 0 (upcoming.map (·.token.kind))
  rw [← List.map_drop] at stops
  change ∀ kind ∈ ((skipped upcoming).map _).head?, _ at stops
  cases left : skipped upcoming with
  | nil => rfl
  | cons lexeme later =>
    rw [left] at stops
    exact stops lexeme.token.kind rfl

end Parser

end MiniC
