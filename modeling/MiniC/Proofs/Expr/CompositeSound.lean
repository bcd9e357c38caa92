import MiniC.Proofs.Expr.Sound

/-!
Composite literals that were read without a problem. While a literal is open,
what was passed is its opening brace and its items with a comma after each; the
same holds of every literal around it, whose next item is the one inside.
-/

namespace MiniC

open MiniC.Parser
open Written (commas withCommas)

namespace Composite

namespace Frame

def printedItems (frame : Frame) : List (List Written) := frame.items.reverse.map Expr.printed

/-- The tokens of an open literal that is to go on with an item. -/
def openText (frame : Frame) : List Written :=
  .symbol .lBrace :: withCommas frame.printedItems

/-- The tokens of an open literal behind its last item. -/
def itemText (frame : Frame) : List Written := .symbol .lBrace :: commas frame.printedItems

theorem printed_literal (frame : Frame) :
    frame.literal.printed = frame.itemText ++ [.symbol .rBrace] := by
  simp [literal, Expr.printed, itemText, printedItems, Expr.printedEach_eq_map]

theorem itemText_add (frame : Frame) (item : Expr) :
    (frame.add item).itemText = frame.openText ++ item.printed := by
  simp [itemText, openText, add, printedItems, Written.commas_concat]

theorem itemText_comma {frame : Frame} (nonempty : frame.items ≠ []) :
    frame.itemText ++ [.symbol .comma] = frame.openText := by
  simp [itemText, openText, printedItems, Written.commas_comma, nonempty]

theorem itemText_empty {frame : Frame} (none : frame.items = []) :
    frame.itemText = frame.openText := by
  simp [itemText, openText, printedItems, none, commas, withCommas]

end Frame

namespace Frames

/-- The tokens of the literals around the innermost one. -/
def outerText (frames : Frames) : List Written := frames.outer.reverse.flatMap Frame.openText

def IsGood (frames : Frames) : Prop :=
  ∀ frame ∈ frames.inner :: frames.outer, ∀ item ∈ frame.items, item.IsItem

theorem IsGood.add {frames : Frames} (good : frames.IsGood) {item : Expr} (isItem : item.IsItem) :
    (frames.add item).IsGood := by
  intro frame member
  rcases List.mem_cons.mp member with isInner | isOuter
  · subst isInner
    exact List.forall_mem_cons.mpr ⟨isItem, good _ List.mem_cons_self⟩
  · exact good frame (List.mem_cons_of_mem _ isOuter)

theorem IsGood.opened {frames : Frames} (good : frames.IsGood) (pos : Position) :
    (frames.opened pos).IsGood :=
  List.forall_mem_cons.mpr ⟨fun _ none => (List.not_mem_nil none).elim, good⟩

theorem IsGood.inner {frames : Frames} (good : frames.IsGood) : frames.inner.literal.IsItem :=
  (Expr.allItems_iff _).mpr fun item member =>
    good _ List.mem_cons_self item (List.mem_reverse.mp member)

end Frames

/-- What has been passed since `start` when the reading has come to a state. -/
def ReadTo (start : List Lexeme) : State → Stream → Prop
  | .beforeItem frames, s =>
    frames.IsGood ∧ (frames.inner.items = [] ∨ s.token.kind ≠ .rBrace) ∧
      Spelled (frames.outerText ++ frames.inner.openText) start s.upcoming
  | .afterItem frames, s =>
    frames.IsGood ∧ frames.inner.items ≠ [] ∧
      Spelled (frames.outerText ++ frames.inner.itemText) start s.upcoming
  | .finished literal, s =>
    literal.IsItem ∧ literal.IsInitializer ∧ Spelled literal.printed start s.upcoming

/-- The closing brace of the innermost literal. -/
theorem readTo_closed {start : List Lexeme} {frames : Frames} {s r : Stream}
    (good : frames.IsGood)
    (read : Spelled (frames.outerText ++ frames.inner.itemText) start s.upcoming)
    (brace : Spelled [.symbol .rBrace] s.upcoming r.upcoming) :
    ReadTo start (.closed frames) r := by
  have closed := read.append brace
  rw [List.append_assoc, ← Frame.printed_literal] at closed
  obtain ⟨inner, outer⟩ := frames
  cases outer with
  | nil => exact ⟨good.inner, good.inner, closed⟩
  | cons around outer =>
    have isItem := good.inner
    have outside : Frames.IsGood ⟨around, outer⟩ :=
      fun frame member => good frame (List.mem_cons_of_mem _ member)
    refine ⟨outside.add isItem, List.cons_ne_nil _ _, ?_⟩
    rw [Frame.itemText_add, ← List.append_assoc]
    simpa [Frames.outerText] using closed

theorem badItem_sound {wanted : Wanted} {s : Stream} {Q : Expr → Stream → Prop} :
    Quiet (badItem wanted) s Q :=
  Quiet.bind_peek Quiet.bind_missing

theorem plainItem_sound (isSigned : Bool) (s : Stream) :
    Quiet (plainItem isSigned) s fun e r =>
      e.IsItem ∧ (isSigned = true → e.IsSignable) ∧ Spelled e.printed s.upcoming r.upcoming := by
  refine Quiet.of_exact fun exact => Quiet.bind_peek ?_
  split
  · next lit isLit =>
    refine Quiet.ite (fun _ => badItem_sound) fun allowed => ?_
    have kind := TokenKind.litKind?_eq isLit
    have more : s.token.kind ≠ .eof := by rw [kind]; cases lit <;> nofun
    refine Quiet.bind (Quiet.advance more) fun _ r passes => Quiet.pure ?_
    refine ⟨trivial, fun signed isString => ?_, passes _ ⟨kind, rfl⟩⟩
    exact allowed (by simp [signed, isString])
  · refine Quiet.ite (fun isIdent => ?_) fun _ => badItem_sound
    have more : s.token.kind ≠ .eof := by rw [isIdent]; nofun
    have unreserved := (exact more).unreserved isIdent
    refine Quiet.bind (Quiet.advance more) fun _ r passes => Quiet.pure ?_
    exact ⟨unreserved, fun _ => unreserved, passes _ ((exact more).name_spells (.inl isIdent))⟩

theorem item_sound (s : Stream) :
    Quiet item s fun e r => e.IsItem ∧ Spelled e.printed s.upcoming r.upcoming := by
  refine Quiet.bind_peek ?_
  split
  · next sign isSign =>
    have kind := TokenKind.sign?_eq isSign
    refine Quiet.bind (Quiet.advance_symbol kind sign.token_spelled) fun _ middle signed => ?_
    refine Quiet.bind (plainItem_sound true middle) fun operand r read => Quiet.pure ?_
    exact ⟨read.2.1 rfl, signed.append read.2.2⟩
  · exact (plainItem_sound false s).mono fun e r read => ⟨read.1, read.2.2⟩

theorem item_nonempty {e : Expr} (isItem : e.IsItem) : e.printed ≠ [] := by
  cases e <;> simp_all [Expr.IsItem, Expr.printed]

theorem step_sound (start : List Lexeme) (state : State) (s : Stream) (read : ReadTo start state s)
    (taken : takes (goesOn state) s = true) :
    Quiet (step state) s fun next r => ReadTo start next r ∧ r.remaining < s.remaining := by
  cases state with
  | beforeItem frames =>
    obtain ⟨good, fresh, spelled⟩ := read
    refine Quiet.bind_peek ?_
    -- a literal is opened, the innermost one is closed while it is empty, or an item is read
    split
    · next isBrace =>
      refine Quiet.bind (Quiet.advance_symbol isBrace rfl) fun _ r brace => Quiet.pure ?_
      refine ⟨⟨good.opened _, .inl rfl, ?_⟩, Quiet.remaining_lt brace (List.cons_ne_nil _ _)⟩
      simpa [Frames.outerText, Frames.opened, Frame.openText, Frame.printedItems, withCommas]
        using spelled.append brace
    · next isBrace =>
      refine Quiet.bind (Quiet.advance_symbol isBrace rfl) fun _ r brace => Quiet.pure ?_
      refine ⟨readTo_closed good ?_ brace, Quiet.remaining_lt brace (List.cons_ne_nil _ _)⟩
      rwa [Frame.itemText_empty (fresh.resolve_right (not_not_intro isBrace))]
    · refine Quiet.bind (item_sound s) fun item r readItem => Quiet.pure ?_
      obtain ⟨isItem, passed⟩ := readItem
      refine ⟨⟨good.add isItem, List.cons_ne_nil _ _, ?_⟩,
        Quiet.remaining_lt passed (item_nonempty isItem)⟩
      change Spelled (frames.outerText ++ (frames.inner.add item).itemText) _ _
      rw [Frame.itemText_add, ← List.append_assoc]
      exact spelled.append passed
  | afterItem frames =>
    obtain ⟨good, nonempty, spelled⟩ := read
    refine Quiet.bind_peekKind ?_
    split
    · next isBrace =>
      refine Quiet.bind (Quiet.advance_symbol isBrace rfl) fun _ r brace => Quiet.pure ?_
      exact ⟨readTo_closed good spelled brace, Quiet.remaining_lt brace (List.cons_ne_nil _ _)⟩
    · next isComma =>
      refine Quiet.bind (Quiet.advance_symbol isComma rfl) fun _ r comma => ?_
      refine Quiet.bind_peekKind (Quiet.ite (fun _ => ?_) fun other => Quiet.pure ?_)
      · -- a brace behind the comma is reported
        exact Quiet.bind_missing
      · refine ⟨⟨good, .inr other, ?_⟩, Quiet.remaining_lt comma (List.cons_ne_nil _ _)⟩
        rw [← Frame.itemText_comma nonempty, ← List.append_assoc]
        exact spelled.append comma
    · exact Quiet.bind_missing
  | finished literal => exact absurd (Quiet.kind_of_takes taken) (by simp [goesOn])

theorem conclude_sound (start : List Lexeme) (state : State) (s : Stream)
    (read : ReadTo start state s) :
    Quiet (conclude state) s fun e r => e.IsInitializer ∧ Spelled e.printed start r.upcoming := by
  cases state with
  | finished literal => exact Quiet.pure read.2
  | _ => exact Quiet.bind_missing

end Composite

open Composite in
theorem compositeLiteral_sound (s : Stream) :
    Quiet compositeLiteral s fun e r =>
      e.IsInitializer ∧ Spelled e.printed s.upcoming r.upcoming := by
  refine Quiet.bind_position (Quiet.bind (Quiet.require rfl) fun _ middle brace => ?_)
  have opened : ReadTo s.upcoming (.beforeItem (.start s.token.pos)) middle :=
    ⟨fun frame member => by simp_all [Frames.start], .inl rfl, brace⟩
  refine Quiet.bind (Quiet.foldWhile (step_sound s.upcoming) opened) fun state r read => ?_
  exact conclude_sound s.upcoming state r read.1

end MiniC
