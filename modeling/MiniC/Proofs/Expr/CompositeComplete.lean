import MiniC.Proofs.Expr.Complete
import MiniC.Proofs.Expr.CompositeSound

/-!
The tokens that a composite literal is written with are read back as that
literal. Each item, whether plain or itself a literal, is added to the frame
that was innermost before it, so the reading goes through the items in order
and never looks below that frame.
-/

namespace MiniC

open MiniC.Parser
open Written (commas)

namespace Composite

/-- Adds the items in order. -/
def Frames.addAll (frames : Frames) (items : List Expr) : Frames := items.foldl Frames.add frames

theorem Frames.addAll_eq (frames : Frames) (items : List Expr) :
    frames.addAll items = ⟨⟨frames.inner.pos, items.reverse ++ frames.inner.items⟩, frames.outer⟩ := by
  induction items generalizing frames with
  | nil => rfl
  | cons item rest ih =>
    refine (ih (frames.add item)).trans ?_
    simp [add, Frame.add]

theorem closed_addAll_opened (frames : Frames) (pos : Position) (items : List Expr) :
    State.closed ((frames.opened pos).addAll items) =
      .afterItem (frames.add (.composite pos items)) := by
  simp [Frames.addAll_eq, Frames.opened, State.closed, Frames.add, Frame.literal]

theorem closed_addAll_start (pos : Position) (items : List Expr) :
    State.closed ((Frames.start pos).addAll items) = .finished (.composite pos items) := by
  simp [Frames.addAll_eq, Frames.start, State.closed, Frame.literal]

/-- Items that are no literals with braces of their own. -/
def IsPlain : Expr → Prop
  | .composite _ _ => False
  | e => e.IsItem

/-- Tokens that a plain item may start with. -/
def startsPlain : TokenKind → Bool
  | .ident | .intLit | .charLit | .strLit | .plus | .minus => true
  | _ => false

theorem printed_starts_plain {e : Expr} (isPlain : IsPlain e) : ∃ written text,
    e.printed = written :: text ∧ startsPlain written.kind = true := by
  cases e with
  | ident pos name =>
    refine ⟨_, _, rfl, ?_⟩
    rw [Written.name, if_neg isPlain]
    rfl
  | lit pos kind text => exact ⟨_, _, rfl, by cases kind <;> rfl⟩
  | unary pos sign operand => exact ⟨_, _, rfl, by cases sign <;> rfl⟩
  | _ => exact isPlain.elim

theorem printed_starts_item {e : Expr} (isItem : e.IsItem) : ∃ written text,
    e.printed = written :: text ∧ written.kind ≠ .rBrace := by
  by_cases isPlain : IsPlain e
  · obtain ⟨written, text, shape, starts⟩ := printed_starts_plain isPlain
    exact ⟨written, text, shape, fun isBrace => by simp [isBrace, startsPlain] at starts⟩
  · cases e with
    | composite => exact ⟨_, _, rfl, by decide⟩
    | _ => exact absurd isItem isPlain

variable {s : Stream} {deep : Prop} {text : List Written} {rest : List Lexeme}

theorem plainItem_ident_complete (isSigned : Bool) (pos : Position) {name : String}
    (other : name ≠ "main") (spelled : Spelled (.name name :: text) s.upcoming rest) :
    Succeeds (plainItem isSigned) s deep fun found r =>
      found.bare = (Expr.ident pos name).bare ∧ Spelled text r.upcoming rest := by
  rw [Written.name, if_neg other] at spelled
  obtain ⟨isIdent, same⟩ := Succeeds.token_spells spelled
  refine Succeeds.bind_peek ?_
  simp only [isIdent, TokenKind.litKind?, if_true]
  refine Succeeds.bind (Succeeds.advance spelled) fun _ r spelled => Succeeds.pure ⟨?_, spelled⟩
  rw [Expr.bare, Expr.bare, same]

theorem plainItem_lit_complete (isSigned : Bool) (pos : Position) {kind : LitKind} {written : String}
    (allowed : isSigned = true → kind ≠ .string)
    (spelled : Spelled (.exact kind.token written :: text) s.upcoming rest) :
    Succeeds (plainItem isSigned) s deep fun found r =>
      found.bare = (Expr.lit pos kind written).bare ∧ Spelled text r.upcoming rest := by
  obtain ⟨isLit, same⟩ := Succeeds.token_spells spelled
  refine Succeeds.bind_peek ?_
  simp only [isLit, kind.token_litKind?]
  rw [if_neg (by simpa using allowed)]
  refine Succeeds.bind (Succeeds.advance spelled) fun _ r spelled => Succeeds.pure ⟨?_, spelled⟩
  rw [Expr.bare, Expr.bare, same]

theorem item_complete {e : Expr} (isPlain : IsPlain e)
    (spelled : Spelled (e.printed ++ text) s.upcoming rest) :
    Succeeds item s deep fun found r => found.bare = e.bare ∧ Spelled text r.upcoming rest := by
  refine Succeeds.bind_peek ?_
  cases e with
  | ident pos name =>
    have isIdent : s.token.kind = .ident := by
      have front := Succeeds.token_spells spelled
      rw [Written.name, if_neg isPlain] at front
      exact front.1
    simp only [isIdent, TokenKind.sign?]
    exact plainItem_ident_complete false pos isPlain spelled
  | lit pos kind written =>
    have isLit : s.token.kind = kind.token := (Succeeds.token_spells spelled).1
    have unsigned : kind.token.sign? = none := by cases kind <;> rfl
    simp only [isLit, unsigned]
    exact plainItem_lit_complete false pos (absurd · Bool.false_ne_true) spelled
  | unary pos sign operand =>
    have isSign : s.token.kind = sign.token := (Succeeds.token_spells spelled).1
    simp only [isSign, sign.token_sign?]
    refine Succeeds.bind (Succeeds.advance spelled) fun _ middle spelled => ?_
    have read : Succeeds (plainItem true) middle deep fun found r =>
        found.bare = operand.bare ∧ Spelled text r.upcoming rest := by
      cases operand with
      | ident pos name => exact plainItem_ident_complete true pos isPlain spelled
      | lit pos kind written => exact plainItem_lit_complete true pos (fun _ => isPlain) spelled
      | _ => exact isPlain.elim
    refine Succeeds.bind read fun found r read => Succeeds.pure ⟨?_, read.2⟩
    rw [Expr.bare, Expr.bare, read.1]
  | _ => exact isPlain.elim

variable {Q : State → Stream → Prop}

/-- The closing brace. -/
theorem brace_read {state : State} {frames : Frames}
    (ready : state = .beforeItem frames ∨ state = .afterItem frames)
    (spelled : Spelled (.symbol .rBrace :: text) s.upcoming rest)
    (next : ∀ r, Spelled text r.upcoming rest →
      Succeeds (foldWhile goesOn step (.closed frames)) r deep Q) :
    Succeeds (foldWhile goesOn step state) s deep Q := by
  have isBrace : s.token.kind = .rBrace := (Succeeds.token_spells spelled).1
  have taken : goesOn state (Written.symbol .rBrace).kind = true := by
    rcases ready with same | same <;> subst same <;> rfl
  refine Succeeds.foldWhile_read (P := (· = .closed frames)) taken (by decide) spelled
    (Nat.le_refl _) ?_ fun found r same => same ▸ next r
  have passed : Succeeds (do Parser.advance; pure (State.closed frames)) s deep fun found r =>
      found = .closed frames ∧ Spelled text r.upcoming rest :=
    Succeeds.bind (Succeeds.advance spelled) fun _ r spelled => Succeeds.pure ⟨rfl, spelled⟩
  rcases ready with same | same
  · subst same
    refine Succeeds.bind_peek ?_
    simpa only [isBrace] using passed
  · subst same
    refine Succeeds.bind_peekKind ?_
    simpa only [isBrace] using passed

theorem plain_read (e : Expr) {frames : Frames} (isPlain : IsPlain e)
    (spelled : Spelled (e.printed ++ text) s.upcoming rest)
    (next : ∀ found r, found.bare = e.bare → Spelled text r.upcoming rest →
      Succeeds (foldWhile goesOn step (.afterItem (frames.add found))) r deep Q) :
    Succeeds (foldWhile goesOn step (.beforeItem frames)) s deep Q := by
  have read : Succeeds item s deep _ := item_complete isPlain spelled
  obtain ⟨written, later, shape, starts⟩ := printed_starts_plain isPlain
  rw [shape] at spelled
  have front : s.token.kind = written.kind := s.token_kind ▸ spelled.frontKind_eq
  refine Succeeds.foldWhile_read
    (P := fun state => ∃ found, state = .afterItem (frames.add found) ∧ found.bare = e.bare)
    ?_ ?_ spelled (show text.length ≤ (later ++ text).length by simp) ?_ ?_
  · generalize written.kind = kind at starts
    cases kind <;> first | rfl | exact absurd starts (by decide)
  · intro isEnd
    simp [isEnd, startsPlain] at starts
  · refine Succeeds.bind_peek ?_
    split
    · next isBrace => simp [← front, isBrace, startsPlain] at starts
    · next isBrace => simp [← front, isBrace, startsPlain] at starts
    · exact Succeeds.bind read fun found r read => Succeeds.pure ⟨⟨found, rfl, read.1⟩, read.2⟩
  · rintro _ r ⟨found, rfl, same⟩
    exact next found r same

/-- An opening brace starts a frame of its own. -/
theorem opening_read {frames : Frames}
    (spelled : Spelled (.symbol .lBrace :: text) s.upcoming rest)
    (next : ∀ pos r, Spelled text r.upcoming rest →
      Succeeds (foldWhile goesOn step (.beforeItem (frames.opened pos))) r deep Q) :
    Succeeds (foldWhile goesOn step (.beforeItem frames)) s deep Q := by
  have isBrace : s.token.kind = .lBrace := (Succeeds.token_spells spelled).1
  refine Succeeds.foldWhile_read (P := (· = .beforeItem (frames.opened s.token.pos))) rfl
    (by decide) spelled (Nat.le_refl _) ?_ fun found r same => same ▸ next _ r
  refine Succeeds.bind_peek ?_
  simp only [isBrace]
  exact Succeeds.bind (Succeeds.advance spelled) fun _ r spelled => Succeeds.pure ⟨rfl, spelled⟩

/-- A comma with an item behind it. -/
theorem comma_read {e : Expr} {frames : Frames} (isItem : e.IsItem)
    (spelled : Spelled (.symbol .comma :: e.printed ++ text) s.upcoming rest)
    (next : ∀ r, Spelled (e.printed ++ text) r.upcoming rest →
      Succeeds (foldWhile goesOn step (.beforeItem frames)) r deep Q) :
    Succeeds (foldWhile goesOn step (.afterItem frames)) s deep Q := by
  obtain ⟨written, later, shape, other⟩ := printed_starts_item isItem
  have isComma : s.token.kind = .comma := (Succeeds.token_spells spelled).1
  refine Succeeds.foldWhile_read (P := (· = .beforeItem frames)) rfl (by decide) spelled
    (Nat.le_refl _) ?_ fun found r same => same ▸ next r
  refine Succeeds.bind_peekKind ?_
  simp only [isComma]
  refine Succeeds.bind (Succeeds.advance spelled) fun _ r spelled => Succeeds.bind_peekKind ?_
  have front : r.token.kind = written.kind := by
    rw [List.append_eq, shape] at spelled
    exact r.token_kind ▸ spelled.frontKind_eq
  rw [if_neg (front ▸ other)]
  exact Succeeds.pure ⟨rfl, spelled⟩

mutual

/-- An item is added to the innermost frame. -/
theorem item_read : (e : Expr) → e.IsItem →
    ∀ {frames : Frames} {s : Stream} {text : List Written},
      Spelled (e.printed ++ text) s.upcoming rest →
      (∀ found r, found.bare = e.bare → Spelled text r.upcoming rest →
        Succeeds (foldWhile goesOn step (.afterItem (frames.add found))) r deep Q) →
      Succeeds (foldWhile goesOn step (.beforeItem frames)) s deep Q
  | .composite pos items, areItems => fun spelled next => by
    rw [Expr.printed, List.append_assoc] at spelled
    refine opening_read spelled fun pos r spelled => ?_
    refine items_read items areItems spelled fun found r same spelled => ?_
    rw [closed_addAll_opened]
    exact next _ r (by rw [Expr.bare, Expr.bare, same]) spelled
  | .ident pos name, isItem => plain_read (.ident pos name) isItem
  | .lit pos kind text, isItem => plain_read (.lit pos kind text) isItem
  | .unary pos sign operand, isItem => plain_read (.unary pos sign operand) isItem

/-- The items of a literal are read up to its closing brace. -/
theorem items_read : (items : List Expr) → Expr.AllItems items →
    ∀ {frames : Frames} {s : Stream} {text : List Written},
      Spelled (commas (Expr.printedEach items) ++ .symbol .rBrace :: text) s.upcoming rest →
      (∀ found r, Expr.bareAll found = Expr.bareAll items → Spelled text r.upcoming rest →
        Succeeds (foldWhile goesOn step (.closed (frames.addAll found))) r deep Q) →
      Succeeds (foldWhile goesOn step (.beforeItem frames)) s deep Q
  | [], _ => fun spelled next => brace_read (.inl rfl) spelled fun r => next [] r rfl
  | first :: later, ⟨isItem, areItems⟩ => fun spelled next => by
    rw [Expr.printedEach, commas, List.append_assoc] at spelled
    refine item_read first isItem spelled fun foundFirst r sameFirst spelled => ?_
    refine laterItems_read later areItems spelled fun found r same spelled => ?_
    exact next (foundFirst :: found) r (by rw [Expr.bareAll, Expr.bareAll, sameFirst, same]) spelled

/-- The items behind the first one, each with its comma. -/
theorem laterItems_read : (items : List Expr) → Expr.AllItems items →
    ∀ {frames : Frames} {s : Stream} {text : List Written},
      Spelled ((Expr.printedEach items).flatMap (.symbol .comma :: ·) ++ .symbol .rBrace :: text)
        s.upcoming rest →
      (∀ found r, Expr.bareAll found = Expr.bareAll items → Spelled text r.upcoming rest →
        Succeeds (foldWhile goesOn step (.closed (frames.addAll found))) r deep Q) →
      Succeeds (foldWhile goesOn step (.afterItem frames)) s deep Q
  | [], _ => fun spelled next => brace_read (.inr rfl) spelled fun r => next [] r rfl
  | first :: later, ⟨isItem, areItems⟩ => fun spelled next => by
    rw [Expr.printedEach, List.flatMap_cons, List.append_assoc] at spelled
    refine comma_read isItem spelled fun r spelled => ?_
    refine item_read first isItem spelled fun foundFirst r sameFirst spelled => ?_
    refine laterItems_read later areItems spelled fun found r same spelled => ?_
    exact next (foundFirst :: found) r (by rw [Expr.bareAll, Expr.bareAll, sameFirst, same]) spelled

end

end Composite

open Composite in
theorem compositeLiteral_complete (pos : Position) (items : List Expr) (deep : Prop)
    (areItems : Expr.AllItems items) :
    Reads compositeLiteral (Expr.composite pos items).printed (fun _ => True) deep
      (·.bare = (Expr.composite pos items).bare) := by
  intro s rest spelled _
  refine Succeeds.bind_position (Succeeds.bind (Succeeds.require spelled) fun _ r spelled => ?_)
  refine Succeeds.bind (P := fun state r => ∃ found, state = .finished (.composite s.token.pos found) ∧
    Expr.bareAll found = Expr.bareAll items ∧ r.upcoming = rest) ?_ ?_
  · refine items_read items areItems spelled fun found r same spelled => ?_
    rw [closed_addAll_start]
    cases spelled
    exact Succeeds.foldWhile_stop (not_takes_of_kind rfl) ⟨found, rfl, same, rfl⟩
  · rintro _ r ⟨found, rfl, same, ended⟩
    exact Succeeds.pure ⟨by simp only [Expr.bare, same], ended⟩

end MiniC
