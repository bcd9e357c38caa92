import MiniC.Proofs.Parser.QuietLoop

/-!
What passes a token. A loop whose round does so whenever the loop goes on needs
nothing else to come to its end; for such a loop the token that is passed for a
round that stands still is never needed.
-/

namespace MiniC.Parser

variable {α β : Type}

/-- The run passes at least one token. -/
def Shortens (p : Parser α) (s : Stream) : Prop := (p.run s).rest.remaining < s.remaining

/-- Every round passes a token where the loop goes on. -/
def Advances (more : TokenKind → Bool) (round : Parser α) : Prop :=
  ∀ s, takes more s = true → Shortens round s

section Shortens

variable {p : Parser α} {f : α → Parser β} {s : Stream}

theorem Shortens.before (shortens : Shortens p s) : Shortens (p >>= f) s :=
  Nat.lt_of_le_of_lt ((f _).isRest _).remaining_le shortens

theorem Shortens.behind (shortens : Shortens (f (p.run s).value) (p.run s).rest) :
    Shortens (p >>= f) s :=
  Nat.lt_of_lt_of_le shortens (p.isRest s).remaining_le

/-- It does not matter what is made of the value. -/
theorem Shortens.map {g : α → β} (shortens : Shortens p s) : Shortens (g <$> p) s := shortens

theorem advance_shortens (more : 0 < s.remaining) : Shortens advance s := by
  unfold Shortens
  rw [advance_remaining]
  exact Nat.sub_lt more Nat.one_pos

theorem require_shortens (kind : TokenKind) (more : 0 < s.remaining) :
    Shortens (require kind) s := by
  unfold require
  apply Shortens.behind
  dsimp only [peekKind]
  split
  · exact Shortens.behind (advance_shortens more)
  · exact advance_shortens more

theorem accept_shortens {kind : TokenKind} (present : s.token.kind = kind)
    (more : 0 < s.remaining) : Shortens (accept kind) s := by
  apply Shortens.behind
  change Shortens (if s.token.kind = kind then _ else _) s
  rw [if_pos present]
  exact Shortens.before (advance_shortens more)

/-- Another token is left where it is. -/
theorem accept_run_other {kind : TokenKind} (other : s.token.kind ≠ kind) :
    (accept kind).run s = ⟨false, s, []⟩ := by
  have stays : (accept kind).run s =
      (if s.token.kind = kind then (do advance; pure true) else pure false).run s := rfl
  rw [stays, if_neg other]
  rfl

end Shortens

/-- A round that begins by passing a token. -/
theorem advances_advance (more : TokenKind → Bool) (next : Unit → Parser β) :
    Advances more (advance >>= next) :=
  fun _ taken => Shortens.before (advance_shortens (remaining_pos_of_takes taken))

theorem advances_moving (more : TokenKind → Bool) (round : Parser α) :
    Advances more (moving round) :=
  fun s taken => moving_shortens round s (remaining_pos_of_takes taken)

theorem Advances.moving_run {more : TokenKind → Bool} {round : Parser α}
    (advances : Advances more round) {s : Stream} (taken : takes more s = true) :
    (moving round).run s = round.run s :=
  if_pos (advances s taken)

/-- A loop has no more rounds than there are tokens. -/
theorem manyRun_length_le (more : TokenKind → Bool) (item : Parser α) (s : Stream) :
    (manyRun more item s).value.length ≤ s.remaining := by
  fun_induction manyRun more item s with
  | case1 s taken first later ih =>
    have shorter := moving_shortens item s (remaining_pos_of_takes taken)
    exact Nat.le_trans (Nat.succ_le_succ ih) shorter
  | case2 s stopped => exact Nat.zero_le _

theorem advanceMany_remaining (n : Nat) (s : Stream) :
    ((advanceMany n).run s).rest.remaining = s.remaining - n := by
  induction n generalizing s with
  | zero => rfl
  | succ n ih =>
    change ((advanceMany n).run (advance.run s).rest).rest.remaining = _
    rw [ih, advance_remaining]
    omega

theorem nestedLength_le (opened : Nat) (kinds : List TokenKind) :
    nestedLength opened kinds ≤ kinds.length := by
  induction kinds generalizing opened with
  | nil => exact Nat.le_refl 0
  | cons kind rest ih =>
    unfold nestedLength
    repeat' split
    all_goals first | exact Nat.zero_le _ | exact Nat.succ_le_succ (ih _)

/-- Each step of skipping passes a token. -/
theorem skipNested_remaining (s : Stream) :
    (skipNested.run s).rest.remaining + nestedLength 0 s.kinds = s.remaining := by
  have bound := nestedLength_le 0 s.kinds
  have count : s.kinds.length = s.remaining := by
    rw [s.remaining_eq]
    exact List.length_map _
  rw [count] at bound
  change ((advanceMany _).run s).rest.remaining + _ = _
  rw [advanceMany_remaining]
  exact Nat.sub_add_cancel bound

theorem advance_upcoming (s : Stream) : (advance.run s).rest.upcoming = s.upcoming.tail := by
  unfold advance
  dsimp only
  split
  · next none => rw [List.isEmpty_iff.mp none, List.tail_nil]
  · rfl

theorem advanceMany_upcoming (n : Nat) (s : Stream) :
    ((advanceMany n).run s).rest.upcoming = s.upcoming.drop n := by
  induction n generalizing s with
  | zero => rfl
  | succ n ih =>
    change ((advanceMany n).run (advance.run s).rest).rest.upcoming = _
    rw [ih, advance_upcoming, List.drop_tail]

/-- What an enclosing production goes on with. -/
def isEnclosing (kind : TokenKind) : Bool := isClosing kind || kind = .semicolon || kind = .eof

theorem nestedLength_stops (opened : Nat) (kinds : List TokenKind) :
    ∀ kind ∈ (kinds.drop (nestedLength opened kinds)).head?, isEnclosing kind = true := by
  induction kinds generalizing opened with
  | nil => exact nofun
  | cons first rest ih =>
    unfold nestedLength
    split
    · exact ih _
    · split
      · next closing =>
        split
        · rintro kind ⟨⟩
          rw [isEnclosing, closing]
          rfl
        · exact ih _
      · split
        · next stops =>
          rw [Bool.and_eq_true, decide_eq_true_eq, decide_eq_true_eq] at stops
          obtain ⟨isSemicolon, _⟩ := stops
          rintro kind ⟨⟩
          rw [isSemicolon]
          rfl
        · exact ih _

/-- Skipping leaves the token that belongs to an enclosing production. -/
theorem skipNested_stops (s : Stream) : isEnclosing (skipNested.run s).rest.token.kind = true := by
  have skipped : (skipNested.run s).rest.upcoming = s.upcoming.drop (nestedLength 0 s.kinds) :=
    advanceMany_upcoming _ s
  have stops := nestedLength_stops 0 s.kinds
  have kinds : s.kinds.drop (nestedLength 0 s.kinds) =
      (s.upcoming.drop (nestedLength 0 s.kinds)).map (·.token.kind) := List.map_drop.symm
  rw [kinds] at stops
  rw [Stream.token_kind, skipped]
  cases left : s.upcoming.drop (nestedLength 0 s.kinds) with
  | nil => rfl
  | cons lexeme later =>
    rw [left] at stops
    exact stops lexeme.token.kind rfl

end MiniC.Parser
