import MiniC.Proofs.Parser.Shortens

/-!
Where a production calls the parsers it is built on. It calls them on shorter
streams only if it does the same with any other parsers that agree with them
there. Two parsers agree below `n` if they do the same on all streams of fewer
than `n` tokens; a production that passes a token before each call thus gains
one token of agreement, and one that calls in place keeps what there is.
-/

namespace MiniC.Parser

variable {α β σ : Type}

def AgreeAt (p q : Parser α) (s : Stream) : Prop := p.run s = q.run s

def Agree (n : Nat) (p q : Parser α) : Prop := ∀ s, s.remaining < n → AgreeAt p q s

namespace AgreeAt

variable {p q : Parser α} {f g : α → Parser β} {s : Stream}

theorem bind (first : AgreeAt p q s)
    (next : AgreeAt (f (p.run s).value) (g (p.run s).value) (p.run s).rest) :
    AgreeAt (p >>= f) (q >>= g) s := by
  change (Parser.bind p f).run s = (Parser.bind q g).run s
  unfold AgreeAt at first next
  unfold Parser.bind
  dsimp only
  rw [← first, next]

theorem after (next : AgreeAt (f (p.run s).value) (g (p.run s).value) (p.run s).rest) :
    AgreeAt (p >>= f) (p >>= g) s :=
  bind rfl next

/-- Looking at a token, which is there to be passed unless it is the end. -/
theorem peek {f g : Token → Parser β}
    (next : ∀ token : Token, (token.kind ≠ .eof → 0 < s.remaining) →
      AgreeAt (f token) (g token) s) : AgreeAt (Parser.peek >>= f) (Parser.peek >>= g) s :=
  after (next s.token Stream.remaining_pos)

theorem peekKind {f g : TokenKind → Parser β}
    (next : ∀ kind : TokenKind, (kind ≠ .eof → 0 < s.remaining) → AgreeAt (f kind) (g kind) s) :
    AgreeAt (Parser.peekKind >>= f) (Parser.peekKind >>= g) s :=
  after (next s.token.kind Stream.remaining_pos)

/-- What comes after a token has been passed. -/
theorem pass {n : Nat} (shortens : Shortens p s) (bound : s.remaining < n + 1)
    (next : ∀ a, Agree n (f a) (g a)) : AgreeAt (p >>= f) (p >>= g) s :=
  after (next _ _ (Nat.lt_of_lt_of_le shortens (Nat.le_of_lt_succ bound)))

theorem ite {c : Prop} [Decidable c] {p' q' : Parser α} (yes : c → AgreeAt p q s)
    (no : ¬ c → AgreeAt p' q' s) : AgreeAt (if c then p else p') (if c then q else q') s := by
  by_cases holds : c
  · rw [if_pos holds, if_pos holds]
    exact yes holds
  · rw [if_neg holds, if_neg holds]
    exact no holds

theorem moving (same : AgreeAt p q s) : AgreeAt (moving p) (moving q) s := by
  unfold AgreeAt Parser.moving at *
  dsimp only
  rw [same]

end AgreeAt

namespace Agree

variable {n : Nat} {p q : Parser α} {f g : α → Parser β}

theorem refl (p : Parser α) : Agree n p p := fun _ _ => rfl

theorem mono {m : Nat} (agree : Agree n p q) (fewer : m ≤ n) : Agree m p q :=
  fun s bound => agree s (Nat.lt_of_lt_of_le bound fewer)

theorem bind (first : Agree n p q) (next : ∀ a, Agree n (f a) (g a)) :
    Agree n (p >>= f) (q >>= g) :=
  fun s bound => (first s bound).bind
    (next _ _ (Nat.lt_of_le_of_lt (p.isRest s).remaining_le bound))

theorem after (next : ∀ a, Agree n (f a) (g a)) : Agree n (p >>= f) (p >>= g) :=
  bind (refl p) next

/-- What is done with the value is the same. -/
theorem before (first : Agree n p q) : Agree n (p >>= f) (q >>= f) :=
  bind first fun a => refl (f a)

theorem map {h : α → β} (agree : Agree n p q) : Agree n (h <$> p) (h <$> q) := before agree

theorem ite {c : Prop} [Decidable c] {p' q' : Parser α} (yes : Agree n p q)
    (no : Agree n p' q') : Agree n (if c then p else p') (if c then q else q') :=
  fun s bound => AgreeAt.ite (fun _ => yes s bound) fun _ => no s bound

/-- Rounds need to agree only where the loop takes them. -/
theorem manyWhile {more : TokenKind → Bool}
    (rounds : ∀ s, s.remaining < n → takes more s = true → AgreeAt p q s) :
    Agree n (manyWhile more p) (manyWhile more q) := by
  intro s bound
  change manyRun more p s = manyRun more q s
  fun_induction manyRun more p s with
  | case1 s taken first later ih =>
    have round : (moving p).run s = (moving q).run s := (rounds s bound taken).moving
    have rest := (moving p).isRest s
    have others := ih (Nat.lt_of_le_of_lt rest.remaining_le bound)
    rw [manyRun.eq_def more q s, dif_pos taken, ← round]
    dsimp only
    rw [← others]
  | case2 s stopped => rw [manyRun.eq_def more q s, dif_neg stopped]

theorem foldWhile {more : σ → TokenKind → Bool} {step other : σ → Parser σ}
    (rounds : ∀ state s, s.remaining < n → takes (more state) s = true →
      AgreeAt (step state) (other state) s) (start : σ) :
    Agree n (foldWhile more step start) (foldWhile more other start) := by
  intro s bound
  change foldRun more step start s = foldRun more other start s
  fun_induction foldRun more step start s with
  | case1 state s taken first later ih =>
    have round : (moving (step state)).run s = (moving (other state)).run s :=
      (rounds state s bound taken).moving
    have rest := (moving (step state)).isRest s
    have others := ih (Nat.lt_of_le_of_lt rest.remaining_le bound)
    rw [foldRun.eq_def more other state s, dif_pos taken, ← round]
    dsimp only
    rw [← others]
  | case2 state s stopped => rw [foldRun.eq_def more other state s, dif_neg stopped]

theorem commaSeparated (agree : Agree n p q) :
    Agree n (commaSeparated p) (commaSeparated q) := by
  apply bind agree
  intro first
  apply before
  exact manyWhile fun s bound _ => after (fun _ => agree) s bound

theorem commaList (close : TokenKind) (agree : Agree n p q) :
    Agree n (commaList close p) (commaList close q) :=
  after fun _ => ite (refl _) agree.commaSeparated

end Agree

end MiniC.Parser
