import MiniC.Proofs.Parser.Gives
import MiniC.Proofs.Parser.Shortens

/-!
Where a parser leads, problems or none. `Leads p s Q` says that the run of `p`
from `s` gives a value and leaves a rest that satisfy `Q`. What a parser does is
followed step by step, each step from the rest that the one before has left.
-/

namespace MiniC

/-- The stream behind its current token; at the end the stream itself. -/
def Stream.passed (s : Stream) : Stream := (Parser.advance.run s).rest

namespace Stream

variable {s : Stream}

theorem passed_of_more (more : s.upcoming ≠ []) : s.passed = s.tail := by
  change (Parser.advance.run s).rest = s.tail
  simp [Parser.advance, more]

theorem passed_of_ended (ended : s.upcoming = []) : s.passed = s := by
  change (Parser.advance.run s).rest = s
  simp [Parser.advance, ended]

theorem upcoming_passed : s.passed.upcoming = s.upcoming.tail := Parser.advance_upcoming s

end Stream

namespace Parser

variable {α β σ : Type}

def Leads (p : Parser α) (s : Stream) (Q : α → Stream → Prop) : Prop :=
  Q (p.run s).value (p.run s).rest

namespace Leads

variable {p : Parser α} {s : Stream} {P Q : α → Stream → Prop} {R : β → Stream → Prop}

theorem mono (leads : Leads p s P) (implies : ∀ a r, P a r → Q a r) : Leads p s Q :=
  implies _ _ leads

/-- What is left is a rest of the stream. -/
theorem mono_rest (leads : Leads p s P) (implies : ∀ a r, r.IsRest s → P a r → Q a r) :
    Leads p s Q :=
  implies _ _ (p.isRest s) leads

theorem gives {good : α → Prop} (leads : Leads p s P) (gives : Gives p good) :
    Leads p s fun a r => P a r ∧ good a :=
  ⟨leads, gives s⟩

theorem pure {a : α} (holds : Q a s) : Leads (pure a) s Q := holds

theorem bind {f : α → Parser β} (first : Leads p s P)
    (next : ∀ a r, r.IsRest s → P a r → Leads (f a) r R) : Leads (p >>= f) s R :=
  next _ _ (p.isRest s) first

theorem map {f : α → β} (leads : Leads p s fun a r => R (f a) r) : Leads (f <$> p) s R := leads

theorem peek {f : Token → Parser β} (next : Leads (f s.token) s R) :
    Leads (Parser.peek >>= f) s R := next

theorem peekKind {f : TokenKind → Parser β} (next : Leads (f s.token.kind) s R) :
    Leads (Parser.peekKind >>= f) s R := next

theorem position {f : Position → Parser β} (next : Leads (f s.token.pos) s R) :
    Leads (Parser.position >>= f) s R := next

theorem report {pos : Position} {problem : GrammarProblem} {f : Unit → Parser β}
    (next : Leads (f ()) s R) : Leads (Parser.report pos problem >>= f) s R := next

theorem missing {wanted : Wanted} {f : Unit → Parser β} (next : Leads (f ()) s R) :
    Leads (Parser.missing wanted >>= f) s R := next

theorem remark {remark : Remark} {f : Unit → Parser β} (next : Leads (f ()) s R) :
    Leads (Parser.remark remark >>= f) s R := next

theorem ite {c : Prop} [Decidable c] {yes no : Parser α} (isYes : c → Leads yes s Q)
    (isNo : ¬ c → Leads no s Q) : Leads (if c then yes else no) s Q := by
  by_cases holds : c
  · rw [if_pos holds]
    exact isYes holds
  · rw [if_neg holds]
    exact isNo holds

theorem advance {f : Unit → Parser β} (next : Leads (f ()) s.passed R) :
    Leads (Parser.advance >>= f) s R := next

/-- A required token is passed whatever it is. -/
theorem require_rest (kind : TokenKind) : ((Parser.require kind).run s).rest = s.passed := by
  change ((if s.token.kind ≠ kind then _ else _ : Parser Unit).run s).rest = _
  split <;> rfl

theorem require {kind : TokenKind} {f : Unit → Parser β} (next : Leads (f ()) s.passed R) :
    Leads (Parser.require kind >>= f) s R := by
  change Leads (f _) ((Parser.require kind).run s).rest R
  rwa [require_rest]

theorem accept {kind : TokenKind} {f : Bool → Parser β}
    (isNext : s.token.kind = kind → Leads (f true) s.passed R)
    (isOther : s.token.kind ≠ kind → Leads (f false) s R) :
    Leads (Parser.accept kind >>= f) s R := by
  have run : (Parser.accept kind).run s =
      (if s.token.kind = kind then (do Parser.advance; Pure.pure true) else Pure.pure false).run s :=
    rfl
  change Leads (f ((Parser.accept kind).run s).value) ((Parser.accept kind).run s).rest R
  rw [run]
  by_cases same : s.token.kind = kind
  · rw [if_pos same]
    exact isNext same
  · rw [if_neg same]
    exact isOther same

section Loops

/-- A round that may stand still is moved by a token. -/
theorem moving (leads : Leads p s Q) (passing : ∀ a r, Q a r → Q a r.passed) :
    Leads (moving p) s Q := by
  unfold Leads Parser.moving
  dsimp only
  split
  · exact leads
  · exact passing _ _ leads

theorem moving_of_shortens (shortens : Shortens p s) (leads : Leads p s Q) :
    Leads (Parser.moving p) s Q := by
  have same : (Parser.moving p).run s = p.run s := if_pos shortens
  unfold Leads
  rwa [same]

/-- What each round keeps holds where the loop stops. -/
theorem foldWhile {more : σ → TokenKind → Bool} {step : σ → Parser σ} {keeps : σ → Stream → Prop}
    (round : ∀ state r, keeps state r → takes (more state) r = true →
      Leads (Parser.moving (step state)) r keeps)
    {start : σ} (holds : keeps start s) :
    Leads (foldWhile more step start) s fun state r =>
      keeps state r ∧ takes (more state) r = false := by
  change (fun state r => keeps state r ∧ takes (more state) r = false)
    (foldRun more step start s).value (foldRun more step start s).rest
  fun_induction foldRun more step start s with
  | case1 state s taken first later ih => exact ih (round state s holds taken)
  | case2 state s stops => exact ⟨holds, Bool.not_eq_true _ ▸ stops⟩

/-- The same of the items read so far. -/
theorem manyWhile {more : TokenKind → Bool} {item : Parser α} {keeps : List α → Stream → Prop}
    (round : ∀ as r, keeps as r → takes more r = true →
      Leads (Parser.moving item) r fun a later => keeps (as ++ [a]) later)
    (holds : keeps [] s) :
    Leads (manyWhile more item) s fun as r => keeps as r ∧ takes more r = false := by
  suffices further : ∀ sofar, keeps sofar s →
      keeps (sofar ++ (manyRun more item s).value) (manyRun more item s).rest ∧
        takes more (manyRun more item s).rest = false from further [] holds
  clear holds
  intro sofar holds
  fun_induction manyRun more item s generalizing sofar with
  | case1 s taken first later ih =>
    have next := ih (sofar ++ [first.value]) (round sofar s holds taken)
    rwa [List.append_assoc, List.singleton_append] at next
  | case2 s stops => exact ⟨(List.append_nil sofar).symm ▸ holds, Bool.not_eq_true _ ▸ stops⟩

end Loops

end Leads

end Parser

end MiniC
