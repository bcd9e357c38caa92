import MiniC.Proofs.Parser.Along

/-!
Where a parser leads, followed closely or loosely. `Tracks close p s Q` says that
the run of `p` from `s` ends with a value and a rest that satisfy `Q`; if it is to
be followed closely, that is asked only of a run that reports nothing. A run that
reports something is followed loosely from there on, as the words that it misses
and the tokens that it passes over are of no account then.
-/

namespace MiniC.Parser

open Waypoint (symbol commas)

variable {α β σ : Type} {close : Prop}

def Tracks (close : Prop) (p : Parser α) (s : Stream) (Q : α → Stream → Prop) : Prop :=
  (close → s.Exact ∧ (p.run s).log.raised = []) → Q (p.run s).value (p.run s).rest

/-- What is read lies along the tokens that are passed. -/
def Follows (close : Prop) (p : Parser α) (course : α → List Waypoint) : Prop :=
  ∀ s, Tracks close p s fun a r => Along close (course a) s r

namespace Tracks

variable {p : Parser α} {s : Stream} {P Q : α → Stream → Prop} {f : α → Parser β}
  {R : β → Stream → Prop}

theorem mono (tracks : Tracks close p s P) (weaker : ∀ a r, P a r → Q a r) : Tracks close p s Q :=
  fun silent => weaker _ _ (tracks silent)

/-- What is known of silent runs is known of those that are followed closely. -/
theorem quiet (tracks : Tracks close p s P) (quiet : Quiet p s Q) :
    Tracks close p s fun a r => P a r ∧ (close → Q a r) :=
  fun silent => ⟨tracks silent, fun holds => quiet (silent holds).1 (silent holds).2⟩

/-- What is left is a rest of the stream. -/
theorem rest (tracks : Tracks close p s P) : Tracks close p s fun a r => P a r ∧ r.IsRest s :=
  fun silent => ⟨tracks silent, p.isRest s⟩

theorem gives {good : α → Prop} (tracks : Tracks close p s P) (gives : Gives p good) :
    Tracks close p s fun a r => P a r ∧ good a :=
  fun silent => ⟨tracks silent, gives s⟩

theorem shorter (tracks : Tracks close p s P) (shortens : Shortens p s) :
    Tracks close p s fun a r => P a r ∧ (close → r.remaining < s.remaining) :=
  fun silent => ⟨tracks silent, fun _ => shortens⟩

theorem pure {a : α} (holds : Q a s) : Tracks close (pure a) s Q := fun _ => holds

theorem bind (first : Tracks close p s P)
    (next : ∀ a r, P a r → Tracks close (f a) r R) : Tracks close (p >>= f) s R := by
  intro silent
  have parts (holds : close) : (p.run s).log.raised = [] ∧
      ((f (p.run s).value).run (p.run s).rest).log.raised = [] := by
    have whole := (silent holds).2
    change Log.raised ((p.run s).log ++ ((f _).run (p.run s).rest).log) = [] at whole
    rwa [Log.raised_append, List.append_eq_nil_iff] at whole
  have before := first fun holds => ⟨(silent holds).1, (parts holds).1⟩
  exact next _ _ before fun holds => ⟨(p.isRest s).exact (silent holds).1, (parts holds).2⟩

theorem map {g : α → β} (tracks : Tracks close p s fun a r => R (g a) r) :
    Tracks close (g <$> p) s R :=
  bind tracks fun _ _ holds _ => holds

theorem peek {g : Token → Parser β} (next : Tracks close (g s.token) s R) :
    Tracks close (Parser.peek >>= g) s R := next

theorem peekKind {g : TokenKind → Parser β} (next : Tracks close (g s.token.kind) s R) :
    Tracks close (Parser.peekKind >>= g) s R := next

theorem position {g : Position → Parser β} (next : Tracks close (g s.token.pos) s R) :
    Tracks close (Parser.position >>= g) s R := next

theorem ite {c : Prop} [Decidable c] {yes no : Parser α} (isYes : c → Tracks close yes s Q)
    (isNo : ¬ c → Tracks close no s Q) : Tracks close (if c then yes else no) s Q := by
  by_cases holds : c
  · rw [if_pos holds]
    exact isYes holds
  · rw [if_neg holds]
    exact isNo holds

section Steps

variable {g : Unit → Parser β}

/-- Nothing that reports is followed closely. -/
theorem report {pos : Position} {problem : GrammarProblem}
    (next : ¬ close → Tracks close (g ()) s R) :
    Tracks close (Parser.report pos problem >>= g) s R := by
  refine bind (P := fun _ r => ¬ close ∧ r = s) (fun silent => ⟨fun holds => ?_, rfl⟩) ?_
  · exact absurd (silent holds).2 (List.cons_ne_nil _ _)
  · rintro _ _ ⟨loose, rfl⟩
    exact next loose

theorem missing {wanted : Wanted} (next : ¬ close → Tracks close (g ()) s R) :
    Tracks close (Parser.missing wanted >>= g) s R :=
  report next

theorem parsedFunction {name : String} {params : Nat} {pos : Position}
    (next : Tracks close (g ()) s R) :
    Tracks close (Parser.remark (.parsedFunction name params pos) >>= g) s R :=
  bind (P := fun _ r => r = s) (fun _ => rfl) fun _ _ same => same ▸ next

theorem advance (next : Tracks close (g ()) s.passed R) :
    Tracks close (Parser.advance >>= g) s R :=
  bind (P := fun _ r => r = s.passed) (fun _ => rfl) fun _ _ same => same ▸ next

theorem refuseDepth (next : ¬ close → ∀ r : Stream, r.IsRest s → Tracks close (g ()) r R) :
    Tracks close (Parser.refuseDepth >>= g) s R := by
  have refused : Tracks close Parser.refuseDepth s fun _ r => ¬ close ∧ r.IsRest s :=
    position (report fun loose => fun _ => ⟨loose, Parser.skipNested.isRest s⟩)
  refine bind refused ?_
  rintro _ r ⟨loose, isRest⟩
  exact next loose r isRest

/-- A required token is passed; on a close way it is there. -/
theorem require {kind : TokenKind} (present : kind ≠ .eof)
    (next : Along close [symbol kind] s s.passed → Tracks close (g ()) s.passed R) :
    Tracks close (Parser.require kind >>= g) s R := by
  have required : Tracks close (Parser.require kind) s fun _ r =>
      r = s.passed ∧ Along close [symbol kind] s s.passed := by
    refine peekKind (ite (fun _ => missing fun loose _ => ⟨rfl, ?_⟩) fun same _ => ⟨rfl, ?_⟩)
    · exact .passed _ fun holds => absurd holds loose
    · exact .passed _ fun _ => Stream.upcoming_of_kind (not_not.mp same ▸ present)
  refine bind required ?_
  rintro _ _ ⟨rfl, passed⟩
  exact next passed

theorem accepted {kind : TokenKind} (present : kind ≠ .eof) :
    Tracks close (Parser.accept kind) s fun taken r =>
      (taken = true ∧ r = s.passed ∧ Along close [symbol kind] s s.passed) ∨
        (taken = false ∧ r = s) := by
  refine peekKind (ite (fun same => advance (pure ?_)) fun _ => pure (.inr ⟨rfl, rfl⟩))
  exact .inl ⟨rfl, rfl, .passed _ fun _ => Stream.upcoming_of_kind (same ▸ present)⟩

theorem accept {kind : TokenKind} {g : Bool → Parser β} (present : kind ≠ .eof)
    (isNext : Along close [symbol kind] s s.passed → Tracks close (g true) s.passed R)
    (isOther : Tracks close (g false) s R) :
    Tracks close (Parser.accept kind >>= g) s R := by
  refine bind (accepted present) ?_
  rintro _ _ (⟨rfl, rfl, passed⟩ | ⟨rfl, rfl⟩)
  · exact isNext passed
  · exact isOther

end Steps

section Loops

/-- A round that gets on is not moved, if it is followed closely. -/
theorem moving (round : Tracks close p s fun a r => Q a r ∧ (close → r.remaining < s.remaining))
    (passing : ¬ close → ∀ a r, Q a r → Q a r.passed) : Tracks close (moving p) s Q := by
  intro silent
  by_cases gotOn : (p.run s).rest.remaining < s.remaining
  · have same : (Parser.moving p).run s = p.run s := if_pos gotOn
    rw [same] at silent ⊢
    exact (round silent).1
  · have same : (Parser.moving p).run s = ⟨(p.run s).value,
        (Parser.advance.run (p.run s).rest).rest,
        (p.run s).log ++ (Parser.advance.run (p.run s).rest).log⟩ := if_neg gotOn
    rw [same] at silent ⊢
    have own := round fun holds => by
      have whole := (silent holds).2
      rw [Log.raised_append, List.append_eq_nil_iff] at whole
      exact ⟨(silent holds).1, whole.1⟩
    exact passing (fun holds => gotOn (own.2 holds)) _ _ own.1

/-- What each round keeps holds where the loop stops, if every round passes a token. -/
theorem foldWhile {more : σ → TokenKind → Bool} {step : σ → Parser σ} {keeps : σ → Stream → Prop}
    (advances : ∀ state, Advances (more state) (step state))
    (round : ∀ state s, keeps state s → takes (more state) s = true →
      Tracks close (step state) s keeps)
    {start : σ} (holds : keeps start s) : Tracks close (foldWhile more step start) s keeps := by
  change Tracks close ⟨foldRun more step start, _⟩ s keeps
  unfold Tracks
  dsimp only
  fun_induction foldRun more step start s with
  | case1 state s taken first later ih =>
    intro silent
    have parts (isClose : close) : first.log.raised = [] ∧ later.log.raised = [] := by
      have whole := (silent isClose).2
      rwa [Log.raised_append, List.append_eq_nil_iff] at whole
    -- the step passes a token by itself, so it is run as it is
    have same : first = (step state).run s := (advances state).moving_run taken
    have next := round state s holds taken fun isClose =>
      ⟨(silent isClose).1, same ▸ (parts isClose).1⟩
    rw [← same] at next
    exact ih next fun isClose =>
      ⟨((Parser.moving (step state)).isRest s).exact (silent isClose).1, (parts isClose).2⟩
  | case2 state s stopped => exact fun _ => holds

variable {item : Parser α} {course : α → List Waypoint}

/-- The courses of the items, one behind the other. -/
theorem manyWhile {more : TokenKind → Bool}
    (round : ∀ s, takes more s = true → Tracks close item s fun a r =>
      Along close (course a) s r ∧ (close → r.remaining < s.remaining)) :
    Follows close (manyWhile more item) (·.flatMap course) := by
  intro s
  change Tracks close ⟨manyRun more item, _⟩ s _
  unfold Tracks
  dsimp only
  -- a round is followed closely only if all rounds behind it are silent, too
  fun_induction manyRun more item s with
  | case1 s taken first later ih =>
    intro silent
    have parts (isClose : close) : first.log.raised = [] ∧ later.log.raised = [] := by
      have whole := (silent isClose).2
      rwa [Log.raised_append, List.append_eq_nil_iff] at whole
    have here : Along close (course first.value) s first.rest :=
      moving (round s taken) (fun loose a r along => along.further loose r.passed_isRest)
        fun isClose => ⟨(silent isClose).1, (parts isClose).1⟩
    have others := ih fun isClose =>
      ⟨((Parser.moving item).isRest s).exact (silent isClose).1, (parts isClose).2⟩
    exact here.append others
  | case2 s stopped => exact fun _ => .done s

end Loops

end Tracks

namespace Follows

variable {item : Parser α} {course : α → List Waypoint} (follows : Follows close item course)

include follows

theorem manyWhile {more : TokenKind → Bool} (advances : Advances more item) :
    Follows close (manyWhile more item) (·.flatMap course) :=
  Tracks.manyWhile fun s taken => (follows s).shorter (advances s taken)

/-- Items behind commas. -/
theorem behindCommas : Follows close (Parser.manyWhile (· = .comma) (do advance; item))
    (·.flatMap fun a => symbol .comma :: course a) := by
  refine Tracks.manyWhile fun s taken => Tracks.shorter ?_ (advances_advance _ _ s taken)
  have comma : Along close [symbol .comma] s s.passed :=
    .passed _ fun _ => Stream.upcoming_of_remaining (remaining_pos_of_takes taken)
  exact Tracks.advance ((follows s.passed).mono fun a r along => comma.append along)

theorem commaList (kind : TokenKind) :
    Follows close (commaList kind item) fun as => commas (as.map course) := by
  intro s
  refine Tracks.peekKind (Tracks.ite (fun _ => Tracks.pure (.done s)) fun _ => ?_)
  refine Tracks.bind (follows s) fun first middle here => ?_
  refine Tracks.bind (follows.behindCommas middle) fun later r others => Tracks.pure ?_
  change Along close (course first ++ (later.map course).flatMap (symbol .comma :: ·)) s r
  rw [List.flatMap_map]
  exact here.append others

end Follows

end MiniC.Parser
