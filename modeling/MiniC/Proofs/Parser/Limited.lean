import MiniC.Proofs.Parser.Skips
import MiniC.Proofs.Parser.SucceedsLoop

/-!
What a parser does on tokens that nest too deep for it. `Limited p s Q` says
that a run of `p` from `s` reports nothing but the limit, if no faults are to be
met, and ends with a value and a rest that satisfy `Q`. A parser that is cut
short in its text leaves what skipping leaves, so `ReadsOrSkips` has two ends
for a run; they are one where the enclosing production goes on.
-/

namespace MiniC

theorem Stream.IsRest.ahead_eq_nil {rest s : Stream} (isRest : rest.IsRest s)
    (none : s.ahead = []) : rest.ahead = [] := by
  cases left : rest.upcoming with
  | nil => rw [Stream.ahead, left]
  | cons lexeme later =>
    cases whole : s.upcoming with
    | nil =>
      have suffix := isRest.suffix
      rw [left, whole, List.suffix_nil] at suffix
      cases suffix
    | cons first others =>
      simp only [Stream.ahead, whole, List.append_eq_nil_iff, List.flatMap_eq_nil_iff] at none
      simp only [Stream.ahead, left, isRest.endFaults, none.2, List.append_nil,
        List.flatMap_eq_nil_iff]
      intro token member
      have suffix := isRest.suffix
      rw [left, whole] at suffix
      have behind : later <:+ others := by
        rcases List.suffix_cons_iff.mp suffix with same | within
        · cases same
          exact List.suffix_rfl
        · exact (List.suffix_cons _ _).trans within
      exact none.1 token (behind.subset member)

/-- No diagnostic but the limit on nesting. -/
def Log.OnlyTooDeep (log : Log) : Prop := ∀ d ∈ log.raised, d.kind = .nestingTooDeep

theorem Log.OnlyTooDeep.append {sooner later : Log} (before : sooner.OnlyTooDeep)
    (after : later.OnlyTooDeep) : Log.OnlyTooDeep (sooner ++ later) := by
  intro d member
  rw [Log.raised_append, List.mem_append] at member
  exact member.elim (before d) (after d)

namespace Parser

variable {α β σ : Type}

def Limited (p : Parser α) (s : Stream) (Q : α → Stream → Prop) : Prop :=
  s.ahead = [] → (p.run s).log.OnlyTooDeep ∧ Q (p.run s).value (p.run s).rest

theorem Succeeds.limited {p : Parser α} {s : Stream} {Q : α → Stream → Prop}
    (succeeds : Succeeds p s False Q) : Limited p s Q := by
  intro none
  rcases succeeds with ⟨clean, holds⟩ | ⟨never, _⟩
  · rw [Clean, none, List.append_eq_nil_iff] at clean
    refine ⟨fun d member => ?_, holds⟩
    rw [clean.1] at member
    cases member
  · exact never.elim

namespace Limited

variable {p : Parser α} {s : Stream} {P Q : α → Stream → Prop} {R : β → Stream → Prop}

theorem mono (limited : Limited p s P) (weaker : ∀ a r, P a r → Q a r) : Limited p s Q :=
  fun none => (limited none).imp_right (weaker _ _)

theorem pure {a : α} (holds : Q a s) : Limited (pure a) s Q := fun _ => ⟨nofun, holds⟩

theorem bind {f : α → Parser β} (first : Limited p s P)
    (next : ∀ a r, P a r → Limited (f a) r R) : Limited (p >>= f) s R := by
  intro none
  obtain ⟨before, holds⟩ := first none
  obtain ⟨after, final⟩ := next _ _ holds ((p.isRest s).ahead_eq_nil none)
  exact ⟨before.append after, final⟩

theorem map {f : α → β} (limited : Limited p s fun a r => R (f a) r) : Limited (f <$> p) s R :=
  bind limited fun _ _ holds => pure holds

theorem bind_peek {f : Token → Parser β} (next : Limited (f s.token) s R) :
    Limited (peek >>= f) s R := next

theorem bind_peekKind {f : TokenKind → Parser β} (next : Limited (f s.token.kind) s R) :
    Limited (peekKind >>= f) s R := next

theorem bind_position {f : Position → Parser β} (next : Limited (f s.token.pos) s R) :
    Limited (position >>= f) s R := next

theorem advance : Limited advance s fun _ r => r.upcoming = s.upcoming.tail := by
  cases same : s.upcoming with
  | nil =>
    have run : Parser.advance.run s = ⟨(), s, [.token s.token]⟩ := by
      simp [Parser.advance, same]
    intro _
    rw [run]
    exact ⟨fun _ none => absurd none List.not_mem_nil, same⟩
  | cons lexeme later =>
    -- Any token is spelled by its own kind and text.
    have spelled : Spelled [.exact lexeme.token.kind lexeme.token.text] s.upcoming later :=
      same ▸ Spelled.one ⟨rfl, rfl⟩
    exact Succeeds.limited ((Succeeds.advance spelled).mono fun _ _ ended => ended.eq_of_nil)

theorem advanceMany (n : Nat) : Limited (advanceMany n) s fun _ _ => True := by
  induction n generalizing s with
  | zero => exact pure trivial
  | succ n ih => exact bind advance fun _ _ _ => ih

theorem report_tooDeep {pos : Position} :
    Limited (report pos .tooDeep) s fun _ r => r = s := by
  refine fun _ => ⟨fun d member => ?_, rfl⟩
  cases List.mem_singleton.mp member
  rfl

theorem refuseDepth : Limited refuseDepth s fun _ r => r.upcoming = skipped s.upcoming := by
  refine bind_position (bind report_tooDeep ?_)
  rintro _ _ rfl none
  refine ⟨(advanceMany _ none).1, ?_⟩
  exact advanceMany_upcoming _ _

theorem moving_of_shortens (shortens : Shortens p s) (limited : Limited p s Q) :
    Limited (moving p) s Q := by
  have same : (Parser.moving p).run s = p.run s := if_pos shortens
  unfold Limited
  rw [same]
  exact limited

/-- A round that stands still is moved on by a token. -/
theorem moving {I : Stream → Prop}
    (limited : Limited p s fun _ r => I r ∧
      (r.upcoming = s.upcoming → ∀ moved, moved.upcoming = s.upcoming.tail → I moved)) :
    Limited (moving p) s fun _ r => I r := by
  by_cases gotOn : (p.run s).rest.remaining < s.remaining
  · exact moving_of_shortens gotOn (limited.mono fun _ _ => And.left)
  · have stood : (p.run s).rest = s := (p.isRest s).eq_of_remaining (Nat.not_lt.mp gotOn)
    have split : (Parser.moving p).run s = ⟨(p.run s).value, (Parser.advance.run s).rest,
        (p.run s).log ++ (Parser.advance.run s).log⟩ := by
      simp [Parser.moving, stood]
    intro none
    obtain ⟨before, _, standing⟩ := limited none
    obtain ⟨after, passed⟩ := advance none
    rw [split]
    exact ⟨before.append after, standing (congrArg Stream.upcoming stood) _ passed⟩

/-- What each round keeps holds when the loop ends. -/
theorem manyWhile {more : TokenKind → Bool} {I : Stream → Prop}
    (round : ∀ s, I s → takes more s = true → Limited (Parser.moving p) s fun _ r => I r)
    (holds : I s) :
    Limited (manyWhile more p) s fun _ r => I r ∧ takes more r = false := by
  intro none
  change (manyRun more p s).log.OnlyTooDeep ∧ I (manyRun more p s).rest ∧
    takes more (manyRun more p s).rest = false
  fun_induction manyRun more p s with
  | case1 s taken first later ih =>
    obtain ⟨before, kept⟩ := round s holds taken none
    obtain ⟨after, ended⟩ := ih kept (((Parser.moving p).isRest s).ahead_eq_nil none)
    exact ⟨before.append after, ended⟩
  | case2 s stopped =>
    exact ⟨fun _ none => absurd none List.not_mem_nil, holds, by simpa using stopped⟩

theorem manyWhile_step {more : TokenKind → Bool} {Q : List α → Stream → Prop}
    (taken : takes more s = true) (first : Limited (Parser.moving p) s P)
    (later : ∀ a r, P a r → Limited (Parser.manyWhile more p) r fun as => Q (a :: as)) :
    Limited (Parser.manyWhile more p) s Q := by
  have unrolled : (Parser.manyWhile more p).run s =
      (do
        let a ← Parser.moving p
        let as ← Parser.manyWhile more p
        Pure.pure (a :: as)).run s := by
    change manyRun more p s = _
    rw [manyRun, dif_pos taken]
    simp [Bind.bind, Parser.bind, Pure.pure, Parser.pure, Parser.manyWhile]
  unfold Limited
  rw [unrolled]
  exact bind first fun a r holds => bind (later a r holds) fun _ _ final => pure final

section Fold

variable {more : σ → TokenKind → Bool} {step : σ → Parser σ} {state : σ} {Q : σ → Stream → Prop}

theorem foldWhile_stop (stopped : takes (more state) s = false) (holds : Q state s) :
    Limited (foldWhile more step state) s Q :=
  (Succeeds.foldWhile_stop stopped holds).limited

theorem foldWhile_step {P : σ → Stream → Prop}
    (advances : ∀ state, Advances (more state) (step state))
    (taken : takes (more state) s = true) (first : Limited (step state) s P)
    (later : ∀ next r, P next r → Limited (foldWhile more step next) r Q) :
    Limited (foldWhile more step state) s Q := by
  have unrolled : (foldWhile more step state).run s =
      (Parser.moving (step state) >>= foldWhile more step).run s := by
    change foldRun more step state s = _
    rw [foldRun, dif_pos taken]
    rfl
  unfold Limited
  rw [unrolled]
  exact bind (moving_of_shortens (advances state s taken) first) later

end Fold

end Limited

/-- The parser reads a text, or is cut short in it and leaves what skipping
leaves. -/
def ReadsOrSkips (p : Parser α) (text : List Written) (follow : TokenKind → Prop) : Prop :=
  ∀ s rest, Spelled text s.upcoming rest → follow (frontKind rest) →
    Limited p s fun _ r => r.upcoming = rest ∨ r.upcoming = skipped rest

namespace ReadsOrSkips

variable {p : Parser α} {s : Stream} {text later : List Written} {follow : TokenKind → Prop}
  {rest : List Lexeme}

theorem before (reads : ReadsOrSkips p text follow) (skips : SkipsOver 0 later)
    (spelled : Spelled (text ++ later) s.upcoming rest)
    (follows : ∀ middle, Spelled later middle rest → follow (frontKind middle)) :
    Limited p s fun _ r => Spelled later r.upcoming rest ∨ r.upcoming = skipped rest := by
  obtain ⟨middle, sooner, later⟩ := spelled.split
  refine (reads s middle sooner (follows middle later)).mono fun _ r ended => ?_
  rw [skips.skipped_eq later] at ended
  exact ended.imp_left fun (same : r.upcoming = middle) => same ▸ later

/-- In front of a token where skipping ends, both ends of a run are the same. -/
theorem exact (reads : ReadsOrSkips p text follow) (spelled : Spelled text s.upcoming rest)
    (follows : follow (frontKind rest)) (ends : endsSkipping (frontKind rest) = true) :
    Limited p s fun _ r => r.upcoming = rest := by
  refine (reads s rest spelled follows).mono fun _ r ended => ?_
  rw [skipped_of_ends ends] at ended
  exact ended.elim id id

theorem beforeToken {written : Written} (reads : ReadsOrSkips p text follow)
    (spelled : Spelled (text ++ written :: later) s.upcoming rest) (follows : follow written.kind)
    (ends : endsSkipping written.kind = true) :
    Limited p s fun _ r => Spelled (written :: later) r.upcoming rest := by
  obtain ⟨middle, sooner, later⟩ := spelled.split
  rw [← later.frontKind_eq] at follows ends
  exact (reads.exact sooner follows ends).mono fun _ r same => same ▸ later

section Lists

variable {ι : Type} {item : Parser α} {printed : ι → List Written} {close : TokenKind}

/-- The items behind the first one, each with its comma. An item that is cut
short takes the others with it. -/
theorem laterItems (items : List ι)
    (reads : ∀ x ∈ items, ReadsOrSkips item (printed x) fun kind => kind = .comma ∨ kind = close)
    (skips : ∀ x ∈ items, SkipsOver 0 (printed x)) (ends : endsSkipping close = true)
    (closes : frontKind rest = close)
    (start : Spelled (items.flatMap (.symbol .comma :: printed ·)) s.upcoming rest ∨
      s.upcoming = skipped rest) :
    Limited (manyWhile (· = .comma) (do advance; item)) s fun _ r => r.upcoming = rest := by
  have notComma : close ≠ .comma := fun same => by simp [same, endsSkipping, isClosing] at ends
  -- the loop stands in front of the commas of the last few items
  let I : Stream → Prop := fun s => ∃ left : List ι, left <:+ items ∧
    Spelled (left.flatMap (.symbol .comma :: printed ·)) s.upcoming rest
  have reached {s : Stream} (cut : s.upcoming = skipped rest) : I s := by
    rw [skipped_of_ends (closes ▸ ends)] at cut
    exact ⟨[], List.nil_suffix, cut ▸ .nil rest⟩
  have round : ∀ s, I s → takes (· = .comma) s = true →
      Limited (moving (do advance; item)) s fun _ r => I r := by
    rintro s ⟨left, within, spelled⟩ taken
    cases left with
    | nil =>
      -- what closes the list is no comma
      simp [takes, s.token_kind, spelled.eq_of_nil, closes, notComma] at taken
    | cons x later =>
      have member := within.subset List.mem_cons_self
      have areLater : later <:+ items := (List.suffix_cons _ _).trans within
      have skipsLater : SkipsOver 0 (later.flatMap (.symbol .comma :: printed ·)) :=
        .flatMap fun y isLater => .cons rfl (skips y (areLater.subset isLater))
      refine Limited.moving_of_shortens (advances_advance _ _ s taken) ?_
      refine Limited.bind (Succeeds.advance spelled).limited fun _ middle spelled => ?_
      refine ((reads x member).before skipsLater spelled fun behind after => ?_).mono ?_
      · cases later with
        | nil =>
          cases after
          exact .inr closes
        | cons => exact .inl after.frontKind_eq
      · rintro _ r (read | cut)
        · exact ⟨later, areLater, read⟩
        · exact reached cut
  have started : I s := start.elim (fun spelled => ⟨items, List.suffix_rfl, spelled⟩) reached
  refine (Limited.manyWhile round started).mono ?_
  rintro _ r ⟨⟨left, _, spelled⟩, stopped⟩
  cases left with
  | nil => exact spelled.eq_of_nil
  | cons x later =>
    have isComma : r.token.kind = .comma := (Succeeds.token_spells spelled).1
    rw [takes_of_kind (by rw [isComma]; decide) (by simpa using isComma)] at stopped
    cases stopped

/-- A list with commas, or nothing, in front of its closing token. -/
theorem commaList (items : List ι)
    (reads : ∀ x ∈ items, ReadsOrSkips item (printed x) fun kind => kind = .comma ∨ kind = close)
    (skips : ∀ x ∈ items, SkipsOver 0 (printed x)) (ends : endsSkipping close = true)
    (starts : ∀ x ∈ items, ∃ written text, printed x = written :: text ∧ written.kind ≠ close)
    (spelled : Spelled (Written.commas (items.map printed)) s.upcoming rest)
    (closes : frontKind rest = close) :
    Limited (commaList close item) s fun _ r => r.upcoming = rest := by
  refine Limited.bind_peekKind ?_
  cases items with
  | nil =>
    cases spelled
    rw [if_pos (s.token_kind ▸ closes)]
    exact Limited.pure rfl
  | cons first later =>
    obtain ⟨written, text, shape, other⟩ := starts first List.mem_cons_self
    have front : s.token.kind = written.kind := by
      rw [List.map_cons, Written.commas, shape] at spelled
      exact s.token_kind ▸ spelled.frontKind_eq
    rw [if_neg (front ▸ other)]
    obtain ⟨readsFirst, readsLater⟩ := List.forall_mem_cons.mp reads
    obtain ⟨_, skipsLater⟩ := List.forall_mem_cons.mp skips
    rw [List.map_cons, Written.commas, List.flatMap_map] at spelled
    refine Limited.bind (readsFirst.before ?_ spelled fun behind after => ?_) fun _ r read => ?_
    · exact .flatMap fun y isLater => .cons rfl (skipsLater y isLater)
    · cases later with
      | nil =>
        cases after
        exact .inr closes
      | cons => exact .inl after.frontKind_eq
    · exact Limited.bind (laterItems later readsLater skipsLater ends closes read) fun _ _ same =>
        Limited.pure same

end Lists

end ReadsOrSkips

end Parser

end MiniC
