import MiniC.Proofs.Parser.Quiet

/-!
Loops that reported nothing. A round that printed something has got on by
itself, so no token was dropped to keep the loop moving.
-/

namespace MiniC.Parser.Quiet

variable {α σ : Type} {s : Stream}

theorem remaining_lt {text : List Written} {r : Stream} (spelled : Spelled text s.upcoming r.upcoming)
    (nonempty : text ≠ []) : r.remaining < s.remaining := by
  rw [r.remaining_eq, s.remaining_eq, spelled.length_eq]
  have := List.length_pos_iff.mpr nonempty
  omega

/-- A quiet round that gets on is not moved any further. -/
theorem moving {p : Parser α} {Q : α → Stream → Prop}
    (round : Quiet p s fun a r => Q a r ∧ r.remaining < s.remaining) : Quiet (moving p) s Q := by
  intro exact none
  by_cases gotOn : (p.run s).rest.remaining < s.remaining
  · have same : (Parser.moving p).run s = p.run s := by simp [Parser.moving, gotOn]
    rw [same] at none ⊢
    exact (round exact none).1
  · have split : ((Parser.moving p).run s).log =
        (p.run s).log ++ (Parser.advance.run (p.run s).rest).log := by
      simp [Parser.moving, gotOn]
    rw [split, Log.raised_append, List.append_eq_nil_iff] at none
    exact absurd (round exact none.1).2 gotOn

theorem kind_of_takes {more : TokenKind → Bool} (taken : takes more s = true) :
    more s.token.kind = true := by
  simp only [takes, Bool.and_eq_true] at taken
  exact taken.2

/-- Where a loop stops at a token, it does not take that token. -/
theorem kind_of_not_takes {more : TokenKind → Bool} (stopped : takes more s = false) :
    s.token.kind = .eof ∨ more s.token.kind = false := by
  simp only [takes, Bool.and_eq_false_iff, decide_eq_false_iff_not] at stopped
  cases stopped with
  | inl none =>
    left
    rw [Stream.token_kind]
    have ended : s.upcoming = [] := by
      rw [s.remaining_eq] at none
      exact List.length_eq_zero_iff.mp (by omega)
    rw [ended]
    rfl
  | inr refused => exact .inr refused

theorem manyWhile {more : TokenKind → Bool} {item : Parser α} {good : α → Prop}
    {printed : α → List Written}
    (round : ∀ s, takes more s = true → Quiet item s fun a r =>
      good a ∧ Spelled (printed a) s.upcoming r.upcoming ∧ printed a ≠ []) :
    Quiet (manyWhile more item) s fun as r =>
      (∀ a ∈ as, good a) ∧ Spelled (as.flatMap printed) s.upcoming r.upcoming ∧
        takes more r = false := by
  show Quiet ⟨manyRun more item, _⟩ s _
  intro exact
  dsimp only
  fun_induction manyRun more item s with
  | case1 s taken first later ih =>
    intro none
    rw [Log.raised_append, List.append_eq_nil_iff] at none
    have here := moving ((round s taken).mono fun a r holds =>
      ⟨holds, remaining_lt holds.2.1 holds.2.2⟩) exact none.1
    obtain ⟨goodFirst, spelledFirst, _⟩ := here
    obtain ⟨goodLater, spelledLater, stopped⟩ :=
      ih (((Parser.moving item).isRest s).exact exact) none.2
    exact ⟨List.forall_mem_cons.mpr ⟨goodFirst, goodLater⟩, spelledFirst.append spelledLater, stopped⟩
  | case2 s stopped =>
    intro _
    exact ⟨by simp, .nil _, by simpa using stopped⟩

/-- What every step keeps holds in the end. -/
theorem foldWhile {more : σ → TokenKind → Bool} {step : σ → Parser σ} {start : σ}
    {I : σ → Stream → Prop}
    (round : ∀ state s, I state s → takes (more state) s = true → Quiet (step state) s
      fun next r => I next r ∧ r.remaining < s.remaining)
    (holds : I start s) :
    Quiet (foldWhile more step start) s fun state r =>
      I state r ∧ takes (more state) r = false := by
  show Quiet ⟨foldRun more step start, _⟩ s _
  intro exact
  dsimp only
  fun_induction foldRun more step start s with
  | case1 state s taken first later ih =>
    intro none
    rw [Log.raised_append, List.append_eq_nil_iff] at none
    have here := moving (round state s holds taken) exact none.1
    exact ih here (((Parser.moving (step state)).isRest s).exact exact) none.2
  | case2 state s stopped =>
    intro _
    exact ⟨holds, by simpa using stopped⟩

section Lists

variable {item : Parser α} {good : α → Prop} {printed : α → List Written}

theorem commaSeparated
    (round : ∀ s, Quiet item s fun a r => good a ∧ Spelled (printed a) s.upcoming r.upcoming) :
    Quiet (commaSeparated item) s fun as r =>
      as ≠ [] ∧ (∀ a ∈ as, good a) ∧
        Spelled (Written.commas (as.map printed)) s.upcoming r.upcoming ∧
          r.token.kind ≠ .comma := by
  refine bind (round s) fun first middle sooner => ?_
  have later : Quiet (Parser.manyWhile (· = .comma) (do Parser.advance; item)) middle
      fun as r => (∀ a ∈ as, good a) ∧
        Spelled (as.flatMap (.symbol .comma :: printed ·)) middle.upcoming r.upcoming ∧
          takes (· = .comma) r = false := by
    refine manyWhile fun s taken => ?_
    have isComma : s.token.kind = .comma := by simpa using kind_of_takes taken
    refine bind (advance_symbol isComma rfl) fun _ next comma => ?_
    exact (round next).mono fun a r holds =>
      ⟨holds.1, comma.append holds.2, List.cons_ne_nil _ _⟩
  refine bind later fun as r rest => pure ?_
  refine ⟨List.cons_ne_nil _ _, List.forall_mem_cons.mpr ⟨sooner.1, rest.1⟩, ?_, ?_⟩
  · simp only [List.map_cons, Written.commas, List.flatMap_map]
    exact sooner.2.append rest.2.1
  · rcases kind_of_not_takes rest.2.2 with isEnd | other
    · simp [isEnd]
    · simpa using other

theorem commaList {close : TokenKind}
    (round : ∀ s, Quiet item s fun a r => good a ∧ Spelled (printed a) s.upcoming r.upcoming) :
    Quiet (commaList close item) s fun as r =>
      (∀ a ∈ as, good a) ∧ Spelled (Written.commas (as.map printed)) s.upcoming r.upcoming := by
  refine bind_peekKind (ite (fun _ => pure ⟨by simp, .nil _⟩) fun _ => ?_)
  exact (commaSeparated round).mono fun as r holds => ⟨holds.2.1, holds.2.2.1⟩

end Lists

end MiniC.Parser.Quiet
