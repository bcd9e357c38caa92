import MiniC.Proofs.Parser.QuietLoop
import MiniC.Proofs.Parser.Succeeds

/-!
Loops on tokens that they are meant to read, one round at a time, and the lists
that they read.
-/

namespace MiniC.Parser

variable {α σ : Type}

theorem takes_of_kind {more : TokenKind → Bool} {s : Stream} (present : s.token.kind ≠ .eof)
    (taken : more s.token.kind = true) : takes more s = true := by
  simp [takes, Stream.remaining_pos present, taken]

theorem not_takes_of_kind {more : TokenKind → Bool} {s : Stream}
    (refused : more s.token.kind = false) : takes more s = false := by
  simp [takes, refused]

namespace Succeeds

variable {s : Stream} {deep : Prop}

theorem moving {p : Parser α} {Q : α → Stream → Prop}
    (round : Succeeds p s deep fun a r => Q a r ∧ r.remaining < s.remaining) :
    Succeeds (moving p) s deep Q := by
  by_cases gotOn : (p.run s).rest.remaining < s.remaining
  · have same : (Parser.moving p).run s = p.run s := by simp [Parser.moving, gotOn]
    unfold Succeeds Clean
    rw [same]
    apply round.imp_left
    rintro ⟨clean, holds⟩
    exact ⟨clean, holds.1⟩
  · rcases round with ⟨_, holds⟩ | ⟨isDeep, tooDeep⟩
    · exact absurd holds.2 gotOn
    · have split : ((Parser.moving p).run s).log =
          (p.run s).log ++ (Parser.advance.run (p.run s).rest).log := by
        simp [Parser.moving, gotOn]
      exact .inr ⟨isDeep, split ▸ tooDeep.left _⟩

section Many

variable {more : TokenKind → Bool} {item : Parser α} {Q : List α → Stream → Prop}

theorem manyWhile_stop (stopped : takes more s = false) (holds : Q [] s) :
    Succeeds (manyWhile more item) s deep Q := by
  have run : (manyWhile more item).run s = ⟨[], s, []⟩ := by
    change manyRun more item s = _
    rw [manyRun, dif_neg (by simp [stopped])]
  unfold Succeeds Clean
  rw [run]
  exact .inl ⟨rfl, holds⟩

theorem manyWhile_step {P : α → Stream → Prop} (taken : takes more s = true)
    (first : Succeeds item s deep fun a r => P a r ∧ r.remaining < s.remaining)
    (later : ∀ a r, P a r → Succeeds (manyWhile more item) r deep fun as => Q (a :: as)) :
    Succeeds (manyWhile more item) s deep Q := by
  have unrolled : (manyWhile more item).run s =
      (do let a ← Parser.moving item; let as ← manyWhile more item; Pure.pure (a :: as)).run s := by
    change manyRun more item s = _
    rw [manyRun, dif_pos taken]
    simp [Bind.bind, Parser.bind, Pure.pure, Parser.pure, manyWhile]
  unfold Succeeds Clean
  rw [unrolled]
  exact bind (moving first) fun a r holds =>
    bind (later a r holds) fun as _ final => Succeeds.pure final

end Many

section Fold

variable {more : σ → TokenKind → Bool} {step : σ → Parser σ} {state : σ} {Q : σ → Stream → Prop}

theorem foldWhile_stop (stopped : takes (more state) s = false) (holds : Q state s) :
    Succeeds (foldWhile more step state) s deep Q := by
  have run : (foldWhile more step state).run s = ⟨state, s, []⟩ := by
    change foldRun more step state s = _
    rw [foldRun, dif_neg (by simp [stopped])]
  unfold Succeeds Clean
  rw [run]
  exact .inl ⟨rfl, holds⟩

theorem foldWhile_step {P : σ → Stream → Prop} (taken : takes (more state) s = true)
    (first : Succeeds (step state) s deep fun next r => P next r ∧ r.remaining < s.remaining)
    (later : ∀ next r, P next r → Succeeds (foldWhile more step next) r deep Q) :
    Succeeds (foldWhile more step state) s deep Q := by
  have unrolled : (foldWhile more step state).run s =
      (Parser.moving (step state) >>= foldWhile more step).run s := by
    change foldRun more step state s = _
    rw [foldRun, dif_pos taken]
    rfl
  unfold Succeeds Clean
  rw [unrolled]
  exact bind (moving first) later

/-- A round that reads a known token first, and then some of what is behind it. -/
theorem foldWhile_read {P : σ → Prop} {written : Written} {text later : List Written}
    {rest : List Lexeme} (taken : more state written.kind = true) (present : written.kind ≠ .eof)
    (spelled : Spelled (written :: later) s.upcoming rest) (within : text.length ≤ later.length)
    (first : Succeeds (step state) s deep fun next r => P next ∧ Spelled text r.upcoming rest)
    (next : ∀ found r, P found → Spelled text r.upcoming rest →
      Succeeds (foldWhile more step found) r deep Q) :
    Succeeds (foldWhile more step state) s deep Q := by
  have front : s.token.kind = written.kind := s.token_kind ▸ spelled.frontKind_eq
  refine foldWhile_step (P := fun found r => P found ∧ Spelled text r.upcoming rest)
    (takes_of_kind (front ▸ present) (front ▸ taken)) (first.mono fun found r read => ⟨read, ?_⟩)
    fun found r read => next found r read.1 read.2
  rw [s.remaining_eq, r.remaining_eq, spelled.length_eq, read.2.length_eq, List.length_cons]
  omega

end Fold

end Succeeds

namespace Reads

variable {β : Type} {item : Parser β} {printed : α → List Written} {same : α → β → Prop}
  {deep : Prop}

/-- A loop reads its items one by one, when each of them starts with a token
that the loop takes, and may stand in front of what follows the loop and of the
other items. -/
theorem manyWhile {more : TokenKind → Bool} {follow : TokenKind → Prop}
    {E : α → TokenKind → Prop} (items : List α)
    (reads : ∀ x ∈ items, Reads item (printed x) (E x) deep (same x))
    (starts : ∀ x ∈ items, ∃ written text, printed x = written :: text ∧
      more written.kind = true ∧ written.kind ≠ .eof ∧ ∀ y ∈ items, E y written.kind)
    (stops : ∀ kind, follow kind → more kind = false ∧ ∀ x ∈ items, E x kind) :
    Reads (manyWhile more item) (items.flatMap printed) follow deep
      (List.Forall₂ same items) := by
  induction items with
  | nil =>
    rintro s rest spelled follows
    cases spelled
    refine Succeeds.manyWhile_stop ?_ ⟨.nil, rfl⟩
    exact not_takes_of_kind (s.token_kind ▸ (stops _ follows).1)
  | cons x items ih =>
    rintro s rest spelled follows
    obtain ⟨written, text, shape, takes, present, _⟩ := starts x List.mem_cons_self
    have front : s.token.kind = written.kind := by
      rw [List.flatMap_cons, shape] at spelled
      exact s.token_kind ▸ spelled.frontKind_eq
    -- what is asked of all items holds of those behind the first
    have later := ih (fun y member => reads y (List.mem_cons_of_mem x member))
      (fun y member => by
        obtain ⟨written, text, shape, takes, present, others⟩ :=
          starts y (List.mem_cons_of_mem x member)
        exact ⟨written, text, shape, takes, present,
          fun z member => others z (List.mem_cons_of_mem x member)⟩)
      (fun kind ends => ⟨(stops kind ends).1,
        fun y member => (stops kind ends).2 y (List.mem_cons_of_mem x member)⟩)
    rw [List.flatMap_cons] at spelled
    -- behind the first item stands the next one, or what follows the loop
    have first := (reads x List.mem_cons_self).before spelled fun middle after => by
      cases items with
      | nil =>
        cases after
        exact (stops _ follows).2 x List.mem_cons_self
      | cons y others =>
        obtain ⟨written, text, shape, _, _, allowed⟩ :=
          starts y (List.mem_cons_of_mem x List.mem_cons_self)
        rw [List.flatMap_cons, shape] at after
        exact after.frontKind_eq ▸ allowed x List.mem_cons_self
    refine Succeeds.manyWhile_step
      (P := fun a r => same x a ∧ Spelled (items.flatMap printed) r.upcoming rest)
      (takes_of_kind (front ▸ present) (front ▸ takes)) (first.mono fun a r read => ?_) ?_
    · rw [shape] at spelled
      exact ⟨read, spelled.remaining_lt read.2⟩
    · rintro a r ⟨isSame, spelled⟩
      exact (later r rest spelled follows).mono fun as r read =>
        ⟨.cons isSame read.1, read.2⟩

/-- A list with commas, in front of a token that is none. -/
theorem commaSeparated {follow : TokenKind → Prop} (first : α) (later : List α)
    (reads : ∀ x ∈ first :: later, Reads item (printed x) (fun kind => kind = .comma ∨ follow kind)
      deep (same x))
    (stops : ∀ kind, follow kind → kind ≠ .comma) :
    Reads (commaSeparated item) (Written.commas ((first :: later).map printed)) follow deep
      (List.Forall₂ same (first :: later)) := by
  rintro s rest spelled follows
  have others : Reads (Parser.manyWhile (· = .comma) (do Parser.advance; item))
      (later.flatMap (.symbol .comma :: printed ·)) follow deep (List.Forall₂ same later) := by
    refine manyWhile (E := fun _ kind => kind = .comma ∨ follow kind) later ?_ ?_ ?_
    · intro x member s rest spelled follows
      refine Succeeds.bind (Succeeds.advance spelled) fun _ middle spelled => ?_
      exact reads x (List.mem_cons_of_mem first member) middle rest spelled follows
    · exact fun x _ => ⟨_, _, rfl, by simp [Written.kind], nofun, fun _ _ => .inl rfl⟩
    · exact fun kind ends => ⟨by simpa using stops kind ends, fun _ _ => .inr ends⟩
  rw [List.map_cons, Written.commas, List.flatMap_map] at spelled
  refine Succeeds.bind ((reads first List.mem_cons_self).before spelled fun middle after => ?_) ?_
  · cases later with
    | nil =>
      cases after
      exact .inr follows
    | cons x later => exact .inl after.frontKind_eq
  · rintro a r ⟨isSame, spelled⟩
    refine Succeeds.bind (others r rest spelled follows) fun as r read => Succeeds.pure ?_
    exact ⟨.cons isSame read.1, read.2⟩

/-- A list with commas, or nothing, in front of its closing token. -/
theorem commaList {close : TokenKind} (items : List α) (noComma : close ≠ .comma)
    (reads : ∀ x ∈ items, Reads item (printed x) (fun kind => kind = .comma ∨ kind = close)
      deep (same x))
    (starts : ∀ x ∈ items, ∃ written text, printed x = written :: text ∧ written.kind ≠ close) :
    Reads (commaList close item) (Written.commas (items.map printed)) (· = close) deep
      (List.Forall₂ same items) := by
  rintro s rest spelled follows
  refine Succeeds.bind_peekKind ?_
  cases items with
  | nil =>
    cases spelled
    rw [if_pos (s.token_kind ▸ follows)]
    exact Succeeds.pure ⟨.nil, rfl⟩
  | cons first later =>
    obtain ⟨written, text, shape, other⟩ := starts first List.mem_cons_self
    have front : s.token.kind = written.kind := by
      rw [List.map_cons, Written.commas, shape] at spelled
      exact s.token_kind ▸ spelled.frontKind_eq
    rw [if_neg (front ▸ other)]
    exact commaSeparated first later reads (fun _ ends => ends ▸ noComma) s rest spelled follows

end Reads

end MiniC.Parser
