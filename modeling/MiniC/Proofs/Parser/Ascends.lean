import MiniC.Proofs.Parser.Leads

/-!
What is read stands in the order of the source. The tokens of a stream ascend; the
places that a parser keeps ascend with them, from the token it begins at to the
one it leaves. That token may be one of the places, as a parser may put what it
misses at a token that it leaves to others. Whoever passes the token then leaves
the place behind; only the end cannot be passed, and there it matters how a reader
goes on.
-/

namespace MiniC

/-- Places at known lines that ascend from an offset and stay below another. -/
inductive Ascent : Nat → List Position → Nat → Prop where
  | nil {low high : Nat} : low ≤ high → Ascent low [] high
  | cons {low high : Nat} {p : Position} {rest : List Position} : p.isValid = true →
      low ≤ p.offset → Ascent (p.offset + 1) rest high → Ascent low (p :: rest) high

namespace Ascent

variable {low mid high : Nat} {left right places : List Position}

theorem le (ascent : Ascent low places high) : low ≤ high := by
  induction ascent with
  | nil le => exact le
  | cons _ above _ ih => omega

theorem mono {higher : Nat} (ascent : Ascent low places high) (le : high ≤ higher) :
    Ascent low places higher := by
  induction ascent with
  | nil below => exact .nil (Nat.le_trans below le)
  | cons valid above _ ih => exact .cons valid above (ih le)

theorem lower {lower : Nat} (ascent : Ascent low places high) (le : lower ≤ low) :
    Ascent lower places high := by
  cases ascent with
  | nil below => exact .nil (Nat.le_trans le below)
  | cons valid above rest => exact .cons valid (Nat.le_trans le above) rest

theorem append (before : Ascent low left mid) (behind : Ascent mid right high) :
    Ascent low (left ++ right) high := by
  induction before with
  | nil le => exact behind.lower le
  | cons valid above _ ih => exact .cons valid above (ih behind)

theorem single {p : Position} (valid : p.isValid = true) (before : low ≤ p.offset)
    (behind : p.offset < high) : Ascent low [p] high :=
  .cons valid before (.nil behind)

theorem forall_mem (ascent : Ascent low places high) :
    ∀ p ∈ places, p.isValid = true ∧ low ≤ p.offset ∧ p.offset < high := by
  induction ascent with
  | nil => exact nofun
  | cons valid above rest ih =>
    refine List.forall_mem_cons.mpr ⟨⟨valid, above, rest.le⟩, fun p member => ?_⟩
    obtain ⟨isValid, further, bound⟩ := ih p member
    exact ⟨isValid, by omega, bound⟩

theorem pairwise (ascent : Ascent low places high) : places.Pairwise (·.offset < ·.offset) := by
  induction ascent with
  | nil => exact .nil
  | cons _ _ rest ih => exact .cons (fun p member => (rest.forall_mem p member).2.1) ih

end Ascent

namespace Stream

def offset (s : Stream) : Nat := s.token.pos.offset

/-- The tokens, the end among them, stand at known lines, one behind the other. -/
structure Ascends (s : Stream) : Prop where
  increasing : (s.upcoming ++ [s.ending]).Pairwise (·.token.pos.offset < ·.token.pos.offset)
  valid : ∀ lexeme ∈ s.upcoming ++ [s.ending], lexeme.token.pos.isValid = true

theorem IsRest.all {r s : Stream} (isRest : r.IsRest s) :
    r.upcoming ++ [r.ending] <:+ s.upcoming ++ [s.ending] := by
  have same : r.ending = s.ending := by unfold ending; rw [isRest.endPos, isRest.endFaults]
  rw [same]
  obtain ⟨passed, tokens⟩ := isRest.suffix
  exact ⟨passed, by rw [← List.append_assoc, tokens]⟩

theorem passed_isRest (s : Stream) : s.passed.IsRest s := Parser.advance.isRest s

theorem upcoming_of_kind {s : Stream} (more : s.token.kind ≠ .eof) : s.upcoming ≠ [] := by
  intro ended
  unfold token current at more
  rw [ended] at more
  exact more rfl

theorem upcoming_of_remaining {s : Stream} (more : 0 < s.remaining) : s.upcoming ≠ [] := by
  rw [s.remaining_eq] at more
  exact List.length_pos_iff.mp more

theorem IsRest.upcoming {r s : Stream} (isRest : r.IsRest s) (more : r.upcoming ≠ []) :
    s.upcoming ≠ [] := by
  intro ended
  have none := isRest.suffix
  rw [ended, List.suffix_nil] at none
  exact more none

theorem head_all (s : Stream) : (s.upcoming ++ [s.ending]).head? = some s.current := by
  unfold current
  cases s.upcoming <;> rfl

theorem all_eq (s : Stream) :
    s.upcoming ++ [s.ending] = s.current :: (s.upcoming ++ [s.ending]).tail := by
  unfold current
  cases s.upcoming <;> rfl

theorem IsRest.current_mem {r s : Stream} (isRest : r.IsRest s) :
    r.current ∈ s.upcoming ++ [s.ending] :=
  isRest.all.subset (List.mem_of_mem_head? r.head_all)

theorem IsRest.current_mem_tail {r s : Stream} (isRest : r.IsRest s.tail) (more : s.upcoming ≠ []) :
    r.current ∈ (s.upcoming ++ [s.ending]).tail := by
  rw [List.tail_append_of_ne_nil more]
  exact isRest.current_mem

namespace Ascends

variable {s r : Stream} (ascends : s.Ascends)

include ascends

theorem rest (isRest : r.IsRest s) : r.Ascends where
  increasing := ascends.increasing.sublist isRest.all.sublist
  valid lexeme member := ascends.valid lexeme (isRest.all.subset member)

theorem token_valid : s.token.pos.isValid = true :=
  ascends.valid s.current (List.mem_of_mem_head? s.head_all)

theorem offset_lt (isRest : r.current ∈ (s.upcoming ++ [s.ending]).tail) : s.offset < r.offset := by
  have increasing := ascends.increasing
  rw [s.all_eq] at increasing
  exact (List.pairwise_cons.mp increasing).1 r.current isRest

theorem offset_le (isRest : r.IsRest s) : s.offset ≤ r.offset := by
  have member := isRest.current_mem
  rw [s.all_eq] at member
  rcases List.mem_cons.mp member with same | later
  · exact Nat.le_of_eq (congrArg (·.token.pos.offset) same.symm)
  · exact Nat.le_of_lt (ascends.offset_lt later)

theorem offset_lt_passed (more : s.upcoming ≠ []) : s.offset < s.passed.offset := by
  rw [passed_of_more more]
  exact ascends.offset_lt ((IsRest.refl s.tail).current_mem_tail more)

end Ascends

end Stream

/-- The places so far are behind a stream, unless it has ended. -/
def Clear (low : Nat) (places : List Position) (r : Stream) : Prop :=
  r.upcoming ≠ [] → Ascent low places r.offset

/-- The places so far are behind a stream or end at its current token. -/
def Touch (low : Nat) (places : List Position) (r : Stream) : Prop :=
  Ascent low places (r.offset + 1)

section Steps

variable {low : Nat} {left right places : List Position} {s r : Stream}

theorem Touch.here (ascends : s.Ascends) (isRest : r.IsRest s) : Touch s.offset [s.token.pos] r :=
  .single ascends.token_valid (Nat.le_refl _) (Nat.lt_succ_of_le (ascends.offset_le isRest))

theorem Touch.none (ascends : s.Ascends) (isRest : r.IsRest s) : Touch s.offset [] r :=
  .nil (Nat.le_succ_of_le (ascends.offset_le isRest))

theorem Clear.none (ascends : s.Ascends) (isRest : r.IsRest s) : Clear s.offset [] r :=
  fun _ => .nil (ascends.offset_le isRest)

theorem Touch.rest (touch : Touch low places s) (ascends : s.Ascends) (isRest : r.IsRest s) :
    Touch low places r :=
  Ascent.mono touch (Nat.succ_le_succ (ascends.offset_le isRest))

theorem Clear.rest (clear : Clear low places s) (ascends : s.Ascends) (isRest : r.IsRest s) :
    Clear low places r :=
  fun more => (clear (isRest.upcoming more)).mono (ascends.offset_le isRest)

/-- Whoever passes the current token leaves the places behind. -/
theorem Touch.passes (touch : Touch low places s) (ascends : s.Ascends) (more : s.upcoming ≠ []) :
    Ascent low places s.passed.offset :=
  Ascent.mono touch (ascends.offset_lt_passed more)

theorem Touch.clears (touch : Touch low places s) (ascends : s.Ascends) :
    Clear low places s.passed :=
  fun more => touch.passes ascends (s.passed_isRest.upcoming more)

theorem Touch.since (touch : Touch s.offset places r) {earlier : Stream}
    (ascends : earlier.Ascends) (isRest : s.IsRest earlier) : Touch earlier.offset places r :=
  Ascent.lower touch (ascends.offset_le isRest)

theorem Clear.since (clear : Clear s.offset places r) {earlier : Stream}
    (ascends : earlier.Ascends) (isRest : s.IsRest earlier) : Clear earlier.offset places r :=
  fun more => (clear more).lower (ascends.offset_le isRest)

theorem Clear.append (before : Clear low left s) (behind : Clear s.offset right r)
    (isRest : r.IsRest s) : Clear low (left ++ right) r :=
  fun more => (before (isRest.upcoming more)).append (behind more)

/-- Behind places that are clear of a stream, others may touch one of its rests. -/
theorem Clear.append_touch (before : Clear low left s) (behind : Touch s.offset right r)
    (isRest : r.IsRest s) (ascends : s.Ascends) : Clear low (left ++ right) r.passed := by
  intro more
  have inside := r.passed_isRest.upcoming more
  exact (before (isRest.upcoming inside)).append (behind.passes (ascends.rest isRest) inside)

end Steps

namespace Parser

variable {α β σ : Type}

/-- What is read touches what is left of the stream. -/
def Covers (p : Parser α) (places : α → List Position) : Prop :=
  ∀ s, s.Ascends → Leads p s fun a r => Touch s.offset (places a) r

/-- What is read is clear of what is left of the stream. -/
def Clears (p : Parser α) (places : α → List Position) : Prop :=
  ∀ s, s.Ascends → Leads p s fun a r => Clear s.offset (places a) r

/-- What touches a stream, and what is read of it, touch what is left of it. -/
def Extends (p : Parser α) (before : List Position) (places : α → List Position) : Prop :=
  ∀ low s, s.Ascends → Touch low before s → Leads p s fun a r => Touch low (places a) r

section Loops

variable {item : Parser α} {places : α → List Position}

theorem Extends.foldWhile {more : σ → TokenKind → Bool} {step : σ → Parser σ}
    {keeps : σ → List Position}
    (each : ∀ state low s, s.Ascends → takes (more state) s = true → Touch low (keeps state) s →
      Leads (step state) s fun a r => Touch low (keeps a) r) (start : σ) :
    Extends (foldWhile more step start) (keeps start) keeps := by
  intro low s ascends touch
  have loop : Leads (Parser.foldWhile more step start) s fun state r =>
      (r.Ascends ∧ Touch low (keeps state) r) ∧ takes (more state) r = false := by
    refine Leads.foldWhile (fun state r kept taken => ?_) ⟨ascends, touch⟩
    have round := (each state low r kept.1 taken kept.2).mono_rest fun _ later isRest touches =>
      And.intro (kept.1.rest isRest) touches
    exact Leads.moving round fun _ later kept =>
      ⟨kept.1.rest later.passed_isRest, kept.2.rest kept.1 later.passed_isRest⟩
  exact loop.mono fun _ _ kept => kept.1.2

/-- A list of items that are clear of each other. -/
theorem Clears.manyWhile (clears : Clears item places) (more : TokenKind → Bool) :
    Clears (manyWhile more item) (·.flatMap places) := by
  intro s ascends
  have loop : Leads (Parser.manyWhile more item) s fun as r =>
      (r.Ascends ∧ Clear s.offset (as.flatMap places) r) ∧ takes more r = false := by
    refine Leads.manyWhile (fun as r kept _ => ?_)
      ⟨ascends, Clear.none ascends (Stream.IsRest.refl s)⟩
    have round := (clears r kept.1).mono_rest fun a later isRest clear =>
      And.intro (kept.1.rest isRest) (kept.2.append clear isRest)
    refine (Leads.moving round fun _ later kept =>
      ⟨kept.1.rest later.passed_isRest, kept.2.rest kept.1 later.passed_isRest⟩).mono ?_
    rintro a later ⟨further, clear⟩
    rw [List.flatMap_append, List.flatMap_singleton]
    exact ⟨further, clear⟩
  exact loop.mono fun _ _ kept => kept.1.2

/-- Items that each pass a token first, and so leave behind what came before. -/
theorem Covers.manyWhile (covers : Covers item places) {more : TokenKind → Bool} {low : Nat}
    {before : List Position} {s : Stream} (ascends : s.Ascends) (touch : Touch low before s) :
    Leads (manyWhile more (do advance; item)) s fun as r =>
      Touch low (before ++ as.flatMap places) r := by
  have start : s.Ascends ∧ Touch low (before ++ [].flatMap places) s :=
    ⟨ascends, (List.append_nil before).symm ▸ touch⟩
  have loop : Leads (Parser.manyWhile more (do advance; item)) s fun as r =>
      (r.Ascends ∧ Touch low (before ++ as.flatMap places) r) ∧ takes more r = false := by
    refine Leads.manyWhile (fun as r kept taken => ?_) start
    have some := remaining_pos_of_takes taken
    refine Leads.moving_of_shortens (Shortens.before (advance_shortens some)) (Leads.advance ?_)
    have further := kept.1.rest r.passed_isRest
    refine (covers _ further).mono_rest fun a later isRest touch => ⟨further.rest isRest, ?_⟩
    rw [List.flatMap_append, List.flatMap_singleton, ← List.append_assoc]
    exact (kept.2.passes kept.1 (Stream.upcoming_of_remaining some)).append touch
  exact loop.mono fun _ _ kept => kept.1.2

theorem Covers.commaSeparated (covers : Covers item places) :
    Covers (commaSeparated item) (·.flatMap places) := by
  intro s ascends
  refine Leads.bind (covers s ascends) fun first r isRest touch => ?_
  refine Leads.bind (covers.manyWhile (ascends.rest isRest) touch) fun later _ _ whole => ?_
  exact Leads.pure whole

theorem Covers.commaList (covers : Covers item places) (close : TokenKind) :
    Covers (commaList close item) (·.flatMap places) := by
  intro s ascends
  refine Leads.peekKind (Leads.ite (fun _ => ?_) fun _ => covers.commaSeparated s ascends)
  exact Leads.pure (Touch.none ascends (Stream.IsRest.refl s))

end Loops

end Parser

end MiniC
