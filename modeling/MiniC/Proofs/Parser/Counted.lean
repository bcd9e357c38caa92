import MiniC.Proofs.Parser.Shortens

/-!
Reading with one counter for the depth, where the parsers have a level of their own for
each depth. A production goes deeper by a call that raises the counter, or refuses to
at the greatest depth, and comes back by a call that lowers it, though not below
zero. These calls are kept, each with the depth that it finds; so it can be told
whether they match, and whether the counter has ever been lowered at zero.
-/

namespace MiniC

namespace Parser

theorem ext_run {α : Type} {p q : Parser α} (same : ∀ s, p.run s = q.run s) : p = q := by
  cases p
  cases q
  congr
  exact funext same

instance : LawfulMonad Parser :=
  .mk' Parser
    (fun p => ext_run fun s => congrArg (Outcome.mk _ _) (List.append_nil (p.run s).log))
    (fun _ _ => rfl)
    (fun _ _ _ => ext_run fun _ => congrArg (Outcome.mk _ _) (List.append_assoc ..))

theorem run_peekKind {α : Type} (next : TokenKind → Parser α) (s : Stream) :
    (peekKind >>= next).run s = (next s.token.kind).run s := rfl

end Parser

/-- A call that changes the depth, with the depth that it finds. -/
inductive DepthCall where
  | enter (depth : Nat)
  | leave (depth : Nat)
  /-- Here a run of bounded recursion is given up. -/
  | giveUp

namespace DepthCall

/-- The call finds a depth that may be, and has a level to leave if it leaves one. -/
def IsBalanced : DepthCall → Prop
  | enter depth => depth ≤ maxNesting
  | leave depth => 0 < depth ∧ depth ≤ maxNesting
  | giveUp => False

end DepthCall

/-- A value read, the depth after it, and the calls on the way. -/
structure Counting (α : Type) where
  value : α
  depth : Nat
  calls : List DepthCall

/-- A parser from the depth that it starts at. -/
def Counted (α : Type) : Type := Nat → Parser (Counting α)

variable {α β σ : Type}

/-- Goes on at the depth that was reached. -/
def Counting.resume (reached : Counting α) (next : α → Counted β) : Parser (Counting β) := do
  let later ← next reached.value reached.depth
  pure { later with calls := reached.calls ++ later.calls }

namespace Counted

instance : Monad Counted where
  pure a := fun depth => pure ⟨a, depth, []⟩
  bind first next := fun depth => do (← first depth).resume next

instance : MonadLift Parser Counted where
  monadLift parser := fun depth => do pure ⟨← parser, depth, []⟩

def enter : Counted Bool := fun depth =>
  if depth < maxNesting then pure ⟨true, depth + 1, [.enter depth]⟩
  else do
    Parser.refuseDepth
    pure ⟨false, depth, [.enter depth]⟩

def leave : Counted Unit := fun depth => pure ⟨(), depth - 1, [.leave depth]⟩

def leaveMany : Nat → Counted Unit
  | 0 => pure ()
  | n + 1 => do
    leave
    leaveMany n

/-- What is read one step deeper, or what stands for it where that is refused. -/
def nested (refused : Position → α) (inner : Counted α) : Counted α := do
  let pos ← Parser.position
  if ← enter then
    let a ← inner
    leave
    pure a
  else pure (refused pos)

def giveUp (a : α) : Counted α := fun depth => pure ⟨a, depth, [.giveUp]⟩

def foldWhile (more : σ → TokenKind → Bool) (step : σ → Counted σ) (start : σ) : Counted σ :=
  fun depth =>
    Parser.foldWhile (fun reached => more reached.value) (fun reached => reached.resume step)
      ⟨start, depth, []⟩

def manyWhile (more : TokenKind → Bool) (item : Counted α) : Counted (List α) :=
  foldWhile (fun _ => more) (fun items => do pure (items ++ [← item])) []

instance : Loops Counted where
  manyWhile := manyWhile
  foldWhile := foldWhile

/-- From the depth the counted parser does what the other one does. It comes back to
the depth, and its calls on the way are balanced. -/
def Keeps (depth : Nat) (counted : Counted α) (parser : Parser α) : Prop :=
  ∀ s, ∃ calls : List DepthCall, (∀ call ∈ calls, call.IsBalanced) ∧
    (counted depth).run s =
      ⟨⟨(parser.run s).value, depth, calls⟩, (parser.run s).rest, (parser.run s).log⟩

theorem run_resume (reached : Counting α) (next : α → Counted β) (s : Stream) :
    (reached.resume next).run s =
      let later := (next reached.value reached.depth).run s
      ⟨⟨later.value.value, later.value.depth, reached.calls ++ later.value.calls⟩,
        later.rest, later.log⟩ := by
  change (⟨_, _, _ ++ []⟩ : Outcome (Counting β)) = _
  rw [List.append_nil]
  rfl

/-- A run of two parts, put together from a run of each. -/
theorem run_bind {first : Counted α} {next : α → Counted β} {depth reached final : Nat}
    {s rest last : Stream} {a : α} {b : β} {calls more : List DepthCall} {log later : Log}
    (before : (first depth).run s = ⟨⟨a, reached, calls⟩, rest, log⟩)
    (behind : (next a reached).run rest = ⟨⟨b, final, more⟩, last, later⟩) :
    ((first >>= next) depth).run s = ⟨⟨b, final, calls ++ more⟩, last, log ++ later⟩ := by
  change (Parser.bind (first depth) fun reached => reached.resume next).run s = _
  unfold Parser.bind
  dsimp only
  rw [before, run_resume]
  dsimp only
  rw [behind]

theorem run_pure {first : Counted α} {h : α → β} {depth reached : Nat} {s rest : Stream} {a : α}
    {calls : List DepthCall} {log : Log}
    (before : (first depth).run s = ⟨⟨a, reached, calls⟩, rest, log⟩) :
    ((first >>= fun a => pure (h a)) depth).run s = ⟨⟨h a, reached, calls⟩, rest, log⟩ := by
  have whole : ((first >>= fun a => pure (h a)) depth).run s =
      ⟨⟨h a, reached, calls ++ []⟩, rest, log ++ []⟩ := run_bind before rfl
  rwa [List.append_nil, List.append_nil] at whole

theorem run_lift (parser : Parser α) (depth : Nat) (s : Stream) :
    ((liftM parser : Counted α) depth).run s =
      ⟨⟨(parser.run s).value, depth, []⟩, (parser.run s).rest, (parser.run s).log⟩ := by
  change (⟨⟨_, depth, []⟩, _, _ ++ []⟩ : Outcome (Counting α)) = _
  rw [List.append_nil]
  rfl

theorem run_enter {depth : Nat} (below : depth < maxNesting) (s : Stream) :
    (enter depth).run s = ⟨⟨true, depth + 1, [.enter depth]⟩, s, []⟩ := by
  unfold enter
  rw [if_pos below]
  rfl

theorem run_enter_refused (s : Stream) :
    (enter maxNesting).run s =
      ⟨⟨false, maxNesting, [.enter maxNesting]⟩, (Parser.refuseDepth.run s).rest,
        (Parser.refuseDepth.run s).log⟩ := by
  unfold enter
  rw [if_neg (Nat.lt_irrefl _)]
  change (⟨⟨false, maxNesting, _⟩, _, _ ++ []⟩ : Outcome (Counting Bool)) = _
  rw [List.append_nil]
  rfl

theorem run_leave (depth : Nat) (s : Stream) :
    (leave (depth + 1)).run s = ⟨⟨(), depth, [.leave (depth + 1)]⟩, s, []⟩ := rfl

/-- As many levels as were entered are left again. -/
theorem run_leaveMany {depth levels : Nat} (allowed : depth + levels ≤ maxNesting) (s : Stream) :
    ∃ calls : List DepthCall, (∀ call ∈ calls, call.IsBalanced) ∧
      (leaveMany levels (depth + levels)).run s = ⟨⟨(), depth, calls⟩, s, []⟩ := by
  induction levels with
  | zero => exact ⟨[], List.forall_mem_nil _, rfl⟩
  | succ levels ih =>
    obtain ⟨calls, balanced, same⟩ := ih (Nat.le_of_succ_le allowed)
    use .leave (depth + levels + 1) :: calls
    constructor
    · exact List.forall_mem_cons.mpr ⟨⟨Nat.succ_pos _, allowed⟩, balanced⟩
    · exact run_bind (run_leave (depth + levels) s) same

namespace Keeps

variable {depth : Nat} {p : Counted α} {q : Parser α} {f : α → Counted β} {g : α → Parser β}

theorem pure (a : α) : Keeps depth (pure a) (pure a) :=
  fun _ => ⟨[], List.forall_mem_nil _, rfl⟩

theorem lift (parser : Parser α) : Keeps depth (liftM parser) parser :=
  fun s => ⟨[], List.forall_mem_nil _, run_lift parser depth s⟩

theorem bind (first : Keeps depth p q) (next : ∀ a, Keeps depth (f a) (g a)) :
    Keeps depth (p >>= f) (q >>= g) := by
  intro s
  obtain ⟨calls, balanced, same⟩ := first s
  obtain ⟨more, others, goes⟩ := next (q.run s).value (q.run s).rest
  use calls ++ more
  constructor
  · exact List.forall_mem_append.mpr ⟨balanced, others⟩
  · exact run_bind same goes

theorem after {parser : Parser α} (next : ∀ a, Keeps depth (f a) (g a)) :
    Keeps depth (liftM parser >>= f) (parser >>= g) :=
  bind (lift parser) next

/-- A parser, and a value made of what it gives. -/
theorem last {parser : Parser α} (h : α → β) : Keeps depth
    (liftM parser >>= fun a => Pure.pure (h a)) (parser >>= fun a => Pure.pure (h a)) :=
  after fun a => pure (h a)

theorem map (h : α → β) (keeps : Keeps depth p q) : Keeps depth (h <$> p) (h <$> q) :=
  bind keeps fun a => pure (h a)

theorem ite {c : Prop} [Decidable c] {p' : Counted α} {q' : Parser α} (yes : Keeps depth p q)
    (no : Keeps depth p' q') : Keeps depth (if c then p else p') (if c then q else q') := by
  by_cases holds : c
  · rwa [if_pos holds, if_pos holds]
  · rwa [if_neg holds, if_neg holds]

theorem nested {refused : Position → α} (below : depth < maxNesting)
    (inner : Keeps (depth + 1) p q) : Keeps depth (nested refused p) q := by
  intro s
  obtain ⟨calls, balanced, same⟩ := inner s
  use .enter depth :: (calls ++ [.leave (depth + 1)])
  constructor
  · refine List.forall_mem_cons.mpr ⟨Nat.le_of_lt below, ?_⟩
    refine List.forall_mem_append.mpr ⟨balanced, ?_⟩
    exact List.forall_mem_singleton.mpr ⟨Nat.succ_pos depth, below⟩
  · have back : ((do let a ← p; leave; Pure.pure a : Counted α) (depth + 1)).run s =
        ⟨⟨(q.run s).value, depth, calls ++ ([.leave (depth + 1)] ++ [])⟩, (q.run s).rest,
          (q.run s).log ++ ([] ++ [])⟩ :=
      run_bind same (run_bind (run_leave depth _) rfl)
    rw [List.append_nil, List.append_nil, List.append_nil] at back
    exact run_bind (run_lift Parser.position depth s) (run_bind (run_enter below s) back)

/-- At the greatest depth nothing is read but what is skipped. -/
theorem refused (refused : Position → α) :
    Keeps maxNesting (Counted.nested refused p) (do
      let pos ← Parser.position
      Parser.refuseDepth
      Pure.pure (refused pos)) := by
  intro s
  use [.enter maxNesting]
  constructor
  · exact List.forall_mem_singleton.mpr (Nat.le_refl maxNesting)
  · exact run_bind (run_lift Parser.position maxNesting s) (run_bind (run_enter_refused s) rfl)

end Keeps

/-- A round that does the same does so too if it is moved on. -/
theorem run_moving {p : Parser β} {q : Parser α} {b : β} {s : Stream}
    (same : p.run s = ⟨b, (q.run s).rest, (q.run s).log⟩) :
    (Parser.moving p).run s =
      ⟨b, ((Parser.moving q).run s).rest, ((Parser.moving q).run s).log⟩ := by
  unfold Parser.moving
  dsimp only
  rw [same]
  split <;> rfl

theorem value_moving (q : Parser α) (s : Stream) :
    ((Parser.moving q).run s).value = (q.run s).value := by
  unfold Parser.moving
  dsimp only
  split <;> rfl

namespace Keeps

variable {depth : Nat} {p : Counted α} {q : Parser α}

/-- A loop of rounds that each come back to the depth. What was called before is left in
front of what they call. -/
theorem run_foldRun {more : σ → TokenKind → Bool} {step : σ → Counted σ} {other : σ → Parser σ}
    (each : ∀ state, Keeps depth (step state) (other state)) (start : σ)
    (sooner : List DepthCall) (s : Stream) :
    ∃ calls : List DepthCall, (∀ call ∈ calls, call.IsBalanced) ∧
      Parser.foldRun (fun reached : Counting σ => more reached.value)
          (fun reached => reached.resume step) ⟨start, depth, sooner⟩ s =
        ⟨⟨(Parser.foldRun more other start s).value, depth, sooner ++ calls⟩,
          (Parser.foldRun more other start s).rest, (Parser.foldRun more other start s).log⟩ := by
  fun_induction Parser.foldRun more other start s generalizing sooner with
  | case1 state s taken first later ih =>
    obtain ⟨calls, balanced, same⟩ := each state s
    have round : ((⟨state, depth, sooner⟩ : Counting σ).resume step).run s =
        ⟨⟨((other state).run s).value, depth, sooner ++ calls⟩, ((other state).run s).rest,
          ((other state).run s).log⟩ := by
      rw [run_resume, same]
    have moved := run_moving round
    rw [← value_moving] at moved
    obtain ⟨more, others, goes⟩ := ih (sooner ++ calls)
    use calls ++ more
    constructor
    · exact List.forall_mem_append.mpr ⟨balanced, others⟩
    · rw [Parser.foldRun.eq_def, dif_pos taken, moved]
      dsimp only
      rw [goes, List.append_assoc]
  | case2 state s stopped =>
    refine ⟨[], List.forall_mem_nil _, ?_⟩
    rw [Parser.foldRun.eq_def, dif_neg stopped, List.append_nil]

theorem foldWhile {more : σ → TokenKind → Bool} {step : σ → Counted σ} {other : σ → Parser σ}
    (each : ∀ state, Keeps depth (step state) (other state)) (start : σ) :
    Keeps depth (foldWhile more step start) (Parser.foldWhile more other start) :=
  run_foldRun each start []

/-- Items put behind one another as they come. -/
theorem run_pushed (more : TokenKind → Bool) (q : Parser α) (items : List α) (s : Stream) :
    Parser.foldRun (fun _ => more) (fun items => do Pure.pure (items ++ [← q])) items s =
      ⟨items ++ (Parser.manyRun more q s).value, (Parser.manyRun more q s).rest,
        (Parser.manyRun more q s).log⟩ := by
  fun_induction Parser.manyRun more q s generalizing items with
  | case1 s taken first later ih =>
    have pushed : Parser.run (do Pure.pure (items ++ [← q])) s =
        ⟨items ++ [(q.run s).value], (q.run s).rest, (q.run s).log ++ []⟩ := rfl
    rw [List.append_nil, ← value_moving] at pushed
    have round := run_moving pushed
    rw [Parser.foldRun.eq_def, dif_pos taken, round]
    dsimp only
    rw [ih, List.append_assoc]
    rfl
  | case2 s stopped =>
    rw [Parser.foldRun.eq_def, dif_neg stopped, List.append_nil]

/-- A loop that carries along what its rounds do not change. -/
theorem run_paired (more : TokenKind → Bool) (step : σ → Parser σ) (state : σ) (b : β)
    (s : Stream) :
    Parser.foldRun (fun _ => more) (fun paired => do Pure.pure (← step paired.1, paired.2))
        (state, b) s =
      ⟨((Parser.foldRun (fun _ => more) step state s).value, b),
        (Parser.foldRun (fun _ => more) step state s).rest,
        (Parser.foldRun (fun _ => more) step state s).log⟩ := by
  fun_induction Parser.foldRun (fun _ => more) step state s with
  | case1 state s taken first later ih =>
    have paired : Parser.run (do Pure.pure (← step state, b)) s =
        ⟨(((step state).run s).value, b), ((step state).run s).rest,
          ((step state).run s).log ++ []⟩ := rfl
    rw [List.append_nil, ← value_moving] at paired
    have round := run_moving paired
    rw [Parser.foldRun.eq_def, dif_pos taken, round]
    dsimp only
    rw [ih]
  | case2 state s stopped => rw [Parser.foldRun.eq_def, dif_neg stopped]

theorem manyWhile (more : TokenKind → Bool) (keeps : Keeps depth p q) :
    Keeps depth (manyWhile more p) (Parser.manyWhile more q) := by
  have pushed : Parser.foldWhile (fun _ => more) (fun items => do Pure.pure (items ++ [← q])) [] =
      Parser.manyWhile more q := Parser.ext_run (run_pushed more q [])
  rw [← pushed]
  exact foldWhile (fun _ => bind keeps fun _ => pure _) []

theorem commaList (close : TokenKind) (keeps : Keeps depth p q) :
    Keeps depth (Parser.commaList close p) (Parser.commaList close q) := by
  have separated : Keeps depth (Parser.commaSeparated p) (Parser.commaSeparated q) := by
    refine bind keeps fun first => ?_
    have items : Keeps depth (Counted.manyWhile (· = .comma) do Parser.advance; p)
        (Parser.manyWhile (· = .comma) do Parser.advance; q) :=
      manyWhile _ (after fun _ => keeps)
    exact bind items fun later => pure (first :: later)
  refine after fun kind => ?_
  exact ite (pure []) separated

end Keeps

end Counted

end MiniC
