import MiniC.Parser.Loop
import MiniC.Proofs.Layout.Relocate
import MiniC.Proofs.Parser.Quiet

/-!
Parsers under a move of places. A parser never looks at a place, it only passes
it on; so on tokens that stand elsewhere it does the same, and its value, what
it leaves and what it reports are moved likewise.
-/

namespace MiniC

def relocateAll (move : Position → Position) (raised : List Diagnostic) : List Diagnostic :=
  raised.map (Diagnostic.relocate move)

namespace Stream

variable (move : Position → Position) (stream : Stream)

theorem relocate_current : (stream.relocate move).current = stream.current.relocate move := by
  change (stream.upcoming.map (Lexeme.relocate move)).headD _ = _
  unfold current
  cases stream.upcoming <;> rfl

theorem relocate_token : (stream.relocate move).token = stream.token.relocate move := by
  unfold token
  rw [relocate_current]
  rfl

theorem relocate_kind : (stream.relocate move).token.kind = stream.token.kind := by
  rw [relocate_token]
  rfl

theorem relocate_kinds : (stream.relocate move).kinds = stream.kinds := by
  unfold kinds relocate
  rw [List.map_map]
  rfl

theorem relocate_tail : (stream.relocate move).tail = stream.tail.relocate move := by
  apply ext_tokens
  · exact List.map_tail.symm
  · rfl
  · rfl

theorem relocate_arrival :
    (stream.relocate move).arrival.raised = relocateAll move stream.arrival.raised := by
  rw [raised_arrival, raised_arrival, relocate_current]
  rfl

end Stream

/-- `moved` is what `still` comes to on moved places; its value is moved by
`change`. -/
structure Outcome.IsMoved {α β : Type} (move : Position → Position) (change : α → β)
    (still : Outcome α) (moved : Outcome β) : Prop where
  value : moved.value = change still.value
  rest : moved.rest = still.rest.relocate move
  raised : moved.log.raised = relocateAll move still.log.raised

namespace Parser

variable {α β γ δ σ τ : Type} {move : Position → Position}

/-- On a moved stream, `moved` does as `still` does on the stream itself. -/
def Moves (move : Position → Position) (change : α → β) (still : Parser α) (moved : Parser β) :
    Prop :=
  ∀ stream, (still.run stream).IsMoved move change (moved.run (stream.relocate move))

theorem raised_append_moved {sooner later soonerMoved laterMoved : Log}
    (first : soonerMoved.raised = relocateAll move sooner.raised)
    (second : laterMoved.raised = relocateAll move later.raised) :
    Log.raised (soonerMoved ++ laterMoved) = relocateAll move (Log.raised (sooner ++ later)) := by
  rw [Log.raised_append, Log.raised_append, first, second]
  exact List.map_append.symm

namespace Moves

variable {change : α → β} {still : Parser α} {moved : Parser β}

theorem pure {a : α} {b : β} (same : b = change a) : Moves move change (pure a) (pure b) :=
  fun _ => ⟨same, rfl, rfl⟩

theorem bind {after : γ → δ} {next : α → Parser γ} {nextMoved : β → Parser δ}
    (first : Moves move change still moved)
    (later : ∀ a, Moves move after (next a) (nextMoved (change a))) :
    Moves move after (still >>= next) (moved >>= nextMoved) := by
  intro stream
  have here := first stream
  have run : (moved >>= nextMoved).run (stream.relocate move) =
      let rest := (nextMoved (change (still.run stream).value)).run
        ((still.run stream).rest.relocate move)
      { rest with log := (moved.run (stream.relocate move)).log ++ rest.log } := by
    rw [← here.value, ← here.rest]
    rfl
  have there := later (still.run stream).value (still.run stream).rest
  rw [run]
  exact ⟨there.value, there.rest, raised_append_moved here.raised there.raised⟩

/-- A first part whose value holds no place. -/
theorem after {first other : Parser α} {next : α → Parser γ} {nextMoved : α → Parser δ}
    {change : γ → δ} (moves : Moves move id first other)
    (later : ∀ a, Moves move change (next a) (nextMoved a)) :
    Moves move change (first >>= next) (other >>= nextMoved) :=
  bind moves later

/-- A last part of which no value is kept. -/
theorem last {first other : Parser α} {change : γ → δ} {c : γ} {d : δ}
    (moves : Moves move id first other) (same : d = change c) :
    Moves move change (first >>= fun _ => Pure.pure c) (other >>= fun _ => Pure.pure d) :=
  after moves fun _ => pure same

theorem map {f : α → γ} {g : β → δ} {whole : γ → δ} (moves : Moves move change still moved)
    (same : ∀ a, g (change a) = whole (f a)) : Moves move whole (f <$> still) (g <$> moved) :=
  bind moves fun a => pure (same a)

theorem ite {c : Prop} [Decidable c] {other : Parser α} {otherMoved : Parser β}
    (yes : Moves move change still moved) (no : Moves move change other otherMoved) :
    Moves move change (if c then still else other) (if c then moved else otherMoved) := by
  by_cases holds : c
  · rwa [if_pos holds, if_pos holds]
  · rwa [if_neg holds, if_neg holds]

theorem peek : Moves move (Token.relocate move) peek peek :=
  fun stream => ⟨stream.relocate_token move, rfl, rfl⟩

theorem peekKind : Moves move id peekKind peekKind :=
  bind peek fun _ => pure rfl

theorem position : Moves move move position position :=
  bind peek fun _ => pure rfl

/-- A report of the same problem elsewhere. -/
theorem report {pos : Position} {problem other : GrammarProblem}
    (same : other.diagnose (move pos) = (problem.diagnose pos).relocate move) :
    Moves move id (report pos problem) (report (move pos) other) :=
  fun _ => ⟨rfl, rfl, congrArg ([·]) same⟩

theorem missing (wanted : Wanted) : Moves move id (missing wanted) (missing wanted) := by
  apply bind peek
  intro token
  apply report
  cases wanted with
  | token kind => cases kind <;> rfl
  | _ => rfl

theorem parsedFunction (name : String) (params : Nat) (pos other : Position) :
    Moves move id (remark (.parsedFunction name params pos))
      (remark (.parsedFunction name params other)) :=
  fun _ => ⟨rfl, rfl, rfl⟩

theorem advance : Moves move id advance advance := by
  intro stream
  have isEnd : (stream.relocate move).upcoming.isEmpty = stream.upcoming.isEmpty :=
    List.isEmpty_map
  simp only [Parser.advance, isEnd]
  split
  · exact ⟨rfl, rfl, rfl⟩
  · have arrival := stream.tail.relocate_arrival move
    rw [stream.relocate_tail move]
    exact ⟨rfl, rfl, arrival⟩

theorem advanceMany (n : Nat) : Moves move id (advanceMany n) (advanceMany n) := by
  induction n with
  | zero => exact pure rfl
  | succ n ih => exact after advance fun _ => ih

theorem skipNested : Moves move id skipNested skipNested := by
  intro stream
  change Outcome.IsMoved move id ((Parser.advanceMany (nestedLength 0 stream.kinds)).run stream)
    ((Parser.advanceMany (nestedLength 0 (stream.relocate move).kinds)).run (stream.relocate move))
  -- how many tokens are skipped is told by their kinds
  rw [stream.relocate_kinds move]
  exact advanceMany _ stream

theorem refuseDepth : Moves move id refuseDepth refuseDepth :=
  bind position fun _ => after (report rfl) fun _ => skipNested

theorem accept (kind : TokenKind) : Moves move id (accept kind) (accept kind) :=
  after peekKind fun _ => ite (after advance fun _ => pure rfl) (pure rfl)

theorem require (kind : TokenKind) : Moves move id (require kind) (require kind) :=
  after peekKind fun _ => ite (after (missing _) fun _ => advance) advance

/-- Whether a token was passed does not depend on the places. -/
theorem moving (moves : Moves move change still moved) :
    Moves move change (moving still) (moving moved) := by
  intro stream
  have here := moves stream
  have stands : (moved.run (stream.relocate move)).rest.remaining =
      (still.run stream).rest.remaining := by
    rw [here.rest]
    rfl
  -- progress is told by the number of tokens left, which no place has a part in
  have size : (stream.relocate move).remaining = stream.remaining := rfl
  simp only [Parser.moving, stands, size]
  split
  · exact here
  · have last : Outcome.IsMoved move id _ _ := advance (still.run stream).rest
    rw [← here.rest] at last
    exact ⟨here.value, last.rest, raised_append_moved here.raised last.raised⟩

theorem relocate_takes (more : TokenKind → Bool) (stream : Stream) :
    takes more (stream.relocate move) = takes more stream := by
  unfold takes
  rw [stream.relocate_kind move]
  rfl

theorem manyWhile (more : TokenKind → Bool) (moves : Moves move change still moved) :
    Moves move (List.map change) (manyWhile more still) (manyWhile more moved) := by
  intro stream
  change (manyRun more still stream).IsMoved move _ (manyRun more moved (stream.relocate move))
  fun_induction manyRun more still stream with
  | case1 stream taken first later ih =>
    have here := moves.moving stream
    rw [manyRun, dif_pos ((relocate_takes more stream).trans taken)]
    simp only [here.rest]
    constructor
    · exact List.cons_eq_cons.mpr ⟨here.value, ih.value⟩
    · exact ih.rest
    · exact raised_append_moved here.raised ih.raised
  | case2 stream ends =>
    rw [manyRun, dif_neg (by rwa [relocate_takes])]
    exact ⟨rfl, rfl, rfl⟩

theorem foldWhile {change : σ → τ} {more : σ → TokenKind → Bool} {moreMoved : τ → TokenKind → Bool}
    {step : σ → Parser σ} {stepMoved : τ → Parser τ}
    (same : ∀ state, moreMoved (change state) = more state)
    (moves : ∀ state, Moves move change (step state) (stepMoved (change state))) (start : σ) :
    Moves move change (foldWhile more step start)
      (foldWhile moreMoved stepMoved (change start)) := by
  intro stream
  change (foldRun more step start stream).IsMoved move change
    (foldRun moreMoved stepMoved (change start) (stream.relocate move))
  fun_induction foldRun more step start stream with
  | case1 state stream taken first later ih =>
    have here := (moves state).moving stream
    rw [foldRun, dif_pos (by rwa [relocate_takes, same])]
    simp only [here.rest, here.value]
    exact ⟨ih.value, ih.rest, raised_append_moved here.raised ih.raised⟩
  | case2 state stream ends =>
    rw [foldRun, dif_neg (by rwa [relocate_takes, same])]
    exact ⟨rfl, rfl, rfl⟩

theorem commaSeparated (moves : Moves move change still moved) :
    Moves move (List.map change) (commaSeparated still) (commaSeparated moved) :=
  bind moves fun _ => bind (manyWhile _ (after advance fun _ => moves)) fun _ => pure rfl

theorem commaList (close : TokenKind) (moves : Moves move change still moved) :
    Moves move (List.map change) (commaList close still) (commaList close moved) :=
  after peekKind fun _ => ite (pure rfl) (commaSeparated moves)

end Moves

end Parser

end MiniC
