import MiniC.Parser.Basic
import MiniC.Proofs.Parser.Quiet

/-!
What a run of a parser passes on from the scanner: the tokens that it reaches,
each behind the faults found on the way to it. All else in its log are remarks
of its own, and no remark is of the scanner's kind.
-/

namespace MiniC

/-- Whether an entry tells what a scan found. -/
def Event.isScanned : Event → Bool
  | .token _ => true
  | .problem d => d.kind.phase = .scanning
  | _ => false

def Event.token? : Event → Option Token
  | .token t => some t
  | _ => none

namespace Log

/-- The part of a log that comes from scanning. -/
def scanned (log : Log) : Log := log.filter Event.isScanned

/-- The tokens that were reached, in order. -/
def tokens (log : Log) : List Token := log.filterMap Event.token?

theorem scanned_append (sooner later : Log) :
    scanned (sooner ++ later) = scanned sooner ++ scanned later :=
  List.filter_append ..

theorem tokens_append (sooner later : Log) :
    tokens (sooner ++ later) = tokens sooner ++ tokens later :=
  List.filterMap_append

theorem tokens_scanned (log : Log) : log.scanned.tokens = log.tokens := by
  unfold scanned tokens
  rw [List.filterMap_filter]
  apply List.filterMap_congr
  intro event _
  cases event <;> simp [Event.isScanned, Event.token?]

theorem raised_scanned (log : Log) :
    log.scanned.raised = log.raised.filter (·.kind.phase = .scanning) := by
  unfold scanned raised
  rw [List.filterMap_filter, List.filter_filterMap]
  apply List.filterMap_congr
  intro event _
  cases event <;> simp [Event.isScanned, Event.diagnostic?, Option.filter]

end Log

namespace Lexeme

/-- What reaching a lexeme logs. -/
def log (lexeme : Lexeme) : Log := lexeme.faults.map .problem ++ [.token lexeme.token]

/-- The faults are of the scanner's kinds. -/
def IsLexical (lexeme : Lexeme) : Prop := ∀ d ∈ lexeme.faults, d.kind.phase = .scanning

theorem tokens_log (lexeme : Lexeme) : lexeme.log.tokens = [lexeme.token] := by
  have faults : Log.tokens (lexeme.faults.map .problem) = [] := by
    unfold Log.tokens
    rw [List.filterMap_map]
    exact List.filterMap_eq_nil_iff.mpr fun _ _ => rfl
  rw [log, Log.tokens_append, faults]
  rfl

theorem raised_log (lexeme : Lexeme) : lexeme.log.raised = lexeme.faults := by
  unfold log
  rw [Log.raised_append, Log.raised_problems]
  exact List.append_nil _

theorem IsLexical.scanned_log {lexeme : Lexeme} (lexical : lexeme.IsLexical) :
    lexeme.log.scanned = lexeme.log := by
  apply List.filter_eq_self.mpr
  intro event member
  rcases List.mem_append.mp member with isFault | isToken
  · obtain ⟨d, found, rfl⟩ := List.mem_map.mp isFault
    exact decide_eq_true (lexical d found)
  · rw [List.mem_singleton.mp isToken]
    rfl

end Lexeme

theorem Remark.isScanned_event (remark : Remark) : remark.event.isScanned = false := by
  cases remark with
  | problem pos cause =>
    cases cause with
    | missing wanted found =>
      cases wanted with
      | token kind => cases kind <;> rfl
      | _ => rfl
    | _ => rfl
  | _ => rfl

namespace Stream

/-- The lexemes still to be reached, the end among them. -/
def later (stream : Stream) : List Lexeme := (stream.upcoming ++ [stream.ending]).tail

theorem current_cons_later (stream : Stream) :
    stream.current :: stream.later = stream.upcoming ++ [stream.ending] := by
  unfold current later
  cases stream.upcoming <;> rfl

theorem later_eq {stream : Stream} (more : stream.upcoming ≠ []) :
    stream.later = stream.tail.current :: stream.tail.later := by
  rw [current_cons_later]
  unfold later
  rw [List.tail_append_of_ne_nil more]
  rfl

theorem later_eq_nil {stream : Stream} (ended : stream.upcoming = []) : stream.later = [] := by
  unfold later
  rw [ended]
  rfl

end Stream

/-- A way to the end passes every lexeme once, in order; at the end it reaches
nothing but the end again. -/
theorem Passage.scanned {stream rest : Stream} {log : Log} (passage : Passage stream log rest)
    (ended : rest.upcoming = []) (lexical : ∀ lexeme ∈ stream.later, lexeme.IsLexical) :
    ∃ again, log.scanned =
      stream.later.flatMap Lexeme.log ++ List.replicate again (.token stream.ending.token) := by
  induction passage with
  | stay stream => exact ⟨0, by rw [Stream.later_eq_nil ended]; rfl⟩
  | remark remark way ih =>
    obtain ⟨again, same⟩ := ih ended lexical
    use again
    unfold Log.scanned at same ⊢
    rw [List.filter_cons_of_neg (by rw [remark.isScanned_event]; decide), same]
  | @pass stream rest log more way ih =>
    rw [Stream.later_eq more, List.forall_mem_cons] at lexical
    obtain ⟨again, same⟩ := ih ended lexical.2
    use again
    rw [Log.scanned_append, same, Stream.later_eq more, List.flatMap_cons, List.append_assoc]
    exact congrArg (· ++ _) lexical.1.scanned_log
  | @linger stream rest log done way ih =>
    obtain ⟨again, same⟩ := ih ended lexical
    use again + 1
    have token : stream.token = stream.ending.token := by
      unfold Stream.token Stream.current
      rw [done]
      rfl
    rw [Stream.later_eq_nil done] at same ⊢
    rw [List.replicate_succ, ← token]
    rw [← token] at same
    exact congrArg (Event.token stream.token :: ·) same

end MiniC
