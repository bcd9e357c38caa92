import MiniC.Proofs.Expr.Descends
import MiniC.Proofs.Expr.Marks

/-!
A broken composite literal stays within its declaration. Each round of the
reader passes a token that a literal may hold, and it stops at its last closing
brace or at the first token that no literal holds, which it reports and leaves
to others. What had been read is then all in the literal, in its place.
-/

namespace MiniC

open MiniC.Parser MiniC.Composite

/-- Nothing lies between a stream and one of its rests that no literal holds. -/
def Stream.Inside (s r : Stream) : Prop :=
  ∃ passed, s.upcoming = passed ++ r.upcoming ∧
    ∀ lexeme ∈ passed, isBoundary lexeme.token.kind = false

namespace Stream.Inside

variable {s r : Stream}

theorem refl (s : Stream) : s.Inside s := ⟨[], rfl, nofun⟩

theorem passed (inside : s.Inside r) (holds : isBoundary r.token.kind = false) :
    s.Inside r.passed := by
  obtain ⟨between, tokens, held⟩ := inside
  cases upcoming : r.upcoming with
  | nil =>
    rw [passed_of_ended upcoming]
    exact ⟨between, tokens, held⟩
  | cons lexeme rest =>
    refine ⟨between ++ [lexeme], ?_, List.forall_mem_append.mpr ⟨held, ?_⟩⟩
    · rw [tokens, upcoming_passed, upcoming, List.append_assoc]
      rfl
    · have token : r.token = lexeme.token := by simp only [Stream.token, current, upcoming]; rfl
      exact List.forall_mem_singleton.mpr (token ▸ holds)

end Stream.Inside

namespace Composite

variable {s r : Stream}

/-- Where a state of the reader stands, of a literal that began at `s`. -/
def State.Stands (s : Stream) (state : State) (r : Stream) : Prop :=
  match state with
  | .beforeItem _ | .afterItem _ => s.Inside r
  | .finished _ => ∃ brace, s.Inside brace ∧ brace.token.kind = .rBrace ∧ r = brace.passed

section Items

variable (inside : s.Inside r)

include inside

theorem badItem_inside (wanted : Wanted) : Leads (badItem wanted) r fun _ later => s.Inside later := by
  refine Leads.peek (Leads.missing (Leads.ite (fun holds => ?_) fun _ => Leads.pure inside))
  exact Leads.advance (Leads.pure (inside.passed (Bool.not_eq_true' _ |>.mp holds)))

theorem plainItem_inside (isSigned : Bool) :
    Leads (plainItem isSigned) r fun _ later => s.Inside later := by
  refine Leads.peek ?_
  cases isLit : r.token.kind.litKind? with
  | some kind =>
    refine Leads.ite (fun _ => badItem_inside inside _) fun _ => Leads.advance (Leads.pure ?_)
    apply inside.passed
    cases found : r.token.kind <;> simp_all [TokenKind.litKind?, isBoundary]
  | none =>
    refine Leads.ite (fun isName => ?_) fun _ => badItem_inside inside _
    exact Leads.advance (Leads.pure (inside.passed (by rw [isName]; rfl)))

theorem item_inside : Leads item r fun _ later => s.Inside later := by
  refine Leads.peek ?_
  cases isSign : r.token.kind.sign? with
  | some sign =>
    have holds : isBoundary r.token.kind = false := by
      cases found : r.token.kind <;> simp_all [TokenKind.sign?, isBoundary]
    refine Leads.advance (Leads.bind (plainItem_inside (inside.passed holds) true) ?_)
    exact fun _ _ _ further => Leads.pure further
  | none => exact plainItem_inside inside false

end Items

theorem State.stands_closed {frames : Frames} (inside : s.Inside r)
    (isBrace : r.token.kind = .rBrace) : (State.closed frames).Stands s r.passed := by
  obtain ⟨inner, outer⟩ := frames
  cases outer with
  | nil => exact ⟨r, inside, isBrace, rfl⟩
  | cons => exact inside.passed (by rw [isBrace]; rfl)

/-- Where one round of the reader leads. -/
theorem step_stands {state : State} (stands : state.Stands s r)
    (taken : takes (goesOn state) r = true) : Leads (step state) r (State.Stands s) := by
  have goesOn := Quiet.kind_of_takes taken
  cases state with
  | beforeItem frames =>
    have holds : isBoundary r.token.kind = false := Bool.not_eq_true' _ |>.mp goesOn
    refine Leads.peek ?_
    split
    · exact Leads.advance (Leads.pure (Stream.Inside.passed stands holds))
    · next isBrace => exact Leads.advance (Leads.pure (State.stands_closed stands isBrace))
    · exact Leads.bind (item_inside stands) fun _ _ _ further => Leads.pure further
  | afterItem frames =>
    have holds : isBoundary r.token.kind = false := Bool.not_eq_true' _ |>.mp goesOn
    have further : s.Inside r.passed := Stream.Inside.passed stands holds
    refine Leads.peekKind ?_
    split
    · next isBrace => exact Leads.advance (Leads.pure (State.stands_closed stands isBrace))
    · refine Leads.advance (Leads.peekKind (Leads.ite (fun _ => ?_) fun _ => ?_))
      · exact Leads.missing (Leads.pure further)
      · exact Leads.pure further
    · exact Leads.missing (Leads.advance (Leads.pure further))
  | finished literal => cases goesOn

/-- How the reading of a literal that began at `s` ends: behind the brace that closes the last
literal that is open, or at the first token that no literal holds, with the brace reported there. -/
def Ends (s : Stream) (depth : Nat) (rest : Stream) (log : Log) : Prop :=
  (depth = 0 ∧ ∃ brace, s.Inside brace ∧ brace.token.kind = .rBrace ∧ rest = brace.passed) ∨
  (0 < depth ∧ s.Inside rest ∧ isBoundary rest.token.kind = true ∧
    ∃ d ∈ log.raised, d.kind = .expected ∧ d.pos = rest.token.pos)

theorem cutShort (frames : Frames) {state : State} (open_ : state.row.depth = frames.depth)
    (inside : s.Inside r) (stops : takes (fun kind => !isBoundary kind) r = false) (log : Log) :
    Ends s state.row.depth r (log ++ ((missing (.token .rBrace)).run r).log) := by
  refine .inr ⟨open_ ▸ Nat.succ_pos _, inside, ?_, ?_⟩
  · rcases Quiet.kind_of_not_takes stops with isEnd | isOther
    · rw [isEnd]
      rfl
    · exact Bool.not_eq_false' _ ▸ isOther
  · rw [Log.raised_append]
    exact ⟨_, List.mem_append_right _ (List.mem_singleton_self _), rfl, rfl⟩

theorem conclude_ends {state : State} (stands : state.Stands s r)
    (stops : takes (goesOn state) r = false) (log : Log) :
    Ends s state.row.depth ((conclude state).run r).rest (log ++ ((conclude state).run r).log) := by
  cases state with
  | beforeItem frames => exact cutShort frames rfl stands stops log
  | afterItem frames => exact cutShort frames rfl stands stops log
  | finished literal => exact .inl ⟨rfl, stands⟩

/-- How a literal is read from its brace: the loop behind it, then the conclusion. -/
theorem braced_run {σ α : Type} (loop : Position → Parser σ) (next : σ → Parser α) (s : Stream) :
    (do let pos ← position; require .lBrace; let state ← loop pos; next state : Parser α).run s =
      let ended := (loop s.token.pos).run s.passed
      let last := (next ended.value).run ended.rest
      ⟨last.value, last.rest, ((require .lBrace).run s).log ++ (ended.log ++ last.log)⟩ := by
  rw [← Leads.require_rest .lBrace]
  rfl

/-- A composite literal and its row come from one state, which the loop ends in. -/
theorem literal_read (s : Stream) (opens : s.token.kind = .lBrace) : ∃ state r log,
    state.Stands s r ∧ takes (goesOn state) r = false ∧ (row.run s).value = state.row ∧
    (compositeLiteral.run s).rest = ((conclude state).run r).rest ∧
    (compositeLiteral.run s).log = log ++ ((conclude state).run r).log := by
  let loop (pos : Position) := foldWhile goesOn step (.beforeItem (.start pos))
  let ended := (loop s.token.pos).run s.passed
  have start : (State.beforeItem (.start s.token.pos)).Stands s s.passed :=
    (Stream.Inside.refl s).passed (by rw [opens]; rfl)
  have stands : ended.value.Stands s ended.rest ∧ takes (goesOn ended.value) ended.rest = false :=
    Leads.foldWhile (fun state r stands taken =>
      Leads.moving_of_shortens (step_advances state r taken) (step_stands stands taken)) start
  have alike : Alike State.IsRow (loop s.token.pos)
      (foldWhile Row.goesOn Row.step (.start s.token.pos)) :=
    Alike.foldWhile goesOn_row step_alike rfl
  have isRow := (alike s.passed).value
  have concluded (row : Row) (r : Stream) : (row.conclude.run r).value = row := by
    change ((if row.depth = 0 then _ else _ : Parser Row).run r).value = row
    split <;> rfl
  refine ⟨ended.value, ended.rest, ((require .lBrace).run s).log ++ ended.log, stands.1, stands.2,
    ?_, ?_, ?_⟩
  · rw [row, braced_run, ← isRow]
    exact concluded _ _
  · rw [compositeLiteral, braced_run loop conclude s]
  · rw [compositeLiteral, braced_run loop conclude s, List.append_assoc]

/-- A composite literal is read from its opening brace to its last closing one, or up to what no
literal holds. Each round passes a token; the value is always a literal of that brace, and it
holds what was read, each item in the literal that was open then, and nothing else. -/
theorem compositeLiteral_contained (s : Stream) (opens : s.token.kind = .lBrace) :
    let read := compositeLiteral.run s
    let marked := row.run s
    (∃ items, read.value = .composite s.token.pos items) ∧
    Ends s marked.value.depth read.rest read.log ∧
    read.value.marks = marked.value.marks ++ List.replicate marked.value.depth .closed ∧
    marked.rest = read.rest ∧ marked.log = read.log ∧
    ∀ state, Advances (goesOn state) (step state) := by
  obtain ⟨state, r, log, stands, stops, isRow, rest, logs⟩ := literal_read s opens
  obtain ⟨marks, sameRest, sameLog⟩ := literal_alike s
  have opened : [.opened s.token.pos] <+: (compositeLiteral.run s).value.marks := by
    rw [marks]
    exact (row_beginsAt s).trans (List.prefix_append _ _)
  refine ⟨composite_of_marks opened, ?_, marks, sameRest, sameLog, step_advances⟩
  rw [isRow, rest, logs]
  exact conclude_ends stands stops log

/-- Two literals are open where the semicolon comes. -/
def twoOpen : Stream := .ofScanned (.ofSource "t.c" "\x7b1, \x7b2;")

theorem compositeLiteral_contained_twoOpen :
    let read := compositeLiteral.run twoOpen
    twoOpen.token.kind = .lBrace ∧ (∃ items, read.value = .composite twoOpen.token.pos items) ∧
    Ends twoOpen 2 read.rest read.log ∧
    read.value.marks = [.opened ⟨"t.c", 0, 1, 1⟩, .item (.lit ⟨"t.c", 1, 1, 2⟩ .int "1"),
      .opened ⟨"t.c", 4, 1, 5⟩, .item (.lit ⟨"t.c", 5, 1, 6⟩ .int "2"), .closed, .closed] := by
  have opens : twoOpen.token.kind = .lBrace := by decide +kernel
  obtain ⟨isLiteral, ends, marks, -⟩ := compositeLiteral_contained twoOpen opens
  have depth : (row.run twoOpen).value.depth = 2 := by decide +kernel
  rw [depth] at ends
  refine ⟨opens, isLiteral, ends, ?_⟩
  rw [marks, depth]
  with_unfolding_all rfl

end Composite

end MiniC
