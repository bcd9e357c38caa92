import MiniC.Proofs.Expr.Braced
import MiniC.Proofs.Parser.Gives
import MiniC.Proofs.Parser.Leads

/-!
A composite literal as a row of marks: where a literal opens, each item that is
read alone, and where a literal closes. An item is in the literal that was opened
last and is still open. The reader that only writes the marks down and counts the
open literals goes the same way as the one that keeps them in frames, and the
frames say the same as its marks. Two parsers go the same way if from every stream
they report the same and leave the same rest.
-/

namespace MiniC.Parser

variable {α β γ σ τ : Type}

structure AlikeAt (R : α → β → Prop) (first : Outcome α) (second : Outcome β) : Prop where
  value : R first.value second.value
  rest : second.rest = first.rest
  log : second.log = first.log

def Alike (R : α → β → Prop) (p : Parser α) (q : Parser β) : Prop :=
  ∀ s, AlikeAt R (p.run s) (q.run s)

namespace Alike

variable {R : α → β → Prop} {S : σ → τ → Prop} {p : Parser α} {q : Parser β}

theorem pure {a : α} {b : β} (related : R a b) : Alike R (pure a) (pure b) :=
  fun _ => ⟨related, rfl, rfl⟩

theorem bind {f : α → Parser σ} {g : β → Parser τ} (first : Alike R p q)
    (next : ∀ a b, R a b → Alike S (f a) (g b)) : Alike S (p >>= f) (q >>= g) := by
  intro s
  obtain ⟨related, rest, log⟩ := first s
  have later := next _ _ related (p.run s).rest
  change AlikeAt S
    ⟨((f (p.run s).value).run (p.run s).rest).value, ((f (p.run s).value).run (p.run s).rest).rest,
      (p.run s).log ++ ((f (p.run s).value).run (p.run s).rest).log⟩
    ⟨((g (q.run s).value).run (q.run s).rest).value, ((g (q.run s).value).run (q.run s).rest).rest,
      (q.run s).log ++ ((g (q.run s).value).run (q.run s).rest).log⟩
  rw [rest, log]
  exact ⟨later.value, later.rest, congrArg ((p.run s).log ++ ·) later.log⟩

/-- A parser goes its own way. -/
theorem of_gives {good : γ → Prop} {r : Parser γ} (gives : Gives r good) :
    Alike (fun a b => a = b ∧ good a) r r :=
  fun s => ⟨⟨rfl, gives s⟩, rfl, rfl⟩

/-- Both begin with the same parser. -/
theorem after {r : Parser γ} {f : γ → Parser σ} {g : γ → Parser τ}
    (next : ∀ c, Alike S (f c) (g c)) : Alike S (r >>= f) (r >>= g) :=
  bind (S := S) (fun _ => ⟨rfl, rfl, rfl⟩) fun _ _ related => related ▸ next _

theorem ite {c : Prop} [Decidable c] {p' : Parser α} {q' : Parser β} (yes : Alike R p q)
    (no : Alike R p' q') : Alike R (if c then p else p') (if c then q else q') := by
  by_cases holds : c
  · rwa [if_pos holds, if_pos holds]
  · rwa [if_neg holds, if_neg holds]

theorem moving (alike : Alike R p q) : Alike R (moving p) (moving q) := by
  intro s
  obtain ⟨related, rest, log⟩ := alike s
  unfold Parser.moving
  dsimp only
  rw [rest]
  split
  · exact ⟨related, rest, log⟩
  · exact ⟨related, rfl, by rw [log]⟩

/-- The loops go on alike from states that are related. -/
theorem foldWhile {more : α → TokenKind → Bool} {others : β → TokenKind → Bool}
    {step : α → Parser α} {other : β → Parser β}
    (goesOn : ∀ a b, R a b → others b = more a) (each : ∀ a b, R a b → Alike R (step a) (other b))
    {a : α} {b : β} (start : R a b) : Alike R (foldWhile more step a) (foldWhile others other b) := by
  intro s
  suffices further : ∀ b, R a b → AlikeAt R (foldRun more step a s) (foldRun others other b s) from
    further b start
  clear start
  fun_induction foldRun more step a s with
  | case1 a s taken first later ih =>
    intro b start
    obtain ⟨related, rest, log⟩ := (each a b start).moving s
    rw [foldRun.eq_def others other b s, goesOn a b start, dif_pos taken]
    have further := ih _ related
    dsimp only
    rw [rest, log]
    exact ⟨further.value, further.rest, congrArg (first.log ++ ·) further.log⟩
  | case2 a s stops =>
    intro b start
    rw [foldRun.eq_def others other b s, goesOn a b start, dif_neg stops]
    exact ⟨start, rfl, rfl⟩

end Alike

end MiniC.Parser

namespace MiniC

open MiniC.Parser

inductive Mark where
  | opened (pos : Position)
  | item (e : Expr)
  | closed

mutual

/-- An expression as marks; what is no composite literal is one item. -/
def Expr.marks : Expr → List Mark
  | .composite pos items => .opened pos :: (Expr.marksOfAll items ++ [.closed])
  | e => [.item e]

def Expr.marksOfAll : List Expr → List Mark
  | [] => []
  | e :: rest => e.marks ++ Expr.marksOfAll rest

end

theorem Expr.marksOfAll_eq (es : List Expr) : Expr.marksOfAll es = es.flatMap Expr.marks := by
  induction es with
  | nil => rfl
  | cons e rest ih => rw [Expr.marksOfAll, ih, List.flatMap_cons]

namespace Composite

theorem IsSingle.marks {e : Expr} (single : IsSingle e) : e.marks = [.item e] := by
  cases single with
  | @atom e isAtom =>
    cases e with
    | composite => exact isAtom.elim
    | _ => rfl
  | signed => rfl

/-- What has been read of a literal, as marks. -/
structure Row where
  marks : List Mark
  /-- How many literals are open. -/
  depth : Nat
  /-- Whether an item may come next. -/
  wantsItem : Bool

namespace Row

def start (pos : Position) : Row := ⟨[.opened pos], 1, true⟩

def opened (row : Row) (pos : Position) : Row := ⟨row.marks ++ [.opened pos], row.depth + 1, true⟩

def closed (row : Row) : Row := ⟨row.marks ++ [.closed], row.depth - 1, false⟩

def read (row : Row) (item : Expr) : Row := ⟨row.marks ++ [.item item], row.depth, false⟩

/-- As the step of the reader, with no literal kept. -/
def step (row : Row) : Parser Row :=
  if row.depth = 0 then pure row
  else if row.wantsItem then do
    let token ← peek
    match token.kind with
    | .lBrace =>
      advance
      pure (row.opened token.pos)
    | .rBrace =>
      advance
      pure row.closed
    | _ =>
      let item ← item
      pure (row.read item)
  else do
    match ← peekKind with
    | .rBrace =>
      advance
      pure row.closed
    | .comma =>
      advance
      if (← peekKind) = .rBrace then
        missing .itemAfterComma
        pure row
      else pure { row with wantsItem := true }
    | _ =>
      missing .commaOrBrace
      advance
      pure { row with wantsItem := true }

def goesOn (row : Row) (kind : TokenKind) : Bool := row.depth ≠ 0 && !isBoundary kind

def conclude (row : Row) : Parser Row :=
  if row.depth = 0 then pure row
  else do
    missing (.token .rBrace)
    pure row

/-- The marks, and what is still open closed. -/
def whole (row : Row) : List Mark := row.marks ++ List.replicate row.depth .closed

end Row

/-- What can be read of a composite literal, as marks. -/
def row : Parser Row := do
  let pos ← position
  require .lBrace
  let row ← foldWhile Row.goesOn Row.step (.start pos)
  row.conclude

section Row

/-- Marks are put behind those that are there, whatever comes. -/
theorem Row.step_extends (row : Row) : Gives row.step fun later => row.marks <+: later.marks := by
  have same : row.marks <+: row.marks := List.prefix_rfl
  have more (mark : Mark) : row.marks <+: row.marks ++ [mark] := List.prefix_append _ _
  apply Gives.ite
  · exact fun _ => Gives.pure same
  intro isOpen
  apply Gives.ite
  · intro wantsItem
    refine Gives.after fun token => ?_
    split
    · exact Gives.last (more _)
    · exact Gives.last (more _)
    · exact Gives.after fun item => Gives.pure (more _)
  · intro behindItem
    refine Gives.after fun next => ?_
    split
    · exact Gives.last (more _)
    · refine Gives.after fun _ => ?_
      refine Gives.after fun behind => ?_
      apply Gives.ite
      · exact fun _ => Gives.last same
      · exact fun _ => Gives.pure same
    · refine Gives.after fun _ => ?_
      exact Gives.last same

/-- The first mark is of the brace at `pos`. -/
def Row.BeginsAt (pos : Position) (row : Row) : Prop := [.opened pos] <+: row.marks

theorem row_beginsAt (s : Stream) : (row.run s).value.BeginsAt s.token.pos := by
  have each (row : Row) (begins : row.BeginsAt s.token.pos) :
      Gives row.step (Row.BeginsAt s.token.pos) :=
    row.step_extends.mono fun _ => begins.trans
  have start : (Row.start s.token.pos).BeginsAt s.token.pos := List.prefix_rfl
  have loop : Gives (foldWhile Row.goesOn Row.step (.start s.token.pos))
      (Row.BeginsAt s.token.pos) := Gives.foldWhile each start
  have whole : Gives (foldWhile Row.goesOn Row.step (.start s.token.pos) >>= Row.conclude)
      (Row.BeginsAt s.token.pos) := by
    refine Gives.bind loop fun row begins => ?_
    apply Gives.ite
    · exact fun _ => Gives.pure begins
    · exact fun _ => Gives.last begins
  change Leads row s fun row _ => row.BeginsAt s.token.pos
  apply Leads.position
  apply Leads.require
  exact whole s.passed

end Row

section Frames

theorem marksOfAll_append (left right : List Expr) :
    Expr.marksOfAll (left ++ right) = Expr.marksOfAll left ++ Expr.marksOfAll right := by
  rw [Expr.marksOfAll_eq, Expr.marksOfAll_eq, Expr.marksOfAll_eq, List.flatMap_append]

def Frame.marks (frame : Frame) : List Mark :=
  .opened frame.pos :: Expr.marksOfAll frame.items.reverse

theorem Frame.marks_literal (frame : Frame) : frame.literal.marks = frame.marks ++ [.closed] := rfl

theorem Frame.marks_add (frame : Frame) (item : Expr) :
    (frame.add item).marks = frame.marks ++ item.marks := by
  unfold Frame.marks Frame.add
  rw [List.reverse_cons, marksOfAll_append, List.cons_append, Expr.marksOfAll, Expr.marksOfAll,
    List.append_nil]

/-- From the outside in. -/
def Frames.marks (frames : Frames) : List Mark :=
  frames.outer.reverse.flatMap Frame.marks ++ frames.inner.marks

theorem Frames.marks_opened (frames : Frames) (pos : Position) :
    (frames.opened pos).marks = frames.marks ++ [.opened pos] := by
  unfold Frames.marks Frames.opened
  rw [List.reverse_cons, List.flatMap_append, List.flatMap_singleton]
  rfl

theorem Frames.marks_add (frames : Frames) (item : Expr) :
    (frames.add item).marks = frames.marks ++ item.marks := by
  unfold Frames.marks Frames.add
  rw [Frame.marks_add, List.append_assoc]

theorem Frames.marks_around (inner around : Frame) (outer : List Frame) :
    Frames.marks ⟨around.add inner.literal, outer⟩ =
      Frames.marks ⟨inner, around :: outer⟩ ++ [.closed] := by
  simp only [Frames.marks, Frame.marks_add, Frame.marks_literal, List.reverse_cons,
    List.flatMap_append, List.flatMap_singleton, List.append_assoc]

def Frames.depth (frames : Frames) : Nat := frames.outer.length + 1

/-- Nothing that is in the frames gets lost, and nothing changes its place. -/
theorem Frames.marks_closeAll (frames : Frames) :
    frames.closeAll.marks = frames.marks ++ List.replicate frames.depth .closed := by
  obtain ⟨inner, outer⟩ := frames
  induction outer generalizing inner with
  | nil => rfl
  | cons around outer ih =>
    have further := ih (around.add inner.literal)
    rw [Frames.marks_around, List.append_assoc] at further
    exact further

/-- What the frames tell of a row. -/
def State.row : State → Row
  | .beforeItem frames => ⟨frames.marks, frames.depth, true⟩
  | .afterItem frames => ⟨frames.marks, frames.depth, false⟩
  | .finished literal => ⟨literal.marks, 0, false⟩

theorem State.row_opened (frames : Frames) (pos : Position) :
    (State.beforeItem (frames.opened pos)).row = (State.beforeItem frames).row.opened pos :=
  congrArg (Row.mk · _ _) (Frames.marks_opened frames pos)

theorem State.row_add (frames : Frames) {item : Expr} (single : IsSingle item) :
    (State.afterItem (frames.add item)).row = (State.beforeItem frames).row.read item := by
  have marks := Frames.marks_add frames item
  rw [single.marks] at marks
  exact congrArg (Row.mk · _ _) marks

theorem State.row_closed (frames : Frames) (wantsItem : Bool) :
    (State.closed frames).row = Row.closed ⟨frames.marks, frames.depth, wantsItem⟩ := by
  obtain ⟨inner, outer⟩ := frames
  cases outer with
  | nil => rfl
  | cons around outer => exact congrArg (Row.mk · _ _) (Frames.marks_around inner around outer)

end Frames

section Alike

/-- The row of a state. -/
def State.IsRow (state : State) (row : Row) : Prop := row = state.row

variable {frames : Frames}

theorem step_alike (state : State) (row : Row) (isRow : state.IsRow row) :
    Alike State.IsRow (step state) row.step := by
  subst isRow
  cases state with
  | beforeItem frames =>
    apply Alike.after
    rintro ⟨kind, text, pos⟩
    cases kind with
    | lBrace =>
      exact Alike.after fun _ => Alike.pure (State.row_opened frames pos).symm
    | rBrace => exact Alike.after fun _ => Alike.pure (State.row_closed frames true).symm
    | _ =>
      apply Alike.bind (Alike.of_gives item_single)
      rintro item _ ⟨rfl, single⟩
      exact Alike.pure (State.row_add frames single).symm
  | afterItem frames =>
    apply Alike.after
    intro kind
    cases kind with
    | rBrace => exact Alike.after fun _ => Alike.pure (State.row_closed frames false).symm
    | comma =>
      apply Alike.after
      intro _
      apply Alike.after
      intro behind
      apply Alike.ite
      · exact Alike.after fun _ => Alike.pure rfl
      · exact Alike.pure rfl
    | _ =>
      apply Alike.after
      intro _
      exact Alike.after fun _ => Alike.pure rfl
  | finished literal => exact Alike.pure rfl

theorem goesOn_row (state : State) (row : Row) (isRow : state.IsRow row) :
    row.goesOn = goesOn state := by
  subst isRow
  cases state <;> rfl

theorem conclude_alike (state : State) (row : Row) (isRow : state.IsRow row) :
    Alike (fun literal row => literal.marks = row.whole) (conclude state) row.conclude := by
  subst isRow
  cases state with
  | beforeItem frames | afterItem frames =>
    exact Alike.after fun _ => Alike.pure (Frames.marks_closeAll frames)
  | finished literal => exact Alike.pure (List.append_nil _).symm

/-- A list of marks that begins with a brace is of a composite literal from that brace. -/
theorem composite_of_marks {e : Expr} {pos : Position} (opened : [.opened pos] <+: e.marks) :
    ∃ items, e = .composite pos items := by
  obtain ⟨rest, marks⟩ := opened
  cases e with
  | composite own items =>
    obtain ⟨⟨rfl⟩, -⟩ := List.cons.inj marks
    exact ⟨items, rfl⟩
  | _ => cases marks

/-- The literal read says what the row says, of the same tokens. -/
theorem literal_alike :
    Alike (fun literal row => literal.marks = row.whole) compositeLiteral row := by
  apply Alike.after
  intro pos
  apply Alike.after
  intro _
  exact Alike.bind (Alike.foldWhile goesOn_row step_alike rfl) conclude_alike

end Alike

end Composite

end MiniC
