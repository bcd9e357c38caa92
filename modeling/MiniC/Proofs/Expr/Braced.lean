import MiniC.Expr.Composite
import MiniC.Proofs.Parser.Gives

/-!
What holds of a composite literal whatever the source is. The items of one are
read one by one, and a list in braces is an item itself; so what holds of all
items that are read alone, and of a list when it holds of what is in it, holds
of all items of the literal, those of the open lists around them among them. An
item that is read alone is an atom, behind a sign or not.
-/

namespace MiniC

open MiniC.Parser

/-- A name, a literal, or what stands for one that could not be read. -/
def Expr.IsAtom : Expr → Prop
  | bad _ | ident _ _ | lit _ _ _ => True
  | _ => False

namespace Composite

/-- What an item is that is read alone. -/
inductive IsSingle : Expr → Prop where
  | atom {e : Expr} : e.IsAtom → IsSingle e
  | signed (pos : Position) (sign : Sign) {e : Expr} : e.IsAtom → IsSingle (.unary pos sign e)

theorem badItem_atom (wanted : Wanted) : Gives (badItem wanted) Expr.IsAtom := by
  refine Gives.after fun found => ?_
  refine Gives.after fun _ => ?_
  apply Gives.ite
  · exact fun _ => Gives.last trivial
  · exact fun _ => Gives.pure trivial

theorem plainItem_atom (isSigned : Bool) : Gives (plainItem isSigned) Expr.IsAtom := by
  refine Gives.after fun token => ?_
  split
  · apply Gives.ite
    · exact fun _ => badItem_atom _
    · exact fun _ => Gives.last trivial
  · apply Gives.ite
    · exact fun _ => Gives.last trivial
    · exact fun _ => badItem_atom _

theorem item_single : Gives item IsSingle := by
  refine Gives.after fun token => ?_
  split
  · refine Gives.after fun _ => ?_
    refine Gives.bind (plainItem_atom true) fun operand isAtom => ?_
    exact Gives.pure (.signed token.pos _ isAtom)
  · exact fun s => .atom (plainItem_atom false s)

variable {P : Expr → Prop}

def Frames.Hold (P : Expr → Prop) (frames : Frames) : Prop :=
  ∀ frame ∈ frames.inner :: frames.outer, ∀ item ∈ frame.items, P item

/-- A literal whose items all have a property. -/
def IsListOf (P : Expr → Prop) (e : Expr) : Prop :=
  ∃ pos items, e = .composite pos items ∧ ∀ item ∈ items, P item

def State.Holds (P : Expr → Prop) : State → Prop
  | .beforeItem frames | .afterItem frames => frames.Hold P
  | .finished literal => IsListOf P literal

theorem Frame.literal_holds {frame : Frame} (holds : ∀ item ∈ frame.items, P item) :
    IsListOf P frame.literal :=
  ⟨frame.pos, frame.items.reverse, rfl, fun item member => holds item (List.mem_reverse.mp member)⟩

namespace Frames.Hold

variable {frames : Frames} (hold : frames.Hold P)

include hold

theorem add {item : Expr} (holds : P item) : (frames.add item).Hold P := by
  obtain ⟨inner, outer⟩ := List.forall_mem_cons.mp hold
  exact List.forall_mem_cons.mpr ⟨List.forall_mem_cons.mpr ⟨holds, inner⟩, outer⟩

theorem opened (pos : Position) : (frames.opened pos).Hold P :=
  List.forall_mem_cons.mpr ⟨nofun, hold⟩

variable (nested : ∀ e, IsListOf P e → P e)

include nested

theorem closed : (State.closed frames).Holds P := by
  obtain ⟨inner, outer⟩ := frames
  obtain ⟨first, others⟩ := List.forall_mem_cons.mp hold
  have literal := Frame.literal_holds first
  cases outer with
  | nil => exact literal
  | cons around outer =>
    have outside : Frames.Hold P ⟨around, outer⟩ := others
    exact outside.add (nested _ literal)

theorem closeAll : IsListOf P frames.closeAll := by
  obtain ⟨inner, outer⟩ := frames
  obtain ⟨first, others⟩ := List.forall_mem_cons.mp hold
  have start := Frame.literal_holds first
  change IsListOf P (outer.foldl _ inner.literal)
  generalize inner.literal = literal at start
  clear first hold
  induction outer generalizing literal with
  | nil => exact start
  | cons around rest ih =>
    obtain ⟨here, further⟩ := List.forall_mem_cons.mp others
    refine ih further _ (Frame.literal_holds ?_)
    exact List.forall_mem_cons.mpr ⟨nested literal start, here⟩

end Frames.Hold

variable (single : Gives item P) (nested : ∀ e, IsListOf P e → P e)

include single nested

theorem step_gives {state : State} (holds : state.Holds P) :
    Gives (step state) (State.Holds P) := by
  cases state with
  | beforeItem frames =>
    refine Gives.after fun token => ?_
    split
    · exact Gives.last (Frames.Hold.opened holds _)
    · exact Gives.last (Frames.Hold.closed holds nested)
    · refine Gives.bind single fun item isItem => ?_
      exact Gives.pure (Frames.Hold.add holds isItem)
  | afterItem frames =>
    refine Gives.after fun kind => ?_
    split
    · exact Gives.last (Frames.Hold.closed holds nested)
    · refine Gives.after fun _ => ?_
      refine Gives.after fun kind => ?_
      apply Gives.ite
      · exact fun _ => Gives.last holds
      · exact fun _ => Gives.pure holds
    · refine Gives.after fun _ => ?_
      exact Gives.last holds
  | finished literal => exact Gives.pure holds

/-- What holds of each item that is read alone, and of a list of such, holds of all items. -/
theorem literal_keeps : Gives compositeLiteral (IsListOf P) := by
  refine Gives.after fun pos => ?_
  refine Gives.after fun _ => ?_
  have start : (State.beforeItem (.start pos)).Holds P :=
    List.forall_mem_cons.mpr ⟨nofun, nofun⟩
  have loop : Gives (foldWhile goesOn step (.beforeItem (.start pos))) (State.Holds P) :=
    Gives.foldWhile (fun _ holds => step_gives single nested holds) start
  refine Gives.bind loop fun state holds => ?_
  cases state with
  | beforeItem frames => exact Gives.last (Frames.Hold.closeAll holds nested)
  | afterItem frames => exact Gives.last (Frames.Hold.closeAll holds nested)
  | finished literal => exact Gives.pure holds

omit single nested in
/-- The same of all that an item read alone can be. -/
theorem literal_gives (single : ∀ e, IsSingle e → P e) (nested : ∀ e, IsListOf P e → P e) :
    Gives compositeLiteral (IsListOf P) :=
  literal_keeps (item_single.mono single) nested

end Composite

end MiniC
