import MiniC.Proofs.Parser.Ascends
import MiniC.Proofs.Token.OneLine

/-!
Reading tokens that are of one line each. What a parser reports quotes no more of
the source than such tokens, so it is told in one line, too.
-/

namespace MiniC

open Text (IsLine)

/-- All lexemes still to be read are of one line, the end among them. -/
def Stream.IsLined (s : Stream) : Prop := ∀ lexeme ∈ s.upcoming ++ [s.ending], lexeme.IsLined

theorem Stream.IsLined.rest {s r : Stream} (lined : s.IsLined) (isRest : r.IsRest s) : r.IsLined :=
  fun lexeme member => lined lexeme (isRest.all.subset member)

theorem Stream.IsLined.current {s : Stream} (lined : s.IsLined) : s.current.IsLined :=
  lined _ (Stream.IsRest.refl s).current_mem

def Log.IsLined (log : Log) : Prop := ∀ d ∈ log.raised, d.IsLined

theorem Log.IsLined.append {sooner later : Log} (before : sooner.IsLined) (after : later.IsLined) :
    Log.IsLined (sooner ++ later) := by
  unfold Log.IsLined
  rw [Log.raised_append]
  exact List.forall_mem_append.mpr ⟨before, after⟩

theorem Stream.IsLined.arrival {s : Stream} (lined : s.IsLined) : s.arrival.IsLined := by
  apply Log.IsLined.append
  · unfold Log.IsLined
    rw [Log.raised_problems]
    exact lined.current.faults
  · exact nofun

theorem TokenKind.description_lined (kind : TokenKind) : IsLine kind.description := by
  cases kind <;> decide

theorem Token.shown_lined {token : Token} (lined : IsLine token.text) : IsLine token.shown := by
  unfold shown
  split
  · exact (token.kind.description_lined.append (by decide)).append lined
  · exact token.kind.description_lined

theorem Wanted.description_lined (wanted : Wanted) : IsLine wanted.description := by
  cases wanted with
  | token kind => exact kind.description_lined
  | _ => decide

namespace Parser

variable {α β σ : Type}

/-- On tokens of one line each the value is good, and what is reported is of one
line. -/
def Lined (p : Parser α) (good : α → Prop) : Prop :=
  ∀ s : Stream, s.IsLined → good (p.run s).value ∧ (p.run s).log.IsLined

namespace Lined

variable {p : Parser α} {f : α → Parser β} {good : α → Prop} {Q : β → Prop}

theorem pure {a : α} (holds : good a) : Lined (pure a) good := fun _ _ => ⟨holds, nofun⟩

theorem bind (first : Lined p good) (next : ∀ a, good a → Lined (f a) Q) : Lined (p >>= f) Q := by
  intro s lined
  obtain ⟨isGood, before⟩ := first s lined
  obtain ⟨holds, behind⟩ := next _ isGood _ (lined.rest (p.isRest s))
  exact ⟨holds, before.append behind⟩

theorem map {g : α → β} (lined : Lined p fun a => Q (g a)) : Lined (g <$> p) Q :=
  bind lined fun _ holds => pure holds

theorem some (lined : Lined p good) : Lined (some <$> p) fun found => ∀ a ∈ found, good a := by
  refine map fun s isLined => ?_
  obtain ⟨holds, log⟩ := lined s isLined
  exact ⟨fun _ same => Option.mem_some_iff.mp same ▸ holds, log⟩

theorem ite {c : Prop} [Decidable c] {yes no : Parser α} (isYes : c → Lined yes good)
    (isNo : ¬ c → Lined no good) : Lined (if c then yes else no) good := by
  by_cases holds : c
  · rw [if_pos holds]
    exact isYes holds
  · rw [if_neg holds]
    exact isNo holds

theorem peek : Lined peek fun token => IsLine token.text :=
  fun _ lined => ⟨lined.current.text, nofun⟩

theorem bind_peek {f : Token → Parser β} (next : ∀ token, IsLine token.text → Lined (f token) Q) :
    Lined (Parser.peek >>= f) Q :=
  bind peek next

theorem bind_peekKind {f : TokenKind → Parser β} (next : ∀ kind, Lined (f kind) Q) :
    Lined (peekKind >>= f) Q :=
  fun s lined => next s.token.kind s lined

theorem bind_position {f : Position → Parser β} (next : ∀ pos, Lined (f pos) Q) :
    Lined (position >>= f) Q :=
  fun s lined => next s.token.pos s lined

/-- A parser whose value does not matter. -/
theorem andThen (first : Lined p fun _ => True) (next : ∀ a, Lined (f a) Q) : Lined (p >>= f) Q :=
  bind first fun a _ => next a

/-- A parser behind which nothing is read. -/
theorem last (first : Lined p fun _ => True) {b : β} (holds : Q b) :
    Lined (p >>= fun _ => Pure.pure b) Q :=
  first.andThen fun _ => pure holds

theorem advance : Lined advance fun _ => True := by
  intro s lined
  refine ⟨trivial, ?_⟩
  unfold Parser.advance
  dsimp only
  split
  · exact nofun
  · exact (lined.rest (.tail s)).arrival

theorem advanceMany (n : Nat) : Lined (advanceMany n) fun _ => True := by
  induction n with
  | zero => exact pure trivial
  | succ n ih => exact advance.andThen fun _ => ih

/-- A remark that reports nothing. -/
theorem remark {remark : Remark} (quiet : remark.event.diagnostic? = none) :
    Lined (Parser.remark remark) fun _ => True := by
  have none : Log.raised [remark.event] = [] := List.filterMap_cons_none quiet
  refine fun _ _ => ⟨trivial, ?_⟩
  change Log.IsLined [remark.event]
  rw [Log.IsLined, none]
  exact nofun

theorem report {pos : Position} {problem : GrammarProblem} (lined : IsLine problem.message) :
    Lined (report pos problem) fun _ => True :=
  fun _ _ => ⟨trivial, List.forall_mem_singleton.mpr lined⟩

theorem missing (wanted : Wanted) : Lined (missing wanted) fun _ => True := by
  refine bind_peek fun found lined => report ?_
  have middle : IsLine ", found " := by decide
  exact (((by decide : IsLine "expected ").append wanted.description_lined).append middle).append
    (Token.shown_lined lined)

theorem accept (kind : TokenKind) : Lined (accept kind) fun _ => True := by
  apply bind_peekKind
  intro next
  apply ite
  · exact fun _ => advance.last trivial
  · exact fun _ => pure trivial

theorem require (kind : TokenKind) : Lined (require kind) fun _ => True := by
  apply bind_peekKind
  intro next
  apply ite
  · exact fun _ => (missing _).andThen fun _ => advance
  · exact fun _ => advance

theorem skipNested : Lined skipNested fun _ => True := fun s lined => advanceMany _ s lined

theorem refuseDepth : Lined refuseDepth fun _ => True := by
  have told : IsLine GrammarProblem.tooDeep.message := by decide
  apply bind_position
  intro pos
  apply (report told).andThen
  exact fun _ => skipNested

theorem moving (lined : Lined p good) : Lined (moving p) good := by
  intro s isLined
  obtain ⟨holds, log⟩ := lined s isLined
  unfold Parser.moving
  dsimp only
  split
  · exact ⟨holds, log⟩
  · exact ⟨holds, log.append (advance _ (isLined.rest (p.isRest s))).2⟩

theorem manyWhile (more : TokenKind → Bool) (lined : Lined p good) :
    Lined (manyWhile more p) fun as => ∀ a ∈ as, good a := by
  intro s isLined
  change (∀ a ∈ (manyRun more p s).value, good a) ∧ (manyRun more p s).log.IsLined
  fun_induction manyRun more p s with
  | case1 s _ first later ih =>
    obtain ⟨holds, before⟩ := lined.moving s isLined
    obtain ⟨others, behind⟩ := ih (isLined.rest ((Parser.moving p).isRest s))
    exact ⟨List.forall_mem_cons.mpr ⟨holds, others⟩, before.append behind⟩
  | case2 => exact ⟨List.forall_mem_nil _, List.forall_mem_nil _⟩

theorem commaList (close : TokenKind) (lined : Lined p good) :
    Lined (commaList close p) fun as => ∀ a ∈ as, good a := by
  have another : Lined (do Parser.advance; p) good := advance.andThen fun _ => lined
  apply bind_peekKind
  intro next
  apply ite
  · exact fun _ => pure nofun
  · intro _
    apply bind lined
    intro first isGood
    apply bind (manyWhile _ another)
    intro later areGood
    exact pure (List.forall_mem_cons.mpr ⟨isGood, areGood⟩)

/-- What each step keeps, if the loop starts with it. -/
theorem foldWhile {more : σ → TokenKind → Bool} {step : σ → Parser σ} {keeps : σ → Prop}
    (each : ∀ state, keeps state → Lined (step state) keeps) {start : σ} (holds : keeps start) :
    Lined (foldWhile more step start) keeps := by
  intro s isLined
  change keeps (foldRun more step start s).value ∧ (foldRun more step start s).log.IsLined
  fun_induction foldRun more step start s with
  | case1 state s _ first later ih =>
    obtain ⟨kept, before⟩ := (each state holds).moving s isLined
    obtain ⟨final, behind⟩ := ih kept (isLined.rest ((Parser.moving (step state)).isRest s))
    exact ⟨final, before.append behind⟩
  | case2 => exact ⟨holds, List.forall_mem_nil _⟩

end Lined

end Parser

end MiniC
