import MiniC.Parser.Loop
import MiniC.Proofs.Syntax.Spelled
import MiniC.Proofs.Token.Exact

/-!
What a parser is known to have done if it reported nothing. `Quiet p s Q` says
that a run of `p` from `s` without any problem in its log ends with a value and
a rest that satisfy `Q`. A parser that reports whenever it drops or invents a
token is thus described by its good runs alone.
-/

namespace MiniC

namespace Log

theorem raised_append (sooner later : Log) :
    raised (sooner ++ later) = raised sooner ++ raised later :=
  List.filterMap_append

theorem raised_problems (problems : List Diagnostic) :
    raised (problems.map Event.problem) = problems := by
  unfold raised
  rw [List.filterMap_map]
  exact List.filterMap_some

end Log

namespace Stream

theorem raised_arrival (stream : Stream) : stream.arrival.raised = stream.current.faults := by
  unfold arrival
  rw [Log.raised_append, Log.raised_problems]
  exact List.append_nil _

def Exact (stream : Stream) : Prop := ∀ lexeme ∈ stream.upcoming, lexeme.token.Exact

theorem IsRest.exact {rest stream : Stream} (isRest : rest.IsRest stream) (exact : stream.Exact) :
    rest.Exact :=
  fun lexeme member => exact lexeme (isRest.suffix.subset member)

theorem Exact.token {stream : Stream} (exact : stream.Exact) (more : stream.token.kind ≠ .eof) :
    stream.token.Exact := by
  apply exact stream.current
  rw [upcoming_eq more]
  exact List.mem_cons_self

end Stream

namespace Parser

variable {α β σ : Type}

def Quiet (p : Parser α) (s : Stream) (Q : α → Stream → Prop) : Prop :=
  s.Exact → (p.run s).log.raised = [] → Q (p.run s).value (p.run s).rest

namespace Quiet

variable {p : Parser α} {s : Stream} {P Q : α → Stream → Prop}

theorem mono (quiet : Quiet p s P) (weaker : ∀ a r, P a r → Q a r) : Quiet p s Q :=
  fun exact none => weaker _ _ (quiet exact none)

/-- The current token may be taken to be one that a scan gave. -/
theorem of_exact (quiet : (s.token.kind ≠ .eof → s.token.Exact) → Quiet p s Q) : Quiet p s Q :=
  fun exact none => quiet exact.token exact none

theorem bind {f : α → Parser β} {R : β → Stream → Prop} (first : Quiet p s P)
    (next : ∀ a r, P a r → Quiet (f a) r R) : Quiet (p >>= f) s R := by
  intro exact none
  change Log.raised ((p.run s).log ++ ((f _).run (p.run s).rest).log) = [] at none
  rw [Log.raised_append, List.append_eq_nil_iff] at none
  exact next _ _ (first exact none.1) ((p.isRest s).exact exact) none.2

theorem map {f : α → β} {R : β → Stream → Prop} (quiet : Quiet p s fun a r => R (f a) r) :
    Quiet (f <$> p) s R :=
  bind quiet fun _ _ holds _ _ => holds

theorem pure {a : α} (holds : Q a s) : Quiet (pure a) s Q := fun _ _ => holds

section Look

variable {R : β → Stream → Prop}

theorem bind_pure {a : α} {f : α → Parser β} (next : Quiet (f a) s R) :
    Quiet (Pure.pure a >>= f) s R :=
  next

theorem bind_peek {f : Token → Parser β} (next : Quiet (f s.token) s R) :
    Quiet (peek >>= f) s R :=
  next

theorem bind_peekKind {f : TokenKind → Parser β} (next : Quiet (f s.token.kind) s R) :
    Quiet (peekKind >>= f) s R :=
  next

theorem bind_position {f : Position → Parser β} (next : Quiet (f s.token.pos) s R) :
    Quiet (position >>= f) s R :=
  next

end Look

theorem report {pos : Position} {problem : GrammarProblem} {Q : Unit → Stream → Prop} :
    Quiet (report pos problem) s Q := by
  intro _ none
  exact absurd none (List.cons_ne_nil _ _)

theorem missing {wanted : Wanted} {Q : Unit → Stream → Prop} : Quiet (missing wanted) s Q :=
  bind_peek report

theorem bind_missing {wanted : Wanted} {f : Unit → Parser β} {R : β → Stream → Prop} :
    Quiet (Parser.missing wanted >>= f) s R :=
  bind (P := fun _ _ => False) missing fun _ _ never => never.elim

theorem remark_parsedFunction {name : String} {params : Nat} {pos : Position} :
    Quiet (remark (.parsedFunction name params pos)) s fun _ r => r = s :=
  fun _ _ => rfl

theorem ite {c : Prop} [Decidable c] {q : Parser α} (yes : c → Quiet p s Q)
    (no : ¬ c → Quiet q s Q) : Quiet (if c then p else q) s Q := by
  split
  · next holds => exact yes holds
  · next fails => exact no fails

/-- Passing a token spells whatever is printed as that token. -/
theorem advance (more : s.token.kind ≠ .eof) :
    Quiet advance s fun _ r =>
      ∀ written : Written, written.Spells s.token → Spelled [written] s.upcoming r.upcoming := by
  intro _ _ written spells
  have front := Stream.upcoming_eq more
  have passed : (Parser.advance.run s).rest = s.tail := by simp [Parser.advance, front]
  rw [passed, front]
  exact .one spells

theorem advance_symbol {kind : TokenKind} (current : s.token.kind = kind)
    (fixed : kind.spelling?.isSome) :
    Quiet Parser.advance s fun _ r => Spelled [.symbol kind] s.upcoming r.upcoming := by
  have more : s.token.kind ≠ .eof := by
    intro isEnd
    rw [← current, isEnd] at fixed
    exact absurd fixed (by decide)
  refine of_exact fun exact => (advance more).mono fun _ r passes => ?_
  obtain ⟨text, spelling⟩ := Option.isSome_iff_exists.mp fixed
  subst current
  exact passes _ (Written.spells_symbol text spelling ((exact more).spelled text spelling))

theorem require {kind : TokenKind} (fixed : kind.spelling?.isSome) :
    Quiet (require kind) s fun _ r => Spelled [.symbol kind] s.upcoming r.upcoming := by
  refine bind_peekKind (ite (fun _ => ?_) fun same => ?_)
  · exact bind_missing
  · exact advance_symbol (not_not.mp same) fixed

theorem accept {kind : TokenKind} (fixed : kind.spelling?.isSome) :
    Quiet (accept kind) s fun taken r =>
      (taken = true ∧ s.token.kind = kind ∧ Spelled [.symbol kind] s.upcoming r.upcoming) ∨
        (taken = false ∧ s.token.kind ≠ kind ∧ r = s) := by
  refine bind_peekKind (ite (fun same => ?_) fun different => ?_)
  · exact bind (advance_symbol same fixed) fun _ _ passed => pure (.inl ⟨rfl, same, passed⟩)
  · exact pure (.inr ⟨rfl, different, rfl⟩)

theorem bind_report {pos : Position} {problem : GrammarProblem} {f : Unit → Parser β}
    {R : β → Stream → Prop} : Quiet (Parser.report pos problem >>= f) s R :=
  bind (P := fun _ _ => False) report fun _ _ never => never.elim

theorem bind_refuseDepth {f : Unit → Parser β} {R : β → Stream → Prop} :
    Quiet (refuseDepth >>= f) s R :=
  bind (P := fun _ _ => False) (bind_position bind_report) fun _ _ never => never.elim

end Quiet

end Parser

end MiniC
