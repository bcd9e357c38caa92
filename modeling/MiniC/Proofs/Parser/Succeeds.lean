import MiniC.Parser.Loop
import MiniC.Proofs.Parser.Quiet

/-!
What a parser does on tokens that it is meant to read. `Succeeds p s deep Q`
says that a run of `p` from `s` reports no problem of its own and ends with a
value and a rest that satisfy `Q`, or else that it reports the nesting to be
too deep and `deep` holds, which tells when that may be so.
-/

namespace MiniC

/-- The faults that are still to be met behind the current token. -/
def Stream.ahead (s : Stream) : List Diagnostic :=
  match s.upcoming with
  | [] => []
  | _ :: later => later.flatMap (·.faults) ++ s.endFaults

def Log.TooDeep (log : Log) : Prop := ∃ d ∈ log.raised, d.kind = .nestingTooDeep

theorem Log.TooDeep.left {log : Log} (tooDeep : log.TooDeep) (later : Log) :
    Log.TooDeep (log ++ later) := by
  obtain ⟨d, member, kind⟩ := tooDeep
  exact ⟨d, by rw [Log.raised_append]; exact List.mem_append_left _ member, kind⟩

theorem Log.TooDeep.right {log : Log} (tooDeep : log.TooDeep) (sooner : Log) :
    Log.TooDeep (sooner ++ log) := by
  obtain ⟨d, member, kind⟩ := tooDeep
  exact ⟨d, by rw [Log.raised_append]; exact List.mem_append_right _ member, kind⟩

namespace Parser

variable {α β σ : Type}

/-- The run reported just the faults that it met on its way. -/
def Clean (p : Parser α) (s : Stream) : Prop :=
  (p.run s).log.raised ++ (p.run s).rest.ahead = s.ahead

def Succeeds (p : Parser α) (s : Stream) (deep : Prop) (Q : α → Stream → Prop) : Prop :=
  (p.Clean s ∧ Q (p.run s).value (p.run s).rest) ∨ (deep ∧ (p.run s).log.TooDeep)

namespace Succeeds

variable {p : Parser α} {s : Stream} {deep : Prop} {P Q : α → Stream → Prop}

theorem mono (succeeds : Succeeds p s deep P) (weaker : ∀ a r, P a r → Q a r) :
    Succeeds p s deep Q :=
  succeeds.imp_left fun ⟨clean, holds⟩ => ⟨clean, weaker _ _ holds⟩

theorem weaken {deeper : Prop} (succeeds : Succeeds p s deeper Q) (deepens : deeper → deep) :
    Succeeds p s deep Q :=
  succeeds.imp_right fun ⟨isDeep, tooDeep⟩ => ⟨deepens isDeep, tooDeep⟩

theorem pure {a : α} (holds : Q a s) : Succeeds (pure a) s deep Q := .inl ⟨rfl, holds⟩

theorem bind {f : α → Parser β} {R : β → Stream → Prop} (first : Succeeds p s deep P)
    (next : ∀ a r, P a r → Succeeds (f a) r deep R) : Succeeds (p >>= f) s deep R := by
  rcases first with ⟨clean, holds⟩ | ⟨isDeep, tooDeep⟩
  · rcases next _ _ holds with ⟨cleanNext, final⟩ | ⟨isDeep, tooDeep⟩
    · refine .inl ⟨?_, final⟩
      change Log.raised (_ ++ _) ++ Stream.ahead _ = _
      rw [Log.raised_append, List.append_assoc]
      exact (congrArg _ cleanNext).trans clean
    · exact .inr ⟨isDeep, tooDeep.right _⟩
  · exact .inr ⟨isDeep, tooDeep.left _⟩

theorem map {f : α → β} {R : β → Stream → Prop} (succeeds : Succeeds p s deep fun a r => R (f a) r) :
    Succeeds (f <$> p) s deep R :=
  bind succeeds fun _ _ holds => pure holds

section Look

variable {R : β → Stream → Prop}

theorem bind_pure {a : α} {f : α → Parser β} (next : Succeeds (f a) s deep R) :
    Succeeds (Pure.pure a >>= f) s deep R :=
  bind (P := fun b r => b = a ∧ r = s) (pure ⟨rfl, rfl⟩) fun _ _ same => same.1 ▸ same.2 ▸ next

theorem bind_peek {f : Token → Parser β} (next : Succeeds (f s.token) s deep R) :
    Succeeds (peek >>= f) s deep R :=
  bind (P := fun b r => b = s.token ∧ r = s) (.inl ⟨rfl, rfl, rfl⟩)
    fun _ _ same => same.1 ▸ same.2 ▸ next

theorem bind_peekKind {f : TokenKind → Parser β} (next : Succeeds (f s.token.kind) s deep R) :
    Succeeds (peekKind >>= f) s deep R :=
  bind (P := fun b r => b = s.token.kind ∧ r = s) (.inl ⟨rfl, rfl, rfl⟩)
    fun _ _ same => same.1 ▸ same.2 ▸ next

theorem bind_position {f : Position → Parser β} (next : Succeeds (f s.token.pos) s deep R) :
    Succeeds (position >>= f) s deep R :=
  bind (P := fun b r => b = s.token.pos ∧ r = s) (.inl ⟨rfl, rfl, rfl⟩)
    fun _ _ same => same.1 ▸ same.2 ▸ next

end Look

section Tokens

variable {kind : TokenKind} {written : Written} {text : List Written} {rest : List Lexeme}

theorem advance (spelled : Spelled (written :: text) s.upcoming rest) :
    Succeeds advance s deep fun _ r => Spelled text r.upcoming rest := by
  generalize same : s.upcoming = from_ at spelled
  cases spelled with
  | @cons _ _ lexeme later _ _ spelled =>
    have run : Parser.advance.run s = ⟨(), s.tail, s.tail.arrival⟩ := by
      simp [Parser.advance, same]
    have tail : s.tail.upcoming = later := by
      change s.upcoming.tail = later
      rw [same, List.tail_cons]
    refine .inl ⟨?_, ?_⟩
    · unfold Clean
      rw [run]
      have arrives : Log.raised s.tail.arrival = s.tail.current.faults := by
        simp [Stream.arrival, Log.raised, List.filterMap_append, Event.diagnostic?,
          List.filterMap_map, Function.comp_def]
      change Log.raised s.tail.arrival ++ s.tail.ahead = s.ahead
      rw [arrives]
      cases later with
      | nil => simp [Stream.ahead, Stream.current, Stream.ending, tail, same]; rfl
      | cons => simp [Stream.ahead, Stream.current, tail, same]; rfl
    · rw [run]
      change Spelled text s.tail.upcoming rest
      rwa [tail]

theorem token_spells (spelled : Spelled (written :: text) s.upcoming rest) :
    written.Spells s.token := by
  generalize same : s.upcoming = from_ at spelled
  cases spelled with
  | cons spells _ =>
    unfold Stream.token Stream.current
    rw [same]
    exact spells

theorem require (spelled : Spelled (.symbol kind :: text) s.upcoming rest) :
    Succeeds (require kind) s deep fun _ r => Spelled text r.upcoming rest := by
  have current : s.token.kind = kind := (token_spells spelled).1
  refine bind_peekKind ?_
  simp only [current, ne_eq, not_true_eq_false, if_false]
  exact advance spelled

theorem accept (spelled : Spelled (.symbol kind :: text) s.upcoming rest) :
    Succeeds (accept kind) s deep fun taken r => taken = true ∧ Spelled text r.upcoming rest := by
  have current : s.token.kind = kind := (token_spells spelled).1
  refine bind_peekKind ?_
  rw [if_pos current]
  exact bind (advance spelled) fun _ _ passed => pure ⟨rfl, passed⟩

theorem accept_other (other : s.token.kind ≠ kind) :
    Succeeds (Parser.accept kind) s deep fun taken r => taken = false ∧ r = s := by
  refine bind_peekKind ?_
  rw [if_neg other]
  exact pure ⟨rfl, rfl⟩

end Tokens

theorem remark_parsedFunction {name : String} {params : Nat} {pos : Position} :
    Succeeds (remark (.parsedFunction name params pos)) s deep fun _ r => r = s :=
  .inl ⟨rfl, rfl⟩

theorem remark_parsedFile {name : String} {decls lines : Nat} :
    Succeeds (remark (.parsedFile name decls lines)) s deep fun _ r => r = s :=
  .inl ⟨rfl, rfl⟩

theorem refuseDepth {f : Unit → Parser β} {R : β → Stream → Prop} (isDeep : deep) :
    Succeeds (refuseDepth >>= f) s deep R := by
  refine .inr ⟨isDeep, .left ?_ _⟩
  exact ⟨_, List.mem_cons_self, rfl⟩

end Succeeds

/-- The parser reads a text, in front of any token that may follow it, and gets
a good value. -/
def Reads (p : Parser α) (text : List Written) (follow : TokenKind → Prop) (deep : Prop)
    (good : α → Prop) : Prop :=
  ∀ s rest, Spelled text s.upcoming rest → follow (frontKind rest) →
    Succeeds p s deep fun a r => good a ∧ r.upcoming = rest

namespace Reads

variable {p : Parser α} {s : Stream} {deep : Prop} {text later : List Written}
  {follow : TokenKind → Prop} {good : α → Prop} {rest : List Lexeme} {R : β → Stream → Prop}

theorem weaken {deeper : Prop} (reads : Reads p text follow deeper good)
    (deepens : deeper → deep) : Reads p text follow deep good :=
  fun s rest spelled follows => (reads s rest spelled follows).weaken deepens

/-- Reads the front part of a text. -/
theorem before (reads : Reads p text follow deep good)
    (spelled : Spelled (text ++ later) s.upcoming rest)
    (follows : ∀ middle, Spelled later middle rest → follow (frontKind middle)) :
    Succeeds p s deep fun a r => good a ∧ Spelled later r.upcoming rest := by
  obtain ⟨middle, sooner, later⟩ := spelled.split
  refine (reads s middle sooner (follows middle later)).mono fun a r read => ?_
  exact ⟨read.1, read.2 ▸ later⟩

/-- Reads the front part of a text whose next token is known. -/
theorem beforeToken {written : Written} (reads : Reads p text follow deep good)
    (spelled : Spelled (text ++ written :: later) s.upcoming rest) (follows : follow written.kind) :
    Succeeds p s deep fun a r => good a ∧ Spelled (written :: later) r.upcoming rest :=
  reads.before spelled fun _ after => after.frontKind_eq ▸ follows

end Reads

end Parser

end MiniC
