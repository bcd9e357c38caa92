import MiniC.Parser.Basic
import MiniC.Proofs.Syntax.Printed
import Mathlib.Data.List.Forall2

/-!
Printed tokens against the tokens of a source. `Spelled` says that the tokens
between a place of the source and a later one are just those that are printed.
-/

namespace MiniC

inductive Spelled : List Written → List Lexeme → List Lexeme → Prop where
  | nil (rest : List Lexeme) : Spelled [] rest rest
  | cons {written : Written} {text : List Written} {lexeme : Lexeme} {later rest : List Lexeme} :
      written.Spells lexeme.token → Spelled text later rest →
        Spelled (written :: text) (lexeme :: later) rest

namespace Spelled

variable {text more : List Written} {from_ middle rest : List Lexeme}

theorem append (sooner : Spelled text from_ middle) (later : Spelled more middle rest) :
    Spelled (text ++ more) from_ rest := by
  induction sooner with
  | nil => exact later
  | cons spells _ ih => exact .cons spells (ih later)

theorem split (whole : Spelled (text ++ more) from_ rest) :
    ∃ middle, Spelled text from_ middle ∧ Spelled more middle rest := by
  induction text generalizing from_ with
  | nil => exact ⟨from_, .nil _, whole⟩
  | cons written text ih =>
    cases whole with
    | cons spells whole =>
      obtain ⟨middle, sooner, later⟩ := ih whole
      exact ⟨middle, .cons spells sooner, later⟩

theorem one {written : Written} {lexeme : Lexeme} (spells : written.Spells lexeme.token) :
    Spelled [written] (lexeme :: rest) rest :=
  .cons spells (.nil rest)

theorem length_eq (spelled : Spelled text from_ rest) :
    from_.length = text.length + rest.length := by
  induction spelled with
  | nil => simp
  | cons _ _ ih => simp [ih]; omega

theorem forall₂_iff : Spelled text from_ [] ↔
    List.Forall₂ Written.Spells text (from_.map (·.token)) := by
  constructor
  · intro spelled
    generalize isEnd : ([] : List Lexeme) = stop at spelled
    induction spelled with
    | nil => subst isEnd; exact .nil
    | cons spells _ ih => exact .cons spells (ih isEnd)
  · intro related
    induction text generalizing from_ with
    | nil =>
      cases from_ with
      | nil => exact .nil []
      | cons => cases related
    | cons written text ih =>
      cases from_ with
      | nil => cases related
      | cons lexeme later =>
        cases related with
        | cons spells related => exact .cons spells (ih related)

end Spelled

/-- The kind of the first token, or of the end. -/
def frontKind : List Lexeme → TokenKind
  | [] => .eof
  | lexeme :: _ => lexeme.token.kind

namespace Written

def kind : Written → TokenKind
  | .symbol kind | .exact kind _ => kind
  | .size _ => .intLit

theorem Spells.kind_eq {written : Written} {token : Token} (spells : written.Spells token) :
    token.kind = written.kind := by
  cases written with
  | symbol | exact => exact spells.1
  | size => exact spells.1

theorem spells_symbol {token : Token} (text : String) (spelled : token.kind.spelling? = some text)
    (same : token.text = text) : (symbol token.kind).Spells token :=
  ⟨rfl, same ▸ spelled⟩

theorem Spells.name {token : Token} {text : String} (spells : (Written.name text).Spells token) :
    (token.kind = .ident ∨ token.kind = .mainKw) ∧ token.text = text := by
  unfold Written.name at spells
  split at spells
  · next isMain =>
    have spelling := Option.some.inj spells.2
    exact ⟨.inr spells.1, isMain ▸ spelling.symm⟩
  · exact ⟨.inl spells.1, spells.2⟩

end Written

theorem Spelled.frontKind_eq {written : Written} {text : List Written} {from_ rest : List Lexeme}
    (spelled : Spelled (written :: text) from_ rest) : frontKind from_ = written.kind := by
  cases spelled with
  | cons spells _ => exact spells.kind_eq

namespace Stream

theorem token_kind (stream : Stream) : stream.token.kind = frontKind stream.upcoming := by
  unfold token current
  cases stream.upcoming <;> rfl

/-- A stream whose current token is not the end starts with that token. -/
theorem upcoming_eq {stream : Stream} (more : stream.token.kind ≠ .eof) :
    stream.upcoming = stream.current :: stream.tail.upcoming := by
  unfold token current at more
  change stream.upcoming = stream.upcoming.headD stream.ending :: stream.upcoming.tail
  cases same : stream.upcoming with
  | nil => simp [same, ending] at more
  | cons lexeme later => rfl

theorem remaining_pos {stream : Stream} (more : stream.token.kind ≠ .eof) :
    0 < stream.remaining := by
  rw [stream.remaining_eq, upcoming_eq more]
  exact Nat.succ_pos _

end Stream

/-- Less is left behind the first part of a text, if there is something in it. -/
theorem Spelled.remaining_lt {s r : Stream} {written : Written} {text later : List Written}
    {rest : List Lexeme} (whole : Spelled (written :: text ++ later) s.upcoming rest)
    (behind : Spelled later r.upcoming rest) : r.remaining < s.remaining := by
  rw [s.remaining_eq, r.remaining_eq, whole.length_eq, behind.length_eq, List.length_append,
    List.length_cons]
  omega

end MiniC
