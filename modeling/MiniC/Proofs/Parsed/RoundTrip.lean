import MiniC.Compilation
import MiniC.Proofs.Stmt.Complete
import MiniC.Proofs.Stmt.Sound

/-!
From a file to its tokens and back. A source whose tokens are those that a
grammatical file is written with is read to the same file up to positions: white
space, comments and the digits of array sizes are free. Only a nesting that is
too deep for the parser stands in the way, and that is reported.

A source that is read without any problem has been read to its last token, and
the file keeps all of it but white space, comments and the digits of array
sizes: printed again, the file gives the tokens of the source. So nothing in it
stands in for something that was missing.
-/

namespace MiniC

theorem Stream.faults_eq (stream : Stream) :
    stream.current.faults ++ stream.ahead =
      stream.upcoming.flatMap (·.faults) ++ stream.endFaults := by
  unfold Stream.ahead Stream.current Stream.ending
  cases stream.upcoming <;> simp

theorem parse_printed (name source : String) (file : File) (grammatical : file.Grammatical)
    (spelled : List.Forall₂ Written.Spells file.printed
      ((Scanned.ofSource name source).lexemes.map (·.token))) :
    ((parse name source).file.decls.map Decl.bare = file.decls.map Decl.bare ∧
      (parse name source).log.raised = (Scanned.ofSource name source).faults) ∨
    (maxNesting < file.levels ∧ (parse name source).log.TooDeep) := by
  let scanned := Scanned.ofSource name source
  let stream := Stream.ofScanned scanned
  have spelled : Spelled file.printed stream.upcoming [] := Spelled.forall₂_iff.mpr spelled
  rcases fileParser_complete name scanned.lineCount file grammatical stream spelled with
    ⟨clean, same, ended⟩ | ⟨isDeep, tooDeep⟩
  · refine .inl ⟨same, ?_⟩
    have nothing : Stream.ahead ((fileParser name scanned.lineCount).run stream).rest = [] := by
      rw [Stream.ahead, ended]
    rw [Parser.Clean, nothing, List.append_nil] at clean
    change Log.raised (stream.arrival ++ _) = _
    rw [Log.raised_append, stream.raised_arrival, clean, stream.faults_eq]
    simp [stream, scanned, Stream.ofScanned, Scanned.faults, Scanned.all]
  · exact .inr ⟨isDeep, tooDeep.right _⟩

namespace RoundTrip

open Position (unknown)

/-- A small file, as a tree without places. -/
def sample : File where
  name := "sample.c"
  decls :=
    [.vars unknown
      { isConst := true
        base := .int
        basePos := unknown
        declarators := [⟨⟨"a", unknown⟩, [2], some (.composite unknown
          [.lit unknown .int "1", .unary unknown .minus (.lit unknown .char "'x'")])⟩] },
     .func unknown
      { returns := .int
        returnsPos := unknown
        name := ⟨"main", unknown⟩
        params := ⟨unknown, []⟩
        bodyPos := unknown
        body :=
          [.branch unknown (.ident unknown "a")
            (.ret unknown (some (.binary unknown .sub
              (.binary unknown .sub (.lit unknown .int "1") (.lit unknown .int "2"))
              (.index unknown (.ident unknown "a") (.lit unknown .int "0")))))
            (some (.empty unknown))] }]

def sampleSource : String :=
  "const int a[02] = \x7b1, -'x'\x7d; int main() \x7b if (a) return 1 - 2 - a[0]; else ; \x7d"

theorem sample_grammatical : sample.Grammatical := by
  refine List.forall_mem_cons.mpr ⟨⟨.inl rfl, nofun, ?_⟩, List.forall_mem_singleton.mpr
    ⟨.inl rfl, nofun, ?_⟩⟩
  · refine List.forall_mem_singleton.mpr ⟨by decide, ?_⟩
    simp [Expr.IsInitializer, Expr.AllItems, Expr.IsItem, Expr.IsSignable]
  · simp [Stmt.AllGrammatical, Stmt.Grammatical, Stmt.dangles, Expr.Grammatical, Expr.IsPrimary,
      Expr.tightness, BinOp.precedence]

end RoundTrip

open RoundTrip in
theorem parse_printed_sample :
    sample.Grammatical ∧ List.Forall₂ Written.Spells sample.printed
      ((Scanned.ofSource "sample.c" sampleSource).lexemes.map (·.token)) ∧
    (parse "sample.c" sampleSource).file.decls.map Decl.bare = sample.decls.map Decl.bare := by
  have spelled : List.Forall₂ Written.Spells sample.printed
      ((Scanned.ofSource "sample.c" sampleSource).lexemes.map (·.token)) := by decide +kernel
  refine ⟨sample_grammatical, spelled, ?_⟩
  rcases parse_printed "sample.c" sampleSource sample sample_grammatical spelled with
    ⟨same, _⟩ | ⟨deep, _⟩
  · exact same
  · exact absurd deep (by decide)

theorem parse_silent_spelled (name source : String)
    (silent : (parse name source).log.raised = []) :
    (parse name source).file.Grammatical ∧
      Spelled (parse name source).file.printed (Scanned.ofSource name source).lexemes [] := by
  let scanned := Scanned.ofSource name source
  let stream := Stream.ofScanned scanned
  have parts : Log.raised (stream.arrival ++
      ((fileParser name scanned.lineCount).run stream).log) = [] := silent
  rw [Log.raised_append, List.append_eq_nil_iff] at parts
  exact fileParser_sound name scanned.lineCount stream (Scanned.ofSource_exact name source) parts.2

/-- A name that is printed is the text of a name or of `main` in the source. -/
theorem exists_token_of_name {text : List Written} {lexemes rest : List Lexeme} {name : String}
    (spelled : Spelled text lexemes rest) (member : .name name ∈ text) :
    ∃ lexeme ∈ lexemes, (lexeme.token.kind = .ident ∨ lexeme.token.kind = .mainKw) ∧
      lexeme.token.text = name := by
  induction spelled with
  | nil => cases member
  | @cons written text lexeme later rest spells _ ih =>
    rcases List.mem_cons.mp member with isFirst | isLater
    · rw [← isFirst] at spells
      exact ⟨lexeme, List.mem_cons_self, spells.name⟩
    · obtain ⟨found, member, isName⟩ := ih isLater
      exact ⟨found, List.mem_cons_of_mem lexeme member, isName⟩

theorem parse_silent_lossless (name source : String)
    (silent : (parse name source).log.raised = []) :
    (parse name source).file.Grammatical ∧
      List.Forall₂ Written.Spells (parse name source).file.printed
        ((Scanned.ofSource name source).lexemes.map (·.token)) ∧
      ∀ text, .name text ∈ (parse name source).file.printed →
        ∃ lexeme ∈ (Scanned.ofSource name source).lexemes,
          (lexeme.token.kind = .ident ∨ lexeme.token.kind = .mainKw) ∧
            lexeme.token.text = text := by
  obtain ⟨grammatical, spelled⟩ := parse_silent_spelled name source silent
  exact ⟨grammatical, Spelled.forall₂_iff.mp spelled,
    fun _ member => exists_token_of_name spelled member⟩

namespace Lossless

def sumSource : String :=
  "char c[1] = \x7b'a'\x7d; int main() \x7b int s = 0; for (; s < 3; s = s + 1) ; return s; \x7d"

end Lossless

open Lossless in
theorem parse_silent_lossless_sum :
    (parse "sum.c" sumSource).log.raised = [] ∧ (parse "sum.c" sumSource).file.Grammatical := by
  have silent : (parse "sum.c" sumSource).log.raised = [] := by with_unfolding_all rfl
  exact ⟨silent, (parse_silent_lossless "sum.c" sumSource silent).1⟩

end MiniC
