import MiniC.Proofs.Parsed.RoundTrip
import MiniC.Proofs.Stmt.Limited

/-!
Reading a source that follows the grammar but nests too deep. Where each
statement that is cut short is left at a token which the statement around it
goes on with, the limit is all that is reported, and the declarations that keep
to it are read as they stand.
-/

namespace MiniC

open MiniC.Parser

/-- A declaration that is within the limit is read as it is, and any other one
to its end. -/
def KeepsShallow (given found : Decl) : Prop :=
  given.levels ≤ maxNesting → found.bare = given.bare

theorem function_limited {stmt : Parser Stmt} (skipping : SkippingStmt stmt maxNesting)
    (f : FuncDecl) (grammatical : f.Grammatical)
    (recovers : Stmt.InStep maxNesting f.body ∧ ∀ t ∈ f.body, t.Recovers maxNesting)
    (returnsPos : Position) (name : Name) {s : Stream} {rest : List Lexeme}
    (spelled : Spelled (.symbol .lParen :: Written.commas (f.params.params.map Param.printed) ++
      .symbol .rParen :: .symbol .lBrace :: Stmt.printedAll f.body ++ [.symbol .rBrace])
      s.upcoming rest) :
    Limited (function stmt f.returns returnsPos name) s fun _ r => r.upcoming = rest := by
  have sound : Stmt.Sound maxNesting f.body [] :=
    { grammatical := (Stmt.allGrammatical_iff f.body).mp grammatical.body
      areClauses := nofun
      recovers := by simpa [Stmt.bodies] using recovers.2
      inStep := by simpa [Stmt.bodies] using recovers.1 }
  rw [List.append_assoc] at spelled
  refine Limited.bind (parameterList_complete _ grammatical.params spelled).limited ?_
  rintro params _ ⟨_, spelled⟩
  refine Limited.bind_position (Limited.bind (braced_limited skipping sound spelled) ?_)
  rintro body r ⟨_, ended⟩
  refine Limited.bind Succeeds.remark_parsedFunction.limited ?_
  rintro _ _ rfl
  exact Limited.pure ended.eq_of_nil

theorem declaration_func_limited {expr : Parser Expr} {stmt : Parser Stmt}
    (skipping : SkippingStmt stmt maxNesting) (f : FuncDecl) (grammatical : f.Grammatical)
    (recovers : Stmt.InStep maxNesting f.body ∧ ∀ t ∈ f.body, t.Recovers maxNesting)
    {s : Stream} {rest : List Lexeme} (spelled : Spelled f.printed s.upcoming rest) :
    Limited (declaration expr stmt true) s fun _ r => r.upcoming = rest := by
  refine Limited.bind_position (Limited.bind (constFlag_complete false spelled).limited ?_)
  rintro _ start ⟨rfl, spelled⟩
  have isBase : start.token.kind.baseType? = some f.returns := by
    rw [(Succeeds.token_spells spelled).1]
    exact Ty.keyword_baseType? grammatical.returns
  refine Limited.bind_peek ?_
  simp only [isBase]
  refine Limited.bind (Succeeds.advance spelled).limited fun _ _ spelled => ?_
  refine Limited.bind (identifier_complete spelled).limited fun name next read => ?_
  refine Limited.bind_peekKind ?_
  rw [if_pos (Succeeds.token_spells read.2).1]
  exact Limited.bind (function_limited skipping f grammatical recovers _ name read.2)
    fun _ _ ended => Limited.pure ended

theorem topLevelDecl_limited (decl : Decl) (grammatical : decl.Grammatical)
    (recovers : decl.Recovers) {s : Stream} {rest : List Lexeme}
    (spelled : Spelled decl.printed s.upcoming rest) :
    Limited topLevelDecl s fun found r => KeepsShallow decl found ∧ r.upcoming = rest := by
  by_cases shallow : decl.levels ≤ maxNesting
  · have read := topLevelDecl_complete decl grammatical (fun _ => True) s rest spelled trivial
    exact (read.weaken (Nat.not_lt.mpr shallow)).limited.mono fun _ _ ⟨same, ended⟩ =>
      ⟨fun _ => same, ended⟩
  · have ends : Limited topLevelDecl s fun _ r => r.upcoming = rest := by
      cases decl with
      | bad => exact grammatical.elim
      | func pos f =>
        exact declaration_func_limited (statement_limited _) f grammatical recovers spelled
      | vars pos v =>
        exact declaration_vars_limited (expression_limited _) v grammatical true spelled
    exact ends.mono fun _ _ ended => ⟨fun within => absurd within shallow, ended⟩

/-- Each declaration of a file is read to its end. -/
theorem decls_limited (decls : List Decl) (grammatical : ∀ decl ∈ decls, decl.Grammatical)
    (recovers : ∀ decl ∈ decls, decl.Recovers) (s : Stream)
    (spelled : Spelled (decls.flatMap Decl.printed) s.upcoming []) :
    Limited (manyWhile (fun _ => true) topLevelDecl) s fun found _ =>
      List.Forall₂ KeepsShallow decls found := by
  induction decls generalizing s with
  | nil =>
    have ended : s.upcoming = [] := List.length_eq_zero_iff.mp spelled.length_eq
    exact (Succeeds.manyWhile_stop (by simp [takes, s.remaining_eq, ended]) .nil).limited
  | cons decl later ih =>
    obtain ⟨good, others⟩ := List.forall_mem_cons.mp grammatical
    obtain ⟨first, recoversLater⟩ := List.forall_mem_cons.mp recovers
    obtain ⟨written, text, shape, present⟩ := Decl.printed_starts good
    rw [List.flatMap_cons] at spelled
    have front : s.token.kind = written.kind := by
      rw [shape] at spelled
      exact s.token_kind ▸ spelled.frontKind_eq
    have taken : takes (fun _ => true) s = true := takes_of_kind (front ▸ present) rfl
    obtain ⟨middle, own, behind⟩ := spelled.split
    have read := topLevelDecl_limited decl good first own
    refine Limited.manyWhile_step taken
      (Limited.moving_of_shortens (topLevelDecl_advances s taken) read) ?_
    rintro found r ⟨keeps, rfl⟩
    exact (ih others recoversLater r behind).mono fun _ _ kept => .cons keeps kept

/-- Only the limit is reported for a source that follows the grammar, if the
reading recovers from each statement that is too deep. -/
theorem parse_recovers (name source : String) (file : File) (grammatical : file.Grammatical)
    (spelled : List.Forall₂ Written.Spells file.printed
      ((Scanned.ofSource name source).lexemes.map (·.token)))
    (faultless : (Scanned.ofSource name source).faults = []) (recovers : file.Recovers) :
    (∀ d ∈ (parse name source).log.raised, d.kind = .nestingTooDeep) ∧
      List.Forall₂ KeepsShallow file.decls (parse name source).file.decls := by
  let scanned := Scanned.ofSource name source
  let stream := Stream.ofScanned scanned
  have spelled : Spelled file.printed stream.upcoming [] := Spelled.forall₂_iff.mpr spelled
  have faults : stream.current.faults ++ stream.ahead = [] := by
    rw [stream.faults_eq]
    simpa [stream, scanned, Stream.ofScanned, Scanned.faults, Scanned.all] using faultless
  obtain ⟨arrives, ahead⟩ := List.append_eq_nil_iff.mp faults
  have read : Limited (fileParser name scanned.lineCount) stream fun found _ =>
      List.Forall₂ KeepsShallow file.decls found.decls := by
    refine Limited.bind (decls_limited file.decls grammatical recovers stream spelled)
      fun found r kept => ?_
    refine Limited.bind Succeeds.remark_parsedFile.limited ?_
    rintro _ _ rfl
    exact Limited.pure kept
  obtain ⟨onlyTooDeep, kept⟩ := read ahead
  refine ⟨fun d member => ?_, kept⟩
  change d ∈ Log.raised (stream.arrival ++ _) at member
  rw [Log.raised_append, stream.raised_arrival, arrives] at member
  exact onlyTooDeep d member

namespace Recovery

open Position (unknown)
open Stmt (InStep)

/-- Statements in braces within braces. -/
def inBraces : Nat → List Stmt → List Stmt
  | 0, body => body
  | depth + 1, body => [.block unknown (inBraces depth body)]

theorem inBraces_grammatical (depth : Nat) {body : List Stmt}
    (grammatical : Stmt.AllGrammatical body) : Stmt.AllGrammatical (inBraces depth body) := by
  induction depth with
  | zero => exact grammatical
  | succ depth ih => exact ⟨ih, trivial⟩

theorem inBraces_recovers (depth : Nat) {levels : Nat} {body : List Stmt}
    (recovers : InStep levels body ∧ ∀ t ∈ body, t.Recovers levels) :
    InStep (levels + depth) (inBraces depth body) ∧
      ∀ t ∈ inBraces depth body, t.Recovers (levels + depth) := by
  induction depth with
  | zero => exact recovers
  | succ depth ih =>
    exact ⟨.inr (List.forall_mem_singleton.mpr trivial), List.forall_mem_singleton.mpr ih⟩

def intVariable (name : String) : VarDecl :=
  ⟨false, .int, unknown, [⟨⟨name, unknown⟩, [], none⟩]⟩

/-- A function with statements on the last level, and a variable behind it. -/
def sample (body : List Stmt) : File where
  name := "t.c"
  decls :=
    [.func unknown
      { returns := .void
        returnsPos := unknown
        name := ⟨"main", unknown⟩
        params := ⟨unknown, []⟩
        bodyPos := unknown
        body := .decl unknown (some (intVariable "a")) :: inBraces 99 body },
     .vars unknown (intVariable "b")]

def sampleSource (text : String) : String :=
  "void main() \x7b int a; " ++ String.ofList (List.replicate 99 '\x7b') ++ text ++
    String.ofList (List.replicate 99 '\x7d') ++ " \x7d int b;"

theorem intVariable_grammatical (name : String) : (intVariable name).Grammatical :=
  ⟨.inl rfl, nofun, List.forall_mem_singleton.mpr ⟨nofun, nofun⟩⟩

theorem sample_grammatical {body : List Stmt} (grammatical : Stmt.AllGrammatical body) :
    (sample body).Grammatical :=
  List.forall_mem_cons.mpr
    ⟨⟨.inr (.inr rfl), nofun, intVariable_grammatical "a", inBraces_grammatical 99 grammatical⟩,
      List.forall_mem_singleton.mpr (intVariable_grammatical "b")⟩

theorem sample_recovers {body : List Stmt}
    (recovers : InStep 1 body ∧ ∀ t ∈ body, t.Recovers 1) : (sample body).Recovers := by
  obtain ⟨_, inside⟩ := inBraces_recovers 99 recovers
  refine List.forall_mem_cons.mpr ⟨⟨.inr ?_, ?_⟩, List.forall_mem_singleton.mpr trivial⟩
  · exact List.forall_mem_cons.mpr ⟨trivial, List.forall_mem_singleton.mpr trivial⟩
  · exact List.forall_mem_cons.mpr ⟨trivial, inside⟩

def less (value : String) : Expr :=
  .binary unknown .lt (.ident unknown "a") (.lit unknown .int value)

def assigned (value : String) : Stmt :=
  .simple (.assign unknown (.ident unknown "a") (.lit unknown .int value))

/-- A loop that holds an `if`, with an `else` behind a brace, and a statement
behind the loop. -/
def behindBrace : List Stmt :=
  [.whileLoop unknown (less "1") (.branch unknown (less "2") (.block unknown [assigned "1"])
    (some (.block unknown [assigned "2"]))), assigned "3"]

def behindBraceSource : String :=
  sampleSource "while (a < 1) if (a < 2) \x7b a = 1; \x7d else \x7b a = 2; \x7d a = 3;"

/-- An `if` with an `else` behind a semicolon. -/
def behindSemicolon : List Stmt :=
  [.branch unknown (less "1") (assigned "1") (some (assigned "2"))]

def behindSemicolonSource : String := sampleSource "if (a < 1) a = 1; else a = 2;"

end Recovery

open Recovery in
theorem parse_recovers_behindBrace :
    (parse "t.c" behindBraceSource).log.TooDeep ∧
      (∀ d ∈ (parse "t.c" behindBraceSource).log.raised, d.kind = .nestingTooDeep) ∧
      List.Forall₂ KeepsShallow (sample behindBrace).decls
        (parse "t.c" behindBraceSource).file.decls := by
  have grammatical : Stmt.AllGrammatical behindBrace := by
    simp [behindBrace, less, assigned, Stmt.AllGrammatical, Stmt.Grammatical, Stmt.dangles,
      Simple.Grammatical, Expr.Grammatical, Expr.tightness, BinOp.precedence]
  have recovers : Stmt.InStep 1 behindBrace ∧ ∀ t ∈ behindBrace, t.Recovers 1 := by
    simp [behindBrace, assigned, Stmt.InStep, Stmt.ElseBehindBrace, Stmt.endsInSemicolon,
      Stmt.Recovers]
  have read : List.Forall₂ Written.Spells (sample behindBrace).printed
        ((Scanned.ofSource "t.c" behindBraceSource).lexemes.map (·.token)) ∧
      (Scanned.ofSource "t.c" behindBraceSource).faults = [] ∧
      ∃ d ∈ (parse "t.c" behindBraceSource).log.raised, d.kind = .nestingTooDeep := by
    decide +kernel
  obtain ⟨spelled, faultless, tooDeep⟩ := read
  exact ⟨tooDeep, parse_recovers "t.c" behindBraceSource (sample behindBrace)
    (sample_grammatical grammatical) spelled faultless (sample_recovers recovers)⟩

open Recovery in
/-- Skipping ends at the semicolon in front of the `else`, where no statement
goes on. -/
theorem elseBehindSemicolon_reported :
    (sample behindSemicolon).Grammatical ∧
      List.Forall₂ Written.Spells (sample behindSemicolon).printed
        ((Scanned.ofSource "t.c" behindSemicolonSource).lexemes.map (·.token)) ∧
      (Scanned.ofSource "t.c" behindSemicolonSource).faults = [] ∧
      ¬ ∀ d ∈ (parse "t.c" behindSemicolonSource).log.raised, d.kind = .nestingTooDeep := by
  refine ⟨sample_grammatical ?_, by decide +kernel⟩
  simp [behindSemicolon, less, assigned, Stmt.AllGrammatical, Stmt.Grammatical, Stmt.dangles,
    Simple.Grammatical, Expr.Grammatical, Expr.tightness, BinOp.precedence]

end MiniC
