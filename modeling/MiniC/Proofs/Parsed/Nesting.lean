import MiniC.Proofs.Stmt.Nested
import MiniC.Proofs.Expr.CheckHeight
import MiniC.Proofs.Expr.Frames
import MiniC.Proofs.Stmt.Complete
import MiniC.Proofs.Stmt.Expressions
import MiniC.Proofs.Token.Spaced

/-!
What the nesting limit bounds. A reading that reports no excess has stayed
within the levels, but that bounds the height of the tree by the square of the
limit only: the left operand of an operator is read on the level of its chain,
and what it nested is forgotten when the operators are counted.

The same limit bounds the check of an expression as long as it holds only so many
calls behind one another. It does not bound these calls: each is read on the
level of the one in front of it, and each is one call of the check more.
-/

namespace MiniC

theorem triangle_eq (n : Nat) : 2 * triangle n = n * (n + 1) := by
  induction n with
  | zero => rfl
  | succ n ih =>
    rw [triangle, Nat.mul_add, ih, ← Nat.add_mul, Nat.mul_comm]

/-- If the nesting is not reported, no tree takes more levels than there are, where
an operator is a level to its right only and clauses and header statements are
none. Where all of these count everywhere, the trees are still no higher than
what the levels sum up to. -/
theorem nesting_within_levels (name source : String)
    (unreported : ¬ (parse name source).log.TooDeep) :
    (parse name source).file.levels ≤ maxNesting ∧
      2 * (parse name source).file.height ≤ maxNesting * (maxNesting + 1) + 2 := by
  let scanned := Scanned.ofSource name source
  rcases fileParser_nests name scanned.lineCount (Stream.ofScanned scanned) with
    tooDeep | ⟨levels, height⟩
  · exact absurd (tooDeep.right _) unreported
  · constructor
    · exact levels
    · rw [← triangle_eq]
      exact Nat.mul_le_mul_left 2 height

/-- A sum whose first operand has many signs. -/
def signedSum : String :=
  "int a = " ++ String.ofList (List.replicate 60 '-') ++ "1" ++
    String.join (List.replicate 41 "+1") ++ "; void main() \x7b\x7d"

theorem signedSum_read :
    (parse "t.c" signedSum).log.raised = [] ∧
      maxNesting < (parse "t.c" signedSum).file.height := by decide +kernel

theorem signedSum_unreported : ¬ (parse "t.c" signedSum).log.TooDeep := by
  rintro ⟨d, member, _⟩
  rw [signedSum_read.1] at member
  cases member

theorem nesting_within_levels_signedSum :
    ¬ (parse "t.c" signedSum).log.TooDeep ∧ (parse "t.c" signedSum).file.levels ≤ maxNesting :=
  ⟨signedSum_unreported, (nesting_within_levels "t.c" signedSum signedSum_unreported).1⟩

/-- The signs and the operators stand on one way down, and are more than the
limit; nothing is reported. -/
theorem signedSum_exceeds_nesting :
    ¬ (parse "t.c" signedSum).log.TooDeep ∧
      maxNesting < (parse "t.c" signedSum).file.height :=
  ⟨signedSum_unreported, signedSum_read.2⟩

section

open Position (unknown)

/-- Every call behind another one counts, and nothing else is without bound: with
so many calls at most, the check does not go deeper than the limit for them, and
finds all that it finds when it goes no deeper than that. -/
theorem checkHeight_le_of_calls (name source : String) (calls : Nat) :
    ∀ e ∈ (parse name source).file.exprs, e.CallsWithin calls → ∀ part ∈ e.parts,
      part.calls ≤ part.checkHeight ∧ part.checkHeight ≤ checkLimit calls maxNesting ∧
        ∀ scope, part.typeWithin scope (checkLimit calls maxNesting + 1) = part.type scope := by
  have exprs (n : Nat) (few : n ≤ maxNesting) :
      Parser.Gives (expression n) (Expr.CheckedWithin calls (checkLimit calls maxNesting)) :=
    fun s => (expression_checked calls n s).mono (checkLimit_mono few)
  have literals : Parser.Gives compositeLiteral
      (Expr.CheckedWithin calls (checkLimit calls maxNesting)) := by
    intro s _
    exact Nat.le_trans (compositeLiteral_checked s) (checkLimit_pos calls maxNesting)
  intro e member few part isPart
  have whole := parse_exprs literals exprs name source e member few
  have height := Nat.le_trans (e.checkHeight_le_of_mem_parts part isPart) whole
  exact ⟨part.calls_le_checkHeight, height, fun _ => Expr.typeWithin_eq (Nat.lt_succ_of_le height)⟩

def suffixedSource : String := "int a = -(f(1, g()))[2][3](4)(); void main() \x7b\x7d"

theorem checkHeight_le_of_calls_suffixed :
    ∃ e ∈ (parse "t.c" suffixedSource).file.exprs, e.CallsWithin 2 ∧ ∀ part ∈ e.parts,
      part.calls ≤ part.checkHeight ∧ part.checkHeight ≤ checkLimit 2 maxNesting ∧
        ∀ scope, part.typeWithin scope (checkLimit 2 maxNesting + 1) = part.type scope := by
  have some : (parse "t.c" suffixedSource).file.exprs ≠ [] := by decide +kernel
  have few : ∀ e ∈ (parse "t.c" suffixedSource).file.exprs, e.CallsWithin 2 := by decide +kernel
  obtain ⟨e, member⟩ := List.exists_mem_of_ne_nil _ some
  exact ⟨e, member, few e member,
    checkHeight_le_of_calls "t.c" suffixedSource 2 e member (few e member)⟩

namespace CallChain

/-- `f` with so many empty argument lists behind it. -/
def chain : Nat → Expr
  | 0 => .ident unknown "f"
  | n + 1 => .call unknown (chain n) []

def file (n : Nat) : File where
  name := ""
  decls :=
    [.vars unknown
      { isConst := false
        base := .int
        basePos := unknown
        declarators := [⟨⟨"a", unknown⟩, [], some (chain n)⟩] },
     .func unknown
      { returns := .void
        returnsPos := unknown
        name := ⟨"main", unknown⟩
        params := ⟨unknown, []⟩
        bodyPos := unknown
        body := [] }]

def chainWords : Nat → List String
  | 0 => ["f"]
  | n + 1 => chainWords n ++ ["(", ")"]

def source (n : Nat) : String :=
  Text.spaced (["int", "a", "="] ++
    (chainWords n ++ [";", "void", "main", "(", ")", "\x7b", "\x7d"]))

theorem chain_grammatical (n : Nat) : (chain n).Grammatical ∧ (chain n).IsPrimary := by
  induction n with
  | zero => exact ⟨trivial, rfl⟩
  | succ n ih => exact ⟨⟨ih.2, ih.1, trivial⟩, rfl⟩

theorem chain_levels (n : Nat) : (chain n).levels = 1 := by
  induction n with
  | zero => rfl
  | succ n ih => rw [chain, Expr.levels, ih, Expr.mostLevels, Nat.max_self]

theorem chain_checkHeight (n : Nat) : (chain n).checkHeight = n := by
  induction n with
  | zero => rfl
  | succ n ih =>
    rw [chain, Expr.checkHeight, ih, Expr.greatestCheckHeight, Nat.max_eq_left n.zero_le]

theorem chain_words (n : Nat) : Written.AreWords (chain n).printed (chainWords n) := by
  induction n with
  | zero => decide
  | succ n ih =>
    have brackets : Written.AreWords [.symbol .lParen, .symbol .rParen] ["(", ")"] := by decide
    have printed : (chain (n + 1)).printed =
        (chain n).printed ++ [.symbol .lParen, .symbol .rParen] := by
      simp [chain, Expr.printed, Expr.printedEach, Written.commas]
    rw [printed]
    exact ih.append brackets

theorem file_words (n : Nat) : Written.AreWords (file n).printed
    (["int", "a", "="] ++ (chainWords n ++ [";", "void", "main", "(", ")", "\x7b", "\x7d"])) := by
  have printed : (file n).printed =
      [.symbol .intKw, .name "a", .symbol .assign] ++ ((chain n).printed ++
        [.symbol .semicolon, .symbol .voidKw, .name "main", .symbol .lParen, .symbol .rParen,
          .symbol .lBrace, .symbol .rBrace]) := by
    simp [file, File.printed, Decl.printed, VarDecl.printed, Declarator.printed, FuncDecl.printed,
      Expr.printedInit, Stmt.printedAll, Written.commas, Ty.keyword]
  rw [printed]
  exact .append (by decide) (.append (chain_words n) (by decide))

theorem file_grammatical (n : Nat) : (file n).Grammatical := by
  have isInitializer : (chain n).IsInitializer :=
    Expr.Grammatical.isInitializer (chain_grammatical n).1
  refine List.forall_mem_cons.mpr ⟨⟨.inl rfl, nofun, ?_⟩, List.forall_mem_singleton.mpr ?_⟩
  · refine List.forall_mem_singleton.mpr ⟨nofun, ?_⟩
    rintro e ⟨⟩
    exact isInitializer
  · exact ⟨.inr (.inr rfl), nofun, trivial⟩

/-- The chain is read as it is written, and checked as deep as it is long. -/
theorem checkHeight_parse (n : Nat) :
    ∃ e ∈ (parse "t.c" (source n)).file.exprs, e.checkHeight = n := by
  let scanned := Scanned.ofSource "t.c" (source n)
  have spelled : Spelled (file n).printed (Stream.ofScanned scanned).upcoming [] :=
    Scanned.ofSource_spaced (file_words n) "t.c"
  have shallow : (file n).levels = 1 := by
    simp [file, File.levels, Decl.levels, VarDecl.levels, Stmt.mostLevels, Expr.initLevels,
      chain_levels]
  have same : (parse "t.c" (source n)).file.decls.map Decl.bare = (file n).decls.map Decl.bare := by
    rcases fileParser_complete "t.c" scanned.lineCount (file n) (file_grammatical n)
      (Stream.ofScanned scanned) spelled with ⟨_, same, _⟩ | ⟨deep, _⟩
    · exact same
    · exact absurd deep (by rw [shallow]; decide)
  have height : n ∈ (file n).exprs.map Expr.checkHeight :=
    List.mem_map.mpr ⟨chain n, List.mem_cons_self, chain_checkHeight n⟩
  rw [← File.map_checkHeight_eq same] at height
  exact List.mem_map.mp height

end CallChain

/-- No bound on the height holds for all sources. -/
theorem checkHeight_unbounded :
    ¬ ∃ bound, ∀ name source, ∀ e ∈ (parse name source).file.exprs,
      ∀ part ∈ e.parts, part.checkHeight ≤ bound := by
  rintro ⟨bound, bounded⟩
  obtain ⟨e, member, height⟩ := CallChain.checkHeight_parse (bound + 1)
  have small := bounded "t.c" _ e member e e.mem_parts
  omega

end

end MiniC
