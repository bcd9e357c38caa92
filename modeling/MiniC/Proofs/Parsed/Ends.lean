import MiniC.Proofs.Parsed.Scanning
import MiniC.Proofs.Stmt.Descends

/-!
Reading comes to an end, for two reasons: every round of a loop passes a token,
and a production that calls itself again has passed one since. Neither needs the
nesting limit, nor, but for blocks and clauses, that a loop moves on a round
which stands still. The declarations of a file are no more than its tokens.
-/

namespace MiniC

open MiniC.Parser

/-- Every round of every loop passes a token. The rounds of a block and of a
clause are moved on if they stand still; the others get on by themselves. -/
structure LoopsAdvance : Prop where
  file : Advances (fun _ => true) topLevelDecl
  block : ∀ stmt : Parser Stmt, Advances (· ≠ .rBrace) (moving stmt)
  switch : ∀ inner : StmtContext Parser, Advances (· ≠ .rBrace) inner.clause?
  clause : ∀ stmt : Parser Stmt, Advances (!StmtContext.endsClause ·) (moving stmt)
  composite : ∀ state, Advances (Composite.goesOn state) (Composite.step state)
  chain : ∀ (below : ExprParsers) (least higher : Nat),
    Advances (fun kind => (bindingOp? least kind).isSome) (do advance; below.binary higher)
  refused : ∀ (least : Nat) (left : Expr),
    Advances (fun kind => (bindingOp? least kind).isSome) (refusedOperator least left)
  suffixes : ∀ (inner : Parser Expr) (e : Expr), Advances startsSuffix (suffix inner e)
  items : ∀ (α : Type) (item : Parser α), Advances (· = .comma) (do advance; item)
  sizes : Advances (· = .lBracket) dimension
  /-- As many tokens are passed as steps are made. -/
  skipped : ∀ s, (skipNested.run s).rest.remaining + nestedLength 0 s.kinds = s.remaining

theorem loopsAdvance : LoopsAdvance where
  file := topLevelDecl_advances
  block _ := advances_moving _ _
  switch := StmtContext.clause?_advances
  clause _ := advances_moving _ _
  composite := Composite.step_advances
  chain := operator_advances
  refused := refusedOperator_advances
  suffixes := suffix_advances
  items _ _ := advances_advance _ _
  sizes := dimension_advances
  skipped := skipNested_remaining

/-- A production calls those of its own kind on shorter streams only. So what it
does on a stream of up to `n` tokens is settled by what these do below `n`, and
levels that the tokens cannot use up change nothing. -/
structure CallsDescend : Prop where
  expression : ∀ {n : Nat} {below other : ExprParsers}, below.Agree n other →
    (levelAbove below).Agree (n + 1) (levelAbove other)
  declaration : ∀ {n : Nat} {expr expr' : Parser Expr} {stmt stmt' : Parser Stmt},
    Agree n expr expr' → Agree n stmt stmt' → ∀ isTopLevel,
      Agree (n + 1) (declaration expr stmt isTopLevel) (declaration expr' stmt' isTopLevel)
  /-- Expressions stand lower, and may be called at once. -/
  statement : ∀ {n : Nat} {inner other : StmtContext Parser},
    Agree (n + 1) inner.expr other.expr → Agree n inner.stmt other.stmt →
      Agree (n + 1) inner.any other.any
  levels : ∀ {n left right : Nat}, n ≤ left → n ≤ right →
    Agree n (MiniC.expression left) (MiniC.expression right) ∧
      Agree n (MiniC.statement (left + 1)) (MiniC.statement (right + 1))

theorem callsDescend : CallsDescend where
  expression agree := agree.above
  declaration := declaration_descends
  statement := StmtContext.any_descends
  levels enoughLeft enoughRight :=
    ⟨expression_agree enoughLeft enoughRight, statement_agree enoughLeft enoughRight⟩

theorem Tiles.length_le {lines : LineIndex} {start : Nat} {bytes : List UInt8}
    {lexemes : List Lexeme} {ending : Lexeme} (tiles : Tiles lines start bytes lexemes ending) :
    lexemes.length ≤ bytes.length := by
  induction tiles with
  | ending => exact Nat.zero_le _
  | @token start gap bytes after lexeme ending later fills covers tiles ih =>
    have present := List.length_pos_iff.mpr covers.present
    rw [List.length_cons, List.length_append, List.length_append]
    omega

/-- The offsets of the tokens grow. -/
theorem Scanned.offsets_increasing (name source : String) :
    ((Scanned.ofSource name source).tokens.map (·.pos.offset)).Pairwise (· < ·) := by
  obtain ⟨_, starts, increasing, _, places⟩ := (Cursor.atStart name source).scanAll_places
  have offsets : (Scanned.ofSource name source).tokens.map (·.pos.offset) = starts := by
    have own := congrArg (List.map Position.offset) places
    rw [List.map_map, List.map_map] at own
    exact own.trans (List.map_id' starts)
  rw [offsets]
  exact increasing

/-- The tokens before the end. -/
theorem Scanned.filter_tokens (name source : String) :
    (Scanned.ofSource name source).tokens.filter (·.kind ≠ .eof) =
      (Scanned.ofSource name source).lexemes.map (·.token) := by
  obtain ⟨_, present, isEnd⟩ := (Cursor.atStart name source).scanAll_found
  change (Scanned.ofSource name source).ending.token.kind = .eof at isEnd
  have each : ((Scanned.ofSource name source).lexemes.map (·.token)).filter (·.kind ≠ .eof) =
      (Scanned.ofSource name source).lexemes.map (·.token) := by
    apply List.filter_eq_self.mpr
    intro token member
    obtain ⟨lexeme, isFound, rfl⟩ := List.mem_map.mp member
    exact decide_eq_true (present lexeme isFound)
  unfold Scanned.tokens Scanned.all
  rw [List.map_append, List.filter_append, each, List.map_singleton,
    List.filter_cons_of_neg (by simpa using isEnd)]
  exact List.append_nil _

/-- Reading ends on every source: the loops pass tokens, which stand one behind
the other, and the calls descend. There are no more declarations than tokens
before the end, and no more of these than bytes. -/
theorem parse_ends (name source : String) :
    let tokens := (tokenize name source).1
    let found := tokens.filter (·.kind ≠ .eof)
    LoopsAdvance ∧ CallsDescend ∧
      (tokens.map (·.pos.offset)).Pairwise (· < ·) ∧
      (parse name source).file.decls.length ≤ found.length ∧
      found.length ≤ (Text.bytes source).length := by
  intro tokens found
  let scanned := Scanned.ofSource name source
  have count : found.length = scanned.lexemes.length := by
    have all : found = scanned.lexemes.map (·.token) := Scanned.filter_tokens name source
    rw [all, List.length_map]
  have whole : Text.IsEncoded ([] ++ (Cursor.atStart name source).rest) :=
    Text.isEncoded_bytes source
  obtain ⟨_, _, tiles⟩ := (Cursor.atStart name source).scanAll_tiles [] whole
  constructor
  · exact loopsAdvance
  constructor
  · exact callsDescend
  constructor
  · exact Scanned.offsets_increasing name source
  rw [count]
  constructor
  · exact manyRun_length_le _ topLevelDecl (Stream.ofScanned scanned)
  · exact tiles.length_le

end MiniC
