import MiniC.Proofs.Decl.Limited
import MiniC.Proofs.Stmt.Complete
import MiniC.Proofs.Stmt.Descends
import MiniC.Proofs.Stmt.InStep

/-!
Statements that nest too deep. One that has no statement within it is always
read to its end, since the token behind each expression is one where skipping
ends. Another one is read to its end if it is in reach, and else it is cut
short; the list that it stands in goes on with what is left.
-/

namespace MiniC

open MiniC.Parser
open Written (commas)
open Stmt (Sound sequel)

/-- A statement that is cut short on a level is left where skipping ends from
its last semicolon on, or from behind it if it ends in a brace. -/
structure CutShort (levels : Nat) (t : Stmt) (from_ rest : List Lexeme) : Prop where
  outOfReach : levels < t.reach
  behindBrace : t.ElseBehindBrace
  left : ∃ last, Spelled t.ending last rest ∧ from_ = skipped last

theorem CutShort.front_ne_else {levels : Nat} {t : Stmt} {from_ rest : List Lexeme}
    (cut : CutShort levels t from_ rest) : frontKind from_ ≠ .elseKw := by
  obtain ⟨last, _, rfl⟩ := cut.left
  intro isElse
  have enclosing := isEnclosing_skipped last
  rw [isElse] at enclosing
  cases enclosing

/-- What is cut short with its last part is left as that part is. -/
theorem CutShort.outer {levels : Nat} {t whole : Stmt} {from_ rest : List Lexeme}
    (cut : CutShort levels t from_ rest) (reaches : t.reach < whole.reach)
    (behind : whole.ElseBehindBrace) (same : whole.ending = t.ending) :
    CutShort (levels + 1) whole from_ rest :=
  ⟨Nat.lt_of_le_of_lt cut.outOfReach reaches, behind, same ▸ cut.left⟩

/-- What a parser does on the text of a statement that may be too deep for it. -/
def ReadsOrCuts (p : Parser Stmt) (levels : Nat) (t : Stmt) : Prop :=
  ∀ s rest, Spelled t.printed s.upcoming rest → (t.dangles = true → frontKind rest ≠ .elseKw) →
    Limited p s fun _ r => r.upcoming = rest ∨ CutShort levels t r.upcoming rest

def SkippingStmt (p : Parser Stmt) (levels : Nat) : Prop :=
  ∀ t : Stmt, t.Grammatical → t.Recovers levels → t.reach ≤ levels ∨ t.ElseBehindBrace →
    ReadsOrCuts p levels t

structure SkippingContext (inner : StmtContext Parser) (levels : Nat) : Prop where
  expr : SkippingExpr inner.expr
  stmt : SkippingStmt inner.stmt levels
  complete : CompleteContext inner levels

namespace SkippingContext

variable {inner : StmtContext Parser} {levels : Nat} (skipping : SkippingContext inner levels)
  {s : Stream} {text : List Written} {rest : List Lexeme}

section Simple

include skipping

/-- An assignment or expression in front of the token that ends it. -/
theorem simple (t : Simple) (grammatical : t.Grammatical) {written : Written}
    (closes : written.kind = .semicolon ∨ written.kind = .rParen)
    (spelled : Spelled (t.printed ++ written :: text) s.upcoming rest) :
    Limited inner.simple s fun _ r => Spelled (written :: text) r.upcoming rest := by
  obtain ⟨middle, part, closing⟩ := spelled.split
  have front : frontKind middle = written.kind := closing.frontKind_eq
  have ends : endsSkipping (frontKind middle) = true := by
    rcases closes with same | same <;> rw [front, same] <;> rfl
  have follows : EndsExpr 1 (frontKind middle) := by
    rcases closes with same | same <;> rw [front, same] <;> exact endsExpr_of_eq rfl rfl
  -- Nothing is assigned where the target was cut short.
  have done {pos : Position} {target : Expr} {r : Stream} (same : r.upcoming = middle) :
      Limited (do
          if ← accept .assign then
            let value ← inner.expr
            pure (Simple.assign pos target value)
          else pure (Simple.expr pos target)) r
        fun _ r => Spelled (written :: text) r.upcoming rest := by
    have notAssigned : r.token.kind ≠ .assign := by
      rw [r.token_kind, same, front]
      rcases closes with same | same <;> rw [same] <;> nofun
    refine Limited.bind (Succeeds.accept_other notAssigned).limited ?_
    rintro _ _ ⟨rfl, rfl⟩
    exact Limited.pure (same ▸ closing)
  refine Limited.bind_position ?_
  cases t with
  | expr pos e =>
    exact Limited.bind ((skipping.expr e grammatical).exact part follows ends) fun _ _ => done
  | assign pos target value =>
    obtain ⟨goodTarget, goodValue⟩ := grammatical
    have skips : SkipsOver 0 (.symbol .assign :: value.printed) := .cons rfl value.printed_skips
    refine Limited.bind ((skipping.expr target goodTarget).before skips part fun _ after =>
      after.frontKind_eq ▸ endsExpr_of_eq rfl rfl) fun _ r read => ?_
    rcases read with spelled | cut
    · refine Limited.bind (Succeeds.accept spelled).limited ?_
      rintro _ next ⟨rfl, spelled⟩
      exact Limited.bind ((skipping.expr value goodValue).exact spelled follows ends)
        fun _ _ same => Limited.pure (same ▸ closing)
    · exact done (cut.trans (skipped_of_ends ends))

theorem header (t : Option Simple) (grammatical : ∀ part ∈ t, part.Grammatical) (close : TokenKind)
    (closes : close = .semicolon ∨ close = .rParen)
    (spelled : Spelled (Simple.printedHeader t ++ .symbol close :: text) s.upcoming rest) :
    Limited (inner.header close) s fun _ r => Spelled (.symbol close :: text) r.upcoming rest := by
  refine Limited.bind_peekKind ?_
  cases t with
  | none =>
    rw [if_pos (Succeeds.token_spells spelled).1]
    exact Limited.pure spelled
  | some part =>
    obtain ⟨written, later, shape, starts⟩ := part.printed_starts (grammatical part rfl)
    have front : s.token.kind = written.kind := by
      rw [Simple.printedHeader, shape] at spelled
      exact s.token_kind ▸ spelled.frontKind_eq
    have other : s.token.kind ≠ close := by
      rw [front]
      rintro rfl
      rcases closes with same | same <;> simp [same, startsExpr] at starts
    rw [if_neg other]
    exact Limited.map (skipping.simple part (grammatical part rfl) closes spelled)

theorem condition (cond : Expr) (grammatical : cond.Grammatical)
    (spelled : Spelled (cond.printedCondition ++ text) s.upcoming rest) :
    Limited inner.condition s fun _ r => Spelled text r.upcoming rest := by
  rw [Expr.printedCondition, List.append_assoc] at spelled
  refine Limited.bind (Succeeds.require spelled).limited fun _ _ spelled => ?_
  refine Limited.bind ((skipping.expr cond grammatical).beforeToken spelled
    (endsExpr_of_eq rfl rfl) rfl) fun _ _ spelled => ?_
  exact Limited.bind (Succeeds.require spelled).limited fun _ _ spelled => Limited.pure spelled

theorem declStmt (place : Position) (v : VarDecl) (grammatical : v.Grammatical)
    (spelled : Spelled v.printed s.upcoming rest) :
    Limited (inner.declStmt place) s fun _ r => r.upcoming = rest :=
  Limited.bind (declaration_vars_limited skipping.expr v grammatical false spelled)
    fun _ _ ended => Limited.pure ended

omit skipping in
/-- The last token of a statement. -/
theorem last {kind : TokenKind} {t : Stmt} (spelled : Spelled [.symbol kind] s.upcoming rest) :
    Limited (do require kind; pure t) s fun _ r => r.upcoming = rest := by
  exact Limited.bind (Succeeds.require spelled).limited fun _ _ ended =>
    Limited.pure ended.eq_of_nil

theorem simpleStmt (t : Simple) (grammatical : t.Grammatical)
    (spelled : Spelled (t.printed ++ [.symbol .semicolon]) s.upcoming rest) :
    Limited inner.simpleStmt s fun _ r => r.upcoming = rest :=
  Limited.bind (skipping.simple t grammatical (.inl rfl) spelled) fun _ _ => last

theorem print (place : Position) (args : List Expr)
    (grammatical : ∀ arg ∈ args, arg.Grammatical)
    (spelled : Spelled (.symbol .printfKw :: .symbol .lParen :: commas (Expr.printedEach args) ++
      [.symbol .rParen, .symbol .semicolon]) s.upcoming rest) :
    Limited (inner.print place) s fun _ r => r.upcoming = rest := by
  refine Limited.bind (Succeeds.require spelled).limited fun _ _ spelled => ?_
  refine Limited.bind (Succeeds.require spelled).limited fun _ _ spelled => ?_
  refine Limited.bind (skipping.expr.args grammatical spelled) fun _ _ spelled => ?_
  exact Limited.bind (Succeeds.require spelled).limited fun _ _ => last

theorem scan (place : Position) (target : Expr) (grammatical : target.Grammatical)
    (spelled : Spelled (.symbol .scanfKw :: target.printedCondition ++ [.symbol .semicolon])
      s.upcoming rest) :
    Limited (inner.scan place) s fun _ r => r.upcoming = rest := by
  refine Limited.bind (Succeeds.require spelled).limited fun _ _ spelled => ?_
  exact Limited.bind (skipping.condition target grammatical spelled) fun _ _ => last

omit skipping in
theorem ret_alone (place pos : Position)
    (spelled : Spelled (Stmt.ret pos none).printed s.upcoming rest) :
    Limited (inner.ret place) s fun _ r => r.upcoming = rest := by
  refine Limited.bind (Succeeds.require spelled).limited fun _ middle spelled => ?_
  refine Limited.bind_peekKind ?_
  rw [if_pos (Succeeds.token_spells spelled).1]
  exact last spelled

theorem ret_value (place : Position) (value : Expr) (grammatical : value.Grammatical)
    (spelled : Spelled (.symbol .returnKw :: value.printed ++ [.symbol .semicolon])
      s.upcoming rest) :
    Limited (inner.ret place) s fun _ r => r.upcoming = rest := by
  refine Limited.bind (Succeeds.require spelled).limited fun _ middle spelled => ?_
  obtain ⟨written, later, shape, starts, _⟩ := value.printed_starts grammatical
  have other : middle.token.kind ≠ .semicolon := by
    have front := spelled
    rw [List.append_eq, shape] at front
    rw [middle.token_kind, front.frontKind_eq]
    exact fun same => by simp [same, startsExpr] at starts
  refine Limited.bind_peekKind ?_
  rw [if_neg other]
  have read := (skipping.expr value grammatical).beforeToken spelled (endsExpr_of_eq rfl rfl) rfl
  exact Limited.bind (Limited.map read) fun _ _ => last

end Simple

end SkippingContext

section Lists

variable {stmt : Parser Stmt} {levels : Nat} {all : List Stmt} {s : Stream} {text : List Written}
  {rest : List Lexeme}

/-- What is left inside braces, with clauses that are the last ones of all. -/
def Inside (levels : Nat) (all : List Stmt) (text : List Written) (rest from_ : List Lexeme) :
    Prop :=
  ∃ stmts later, later <:+ all ∧ Sound levels stmts later ∧
    Spelled (sequel stmts later text) from_ rest

/-- Where a statement of a list was cut short, the list goes on: with its semicolon, or,
if it ends in a brace, with what is left of the statements behind it. -/
theorem CutShort.inside {t : Stmt} {stmts later : List Stmt} {from_ middle : List Lexeme}
    (cut : CutShort levels t from_ middle) (within : later <:+ all)
    (sound : Sound levels stmts later)
    (behind : ∀ u ∈ stmts ++ Stmt.bodies later, u.ElseBehindBrace)
    (others : Spelled (sequel stmts later text) middle rest) :
    Inside levels all text rest from_ ∧
      (middle.length < from_.length → Inside levels all text rest from_.tail) := by
  obtain ⟨last, ending, left⟩ := cut.left
  unfold Stmt.ending at ending
  cases ends : t.endsInSemicolon with
  | true =>
    rw [ends] at ending
    rw [skipped_of_ends (by rw [ending.frontKind_eq]; rfl)] at left
    subst left
    -- the semicolon that is left is read as an empty statement
    have alone := ending.append others
    refine ⟨⟨.empty .unknown :: stmts, later, within, sound.semicolon _ behind, alone⟩, fun _ => ?_⟩
    cases ending with
    | cons _ ended =>
      cases ended
      exact ⟨stmts, later, within, sound, others⟩
  | false =>
    rw [ends] at ending
    cases ending
    obtain ⟨stmts, last, suffix, soundLeft, spelledLeft⟩ := sound.skipped behind others
    refine ⟨⟨stmts, last, suffix.trans within, soundLeft, left ▸ spelledLeft⟩, fun longer => ?_⟩
    rw [left, skipped, List.length_drop] at longer
    omega

/-- A statement of a list. Where it was cut short, the list goes on with its
semicolon, and there is nothing left of it behind that one. -/
theorem listed_limited (skipping : SkippingStmt stmt levels) {t : Stmt} {stmts later : List Stmt}
    (within : later <:+ all) (sound : Sound levels (t :: stmts) later)
    (spelled : Spelled (sequel (t :: stmts) later text) s.upcoming rest) :
    Limited stmt s fun _ r => Inside levels all text rest r.upcoming ∧
      (r.upcoming = s.upcoming → ∀ moved : Stream, moved.upcoming = s.upcoming.tail →
        Inside levels all text rest moved.upcoming) := by
  have grammatical := sound.grammatical t List.mem_cons_self
  have soundLater : Sound levels stmts later := sound.last (List.suffix_cons t stmts)
  have spared : t.reach ≤ levels ∨ t.ElseBehindBrace :=
    sound.inStep.imp (fun bounded => bounded t List.mem_cons_self)
      fun behind => behind t List.mem_cons_self
  rw [sequel, Stmt.printedAll, List.append_assoc] at spelled
  obtain ⟨middle, own, others⟩ := spelled.split
  have shorter : middle.length < s.upcoming.length := by
    obtain ⟨written, later, shape, _⟩ := t.printed_starts grammatical
    rw [own.length_eq, shape, List.length_cons]
    omega
  have next : Inside levels all text rest middle := ⟨stmts, later, within, soundLater, others⟩
  -- the second half is for a round that has got nowhere, which the loop moves on by a token
  refine (skipping t grammatical (sound.recovers t List.mem_cons_self) spared s middle own
    fun _ => soundLater.front_ne_else others).mono ?_
  rintro _ r (read | cut)
  · refine ⟨read ▸ next, fun stood => ?_⟩
    rw [← stood, read] at shorter
    exact absurd shorter (Nat.lt_irrefl _)
  · -- one statement of the list is out of reach, so no `else` stands behind a semicolon in it
    have behind : ∀ u ∈ (t :: stmts) ++ Stmt.bodies later, u.ElseBehindBrace := by
      rcases sound.inStep with bounded | behind
      · exact absurd (bounded t List.mem_cons_self) (Nat.not_le.mpr cut.outOfReach)
      · exact behind
    have behindLater : ∀ u ∈ stmts ++ Stmt.bodies later, u.ElseBehindBrace :=
      fun u member => behind u (List.mem_cons_of_mem t member)
    obtain ⟨here, passed⟩ := cut.inside within soundLater behindLater others
    refine ⟨here, fun stood moved onward => ?_⟩
    rw [onward, ← stood]
    exact passed (stood ▸ shorter)

/-- A list of statements ends in front of a clause or the closing brace. -/
theorem stmts_limited (skipping : SkippingStmt stmt levels) (more : TokenKind → Bool)
    (taken : ∀ kind, startsStmt kind = true → more kind = true)
    (stops : ∀ later from_, later <:+ all →
      Spelled (sequel [] later text) from_ rest → more (frontKind from_) = false)
    (inside : Inside levels all text rest s.upcoming) :
    Limited (manyWhile more stmt) s fun _ r => ∃ later, later <:+ all ∧ Sound levels [] later ∧
      Spelled (sequel [] later text) r.upcoming rest := by
  have round : ∀ s : Stream, Inside levels all text rest s.upcoming → takes more s = true →
      Limited (moving stmt) s fun _ r => Inside levels all text rest r.upcoming := by
    rintro s ⟨stmts, later, within, sound, spelled⟩ isTaken
    cases stmts with
    | nil =>
      have refused := not_takes_of_kind (s.token_kind ▸ stops later _ within spelled)
      rw [isTaken] at refused
      cases refused
    | cons t stmts => exact Limited.moving (listed_limited skipping within sound spelled)
  refine (Limited.manyWhile round inside).mono ?_
  rintro _ r ⟨⟨stmts, later, within, sound, spelled⟩, stopped⟩
  cases stmts with
  | nil => exact ⟨later, within, sound, spelled⟩
  | cons t stmts =>
    obtain ⟨written, text, shape, starts⟩ :=
      t.printed_starts (sound.grammatical t List.mem_cons_self)
    rw [sequel, Stmt.printedAll, shape] at spelled
    have front : r.token.kind = written.kind := r.token_kind ▸ spelled.frontKind_eq
    have present : r.token.kind ≠ .eof := by
      rw [front]
      exact fun same => by simp [same, startsStmt, startsExpr] at starts
    rw [takes_of_kind present (front ▸ taken _ starts)] at stopped
    cases stopped

/-- Statements in braces. -/
theorem braced_limited (skipping : SkippingStmt stmt levels) {body : List Stmt}
    (sound : Sound levels body [])
    (spelled : Spelled (.symbol .lBrace :: Stmt.printedAll body ++ .symbol .rBrace :: text)
      s.upcoming rest) :
    Limited (braced stmt) s fun found r => found ≠ none ∧ Spelled text r.upcoming rest := by
  refine Limited.bind (Succeeds.require spelled).limited fun _ middle spelled => ?_
  have stops : ∀ later from_, later <:+ [] → Spelled (sequel [] later text) from_ rest →
      decide (frontKind from_ ≠ .rBrace) = false := by
    intro later from_ within spelled
    cases List.suffix_nil.mp within
    rw [spelled.frontKind_eq]
    rfl
  have loop := stmts_limited skipping (· ≠ .rBrace)
    (fun kind starts => by cases kind <;> first | rfl | exact absurd starts (by decide)) stops
    ⟨body, [], List.suffix_rfl, sound, spelled⟩
  refine Limited.bind loop ?_
  rintro stmts closing ⟨later, within, _, spelled⟩
  cases List.suffix_nil.mp within
  have isBrace : closing.token.kind = .rBrace := (Succeeds.token_spells spelled).1
  refine Limited.bind_peekKind ?_
  rw [if_neg (by rw [isBrace]; nofun)]
  refine Limited.bind (Succeeds.advance spelled).limited fun _ _ spelled => Limited.pure ?_
  exact ⟨nofun, spelled⟩

end Lists

namespace SkippingContext

open StmtContext (endsClause)

variable {inner : StmtContext Parser} {levels : Nat} (skipping : SkippingContext inner levels)
  {s : Stream} {text : List Written} {rest : List Lexeme}

include skipping

theorem block (place pos : Position) (body : List Stmt) (grammatical : Stmt.AllGrammatical body)
    (recovers : (Stmt.block pos body).Recovers (levels + 1))
    (spelled : Spelled (Stmt.block pos body).printed s.upcoming rest) :
    Limited (inner.block place) s fun _ r => r.upcoming = rest := by
  have sound : Sound levels body [] :=
    { grammatical := (Stmt.allGrammatical_iff body).mp grammatical
      areClauses := nofun
      recovers := by simpa [Stmt.bodies] using recovers.2
      inStep := by simpa [Stmt.bodies] using recovers.1 }
  exact Limited.bind (braced_limited skipping.stmt sound spelled) fun _ _ read =>
    Limited.pure read.2.eq_of_nil

/-- An `if` whose statement is cut short ends there, without an `else`. -/
theorem branch_alone (place pos : Position) (cond : Expr) (yes : Stmt)
    (grammatical : cond.Grammatical ∧ yes.Grammatical) (recovers : yes.Recovers levels)
    (spared : yes.reach ≤ levels ∨ yes.ElseBehindBrace) :
    ReadsOrCuts (inner.branch place) (levels + 1) (.branch pos cond yes none) := by
  intro s rest spelled follows
  have notElse := follows rfl
  refine Limited.bind (Succeeds.require spelled).limited fun _ _ spelled => ?_
  refine Limited.bind (skipping.condition cond grammatical.1 spelled) fun _ middle spelled => ?_
  refine Limited.bind (skipping.stmt yes grammatical.2 recovers spared middle rest spelled
    fun _ => notElse) fun _ r ended => ?_
  have other : r.token.kind ≠ .elseKw := by
    rw [r.token_kind]
    exact ended.elim (fun same => same ▸ notElse) CutShort.front_ne_else
  refine Limited.bind (Succeeds.accept_other other).limited ?_
  rintro _ _ ⟨rfl, rfl⟩
  refine Limited.pure (ended.imp_right fun cut => ?_)
  exact cut.outer (Nat.lt_succ_self _) cut.behindBrace rfl

omit skipping in
/-- A first statement that is cut short ends in a brace, so the `else` is skipped, and
the statement behind it up to its own last token. -/
theorem cut_else {pos : Position} {cond : Expr} {yes no : Stmt} {from_ behind : List Lexeme}
    (cut : CutShort levels yes from_ behind)
    (behindBrace : (Stmt.branch pos cond yes (some no)).ElseBehindBrace) (goodNo : no.Grammatical)
    (others : Spelled (.symbol .elseKw :: no.printed) behind rest) :
    CutShort (levels + 1) (.branch pos cond yes (some no)) from_ rest := by
  have reaches : yes.reach < (Stmt.branch pos cond yes (some no)).reach := by
    simp only [Stmt.reach]
    omega
  have ⟨braced, _, behindNo⟩ := behindBrace
  obtain ⟨last, ending, left⟩ := cut.left
  rw [Stmt.ending, braced] at ending
  cases ending
  obtain ⟨text, skips, shape⟩ := behindNo.printed_skips no goodNo
  rw [shape, ← List.cons_append] at others
  obtain ⟨last, sooner, ending⟩ := others.split
  refine ⟨Nat.lt_of_le_of_lt cut.outOfReach reaches, behindBrace, last, ending, left.trans ?_⟩
  exact (SkipsOver.symbol .elseKw rfl skips).skipped_eq sooner

/-- If the first statement is cut short, it ends in a brace, and the `else` is
passed along with the statement behind it. -/
theorem branch_both (place pos : Position) (cond : Expr) (yes no : Stmt)
    (grammatical : (Stmt.branch pos cond yes (some no)).Grammatical)
    (recovers : yes.Recovers levels ∧ no.Recovers levels)
    (spared : (Stmt.branch pos cond yes (some no)).reach ≤ levels + 1 ∨
      (Stmt.branch pos cond yes (some no)).ElseBehindBrace) :
    ReadsOrCuts (inner.branch place) (levels + 1) (.branch pos cond yes (some no)) := by
  intro s rest spelled follows
  obtain ⟨goodCond, goodYes, closed, goodNo⟩ := grammatical
  have sparedYes : yes.reach ≤ levels ∨ yes.ElseBehindBrace := by
    refine spared.imp (fun bounded => ?_) fun behind => behind.2.1
    simp only [Stmt.reach] at bounded
    omega
  have sparedNo : no.reach ≤ levels ∨ no.ElseBehindBrace := by
    refine spared.imp (fun bounded => ?_) fun behind => behind.2.2
    simp only [Stmt.reach] at bounded
    omega
  have reachesYes : yes.reach < (Stmt.branch pos cond yes (some no)).reach := by
    simp only [Stmt.reach]
    omega
  have reachesNo : no.reach < (Stmt.branch pos cond yes (some no)).reach := by
    simp only [Stmt.reach]
    omega
  rw [Stmt.printed, List.append_assoc] at spelled
  refine Limited.bind (Succeeds.require spelled).limited fun _ _ spelled => ?_
  refine Limited.bind (skipping.condition cond goodCond spelled) fun _ middle spelled => ?_
  obtain ⟨behind, part, others⟩ := spelled.split
  refine Limited.bind (skipping.stmt yes goodYes recovers.1 sparedYes middle behind part
    (by simp [closed])) ?_
  rintro _ r (read | cut)
  · refine Limited.bind (Succeeds.accept (read ▸ others)).limited ?_
    rintro _ next ⟨rfl, spelled⟩
    refine Limited.bind (skipping.stmt no goodNo recovers.2 sparedNo next rest spelled follows)
      fun _ r ended => Limited.pure (ended.imp_right fun cut => ?_)
    have outOfReach := Nat.lt_of_le_of_lt cut.outOfReach reachesNo
    exact cut.outer reachesNo (spared.resolve_left (Nat.not_le.mpr outOfReach)) rfl
  · refine Limited.bind (Succeeds.accept_other (r.token_kind ▸ cut.front_ne_else)).limited ?_
    rintro _ _ ⟨rfl, rfl⟩
    have outOfReach := Nat.lt_of_le_of_lt cut.outOfReach reachesYes
    have behindBrace := spared.resolve_left (Nat.not_le.mpr outOfReach)
    exact Limited.pure (.inr (cut_else cut behindBrace goodNo others))

theorem forLoop (place pos : Position) (init cond next : Option Simple) (body : Stmt)
    (grammatical : (Stmt.forLoop pos init cond next body).Grammatical)
    (recovers : body.Recovers levels) (spared : body.reach ≤ levels ∨ body.ElseBehindBrace) :
    ReadsOrCuts (inner.forLoop place) (levels + 1) (.forLoop pos init cond next body) := by
  intro s rest spelled follows
  obtain ⟨goodInit, goodCond, goodNext, goodBody⟩ := grammatical
  rw [Stmt.printed, List.append_assoc, List.append_assoc] at spelled
  refine Limited.bind (Succeeds.require spelled).limited fun _ _ spelled => ?_
  refine Limited.bind (Succeeds.require spelled).limited fun _ _ spelled => ?_
  refine Limited.bind (skipping.header init goodInit _ (.inl rfl) spelled) fun _ _ spelled => ?_
  refine Limited.bind (Succeeds.require spelled).limited fun _ _ spelled => ?_
  refine Limited.bind (skipping.header cond goodCond _ (.inl rfl) spelled) fun _ _ spelled => ?_
  refine Limited.bind (Succeeds.require spelled).limited fun _ _ spelled => ?_
  refine Limited.bind (skipping.header next goodNext _ (.inr rfl) spelled) fun _ _ spelled => ?_
  refine Limited.bind (Succeeds.require spelled).limited fun _ middle spelled => ?_
  refine Limited.bind (skipping.stmt body goodBody recovers spared middle rest spelled follows)
    fun _ _ ended => Limited.pure (ended.imp_right fun cut => ?_)
  exact cut.outer (Nat.lt_succ_self _) cut.behindBrace rfl

theorem whileLoop (place pos : Position) (cond : Expr) (body : Stmt)
    (grammatical : cond.Grammatical ∧ body.Grammatical) (recovers : body.Recovers levels)
    (spared : body.reach ≤ levels ∨ body.ElseBehindBrace) :
    ReadsOrCuts (inner.whileLoop place) (levels + 1) (.whileLoop pos cond body) := by
  intro s rest spelled follows
  refine Limited.bind (Succeeds.require spelled).limited fun _ _ spelled => ?_
  refine Limited.bind (skipping.condition cond grammatical.1 spelled) fun _ middle spelled => ?_
  refine Limited.bind (skipping.stmt body grammatical.2 recovers spared middle rest spelled follows)
    fun _ _ ended => Limited.pure (ended.imp_right fun cut => ?_)
  exact cut.outer (Nat.lt_succ_self _) cut.behindBrace rfl

/-- A clause, up to a later one or the closing brace. -/
theorem clause (t : Stmt) (later : List Stmt) (sound : Sound levels [] (t :: later))
    (spelled : Spelled (sequel [] (t :: later) text) s.upcoming rest) :
    Limited inner.clause s fun _ r => ∃ left, left <:+ later ∧ Sound levels [] left ∧
      Spelled (sequel [] left text) r.upcoming rest := by
  obtain ⟨isClause, bounded⟩ := sound.areClauses t List.mem_cons_self
  cases t with
  | clause pos label body =>
    rw [sequel, Stmt.printedAll, Stmt.printedAll, Stmt.printed, List.nil_append, List.append_assoc,
      List.append_assoc] at spelled
    refine Limited.bind_position ?_
    have labelled := skipping.complete.label label isClause.1
      (fun isDeep => Nat.not_lt.mpr bounded isDeep) spelled
    refine Limited.bind labelled.limited ?_
    rintro _ _ ⟨_, spelled⟩
    refine Limited.bind (Succeeds.require spelled).limited fun _ middle spelled => ?_
    have goesOn : ∀ kind, startsStmt kind = true → (!endsClause kind) = true :=
      fun kind starts => by cases kind <;> first | rfl | exact absurd starts (by decide)
    have stops : ∀ left from_, left <:+ later → Spelled (sequel [] left text) from_ rest →
        (!endsClause (frontKind from_)) = false := by
      intro left from_ within spelled
      cases left with
      | nil =>
        rw [spelled.frontKind_eq]
        rfl
      | cons t left =>
        have soundLeft : Sound levels [] (t :: left) :=
          (sound.enter.last List.nil_suffix).within within
        obtain ⟨written, text, shape, starts⟩ :=
          (soundLeft.areClauses t List.mem_cons_self).1.printed_starts
        rw [sequel, Stmt.printedAll, Stmt.printedAll, shape] at spelled
        rw [spelled.frontKind_eq]
        rcases starts with same | same <;> rw [same] <;> rfl
    have loop := stmts_limited skipping.stmt _ goesOn stops
      ⟨body, later, List.suffix_rfl, sound.enter, spelled⟩
    exact Limited.bind loop fun _ _ left => Limited.pure left
  | _ => exact isClause.elim

theorem clause? (t : Stmt) (later : List Stmt) (sound : Sound levels [] (t :: later))
    (spelled : Spelled (sequel [] (t :: later) text) s.upcoming rest) :
    Limited inner.clause? s fun _ r => ∃ left, left <:+ later ∧ Sound levels [] left ∧
      Spelled (sequel [] left text) r.upcoming rest := by
  have read : Limited (some <$> inner.clause) s fun _ r => ∃ left, left <:+ later ∧
      Sound levels [] left ∧ Spelled (sequel [] left text) r.upcoming rest :=
    Limited.map (skipping.clause t later sound spelled)
  obtain ⟨written, rest, shape, starts⟩ :=
    (sound.areClauses t List.mem_cons_self).1.printed_starts
  have front : s.token.kind = written.kind := by
    rw [sequel, Stmt.printedAll, Stmt.printedAll, shape] at spelled
    exact s.token_kind ▸ spelled.frontKind_eq
  refine Limited.bind_peekKind ?_
  rcases starts with isCase | isDefault
  · simpa only [front, isCase] using read
  · simpa only [front, isDefault] using read

theorem switch (place pos : Position) (subject : Expr) (clauses : List Stmt)
    (grammatical : (Stmt.switch pos subject clauses).Grammatical)
    (recovers : (Stmt.switch pos subject clauses).Recovers (levels + 1))
    (spelled : Spelled (Stmt.switch pos subject clauses).printed s.upcoming rest) :
    Limited (inner.switch place) s fun _ r => r.upcoming = rest := by
  obtain ⟨goodSubject, areClauses⟩ := grammatical
  obtain ⟨labels, inStep, recovers⟩ := recovers
  rw [Stmt.allClauses_iff] at areClauses
  have sound : Sound levels [] clauses :=
    { grammatical := nofun
      areClauses := fun t member => ⟨areClauses t member, labels t member⟩
      recovers := recovers
      inStep := inStep }
  -- a clause that is cut short takes some of those behind it along
  let I : Stream → Prop := fun s => ∃ left, left <:+ clauses ∧
    Spelled (sequel [] left []) s.upcoming rest
  have round : ∀ s, I s → takes (· ≠ .rBrace) s = true →
      Limited (moving inner.clause?) s fun _ r => I r := by
    rintro s ⟨left, within, spelled⟩ taken
    cases left with
    | nil =>
      have isBrace : s.token.kind = .rBrace := (Succeeds.token_spells spelled).1
      simp [takes, isBrace] at taken
    | cons t later =>
      refine Limited.moving_of_shortens (inner.clause?_advances s taken) ?_
      refine (skipping.clause? t later (sound.within within) spelled).mono ?_
      rintro _ r ⟨left, suffix, _, spelled⟩
      exact ⟨left, (suffix.trans (List.suffix_cons t later)).trans within, spelled⟩
  rw [Stmt.printed, List.append_assoc] at spelled
  refine Limited.bind (Succeeds.require spelled).limited fun _ _ spelled => ?_
  refine Limited.bind (skipping.condition subject goodSubject spelled) fun _ _ spelled => ?_
  refine Limited.bind (Succeeds.require spelled).limited fun _ middle spelled => ?_
  have started : I middle := ⟨clauses, List.suffix_rfl, spelled⟩
  refine Limited.bind (Limited.manyWhile round started) ?_
  rintro _ closing ⟨⟨left, within, spelled⟩, stopped⟩
  cases left with
  | nil => exact last spelled
  | cons t later =>
    -- the loop does not stop in front of a clause
    obtain ⟨written, text, shape, starts⟩ :=
      (areClauses t (within.subset List.mem_cons_self)).printed_starts
    rw [sequel, Stmt.printedAll, Stmt.printedAll, shape] at spelled
    have front : closing.token.kind = written.kind := closing.token_kind ▸ spelled.frontKind_eq
    rcases starts with same | same <;>
      · rw [same] at front
        rw [takes_of_kind (by rw [front]; decide) (by rw [front]; rfl)] at stopped
        cases stopped

omit skipping in
theorem any_simple {Q : Stmt → Stream → Prop} (starts : startsExpr s.token.kind = true)
    (limited : Limited inner.simpleStmt s Q) : Limited inner.any s Q := by
  refine Limited.bind_peek ?_
  dsimp only
  generalize s.token.kind = kind at starts
  cases kind <;> first | exact limited | exact absurd starts (by decide)

omit skipping in
theorem any_decl {Q : Stmt → Stream → Prop} {v : VarDecl}
    (spelled : Spelled v.printed s.upcoming rest)
    (limited : Limited (inner.declStmt s.token.pos) s Q) : Limited inner.any s Q := by
  refine Limited.bind_peek ?_
  dsimp only
  rw [s.token_kind]
  cases isConst : v.isConst with
  | true =>
    rw [VarDecl.printed, isConst] at spelled
    rw [spelled.frontKind_eq]
    exact limited
  | false =>
    rw [VarDecl.printed, isConst] at spelled
    rw [spelled.frontKind_eq]
    cases v.base <;> exact limited

theorem any : SkippingStmt inner.any (levels + 1) := by
  intro t grammatical recovers spared s rest spelled follows
  cases t with
  | bad | clause => exact grammatical.elim
  | decl pos vars =>
    cases vars with
    | none => exact grammatical.elim
    | some v =>
      exact any_decl spelled ((skipping.declStmt _ v grammatical spelled).mono fun _ _ => .inl)
  | simple t =>
    obtain ⟨written, text, shape, starts⟩ := t.printed_starts grammatical
    have front : s.token.kind = written.kind := by
      have spelled := spelled
      rw [Stmt.printed, shape] at spelled
      exact s.token_kind ▸ spelled.frontKind_eq
    exact any_simple (front ▸ starts)
      ((skipping.simpleStmt t grammatical spelled).mono fun _ _ => .inl)
  | empty pos =>
    refine Limited.bind_peek ?_
    simp only [(Succeeds.token_spells spelled).1]
    exact Limited.bind (Succeeds.advance spelled).limited fun _ _ ended =>
      Limited.pure (.inl ended.eq_of_nil)
  | ret pos value =>
    refine Limited.bind_peek ?_
    cases value with
    | none =>
      simp only [(Succeeds.token_spells spelled).1]
      exact (ret_alone _ pos spelled).mono fun _ _ => .inl
    | some value =>
      simp only [(Succeeds.token_spells spelled).1]
      exact (skipping.ret_value _ value (grammatical value rfl) spelled).mono fun _ _ => .inl
  | branch pos cond yes no =>
    refine Limited.bind_peek ?_
    cases no with
    | none =>
      simp only [(Succeeds.token_spells spelled).1]
      exact skipping.branch_alone _ pos cond yes grammatical recovers
        (spared.imp_left Nat.le_of_succ_le_succ) s rest spelled follows
    | some no =>
      simp only [(Succeeds.token_spells spelled).1]
      exact skipping.branch_both _ pos cond yes no grammatical recovers spared s rest spelled
        follows
  | block pos body =>
    refine Limited.bind_peek ?_
    simp only [(Succeeds.token_spells spelled).1]
    exact (skipping.block _ pos body grammatical recovers spelled).mono fun _ _ => .inl
  | switch pos subject clauses =>
    refine Limited.bind_peek ?_
    simp only [(Succeeds.token_spells spelled).1]
    exact (skipping.switch _ pos subject clauses grammatical recovers spelled).mono fun _ _ => .inl
  | forLoop pos init cond next body =>
    refine Limited.bind_peek ?_
    simp only [(Succeeds.token_spells spelled).1]
    exact skipping.forLoop _ pos init cond next body grammatical recovers
      (spared.imp_left Nat.le_of_succ_le_succ) s rest spelled follows
  | whileLoop pos cond body =>
    refine Limited.bind_peek ?_
    simp only [(Succeeds.token_spells spelled).1]
    exact skipping.whileLoop _ pos cond body grammatical recovers
      (spared.imp_left Nat.le_of_succ_le_succ) s rest spelled follows
  | scan pos target =>
    refine Limited.bind_peek ?_
    simp only [(Succeeds.token_spells spelled).1]
    exact (skipping.scan _ target grammatical spelled).mono fun _ _ => .inl
  | print pos args =>
    refine Limited.bind_peek ?_
    simp only [(Succeeds.token_spells spelled).1]
    exact (skipping.print _ args grammatical spelled).mono fun _ _ => .inl

end SkippingContext

/-- On the lowest level every statement is cut short. -/
theorem statement_limited (levels : Nat) : SkippingStmt (statement levels) levels := by
  induction levels with
  | zero =>
    intro t grammatical _ spared s rest spelled _
    have behind := spared.resolve_left (Nat.not_le.mpr t.reach_pos)
    obtain ⟨text, skips, shape⟩ := behind.printed_skips t grammatical
    rw [shape] at spelled
    obtain ⟨last, sooner, ending⟩ := spelled.split
    refine Limited.bind_position (Limited.bind Limited.refuseDepth fun _ r cut => Limited.pure ?_)
    exact .inr ⟨t.reach_pos, behind, last, ending, cut.trans (skips.skipped_eq sooner)⟩
  | succ levels ih =>
    exact SkippingContext.any
      { expr := expression_limited levels
        stmt := ih
        complete := ⟨expression_complete levels, statement_complete levels⟩ }

end MiniC
