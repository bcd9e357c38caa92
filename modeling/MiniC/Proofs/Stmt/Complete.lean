import MiniC.Proofs.Decl.Complete
import MiniC.Proofs.Stmt.Sound

/-!
The tokens that a statement is written with are read back as that statement,
one level below its own for each part of it. The first token of a statement
tells which it is, and no statement starts with a token that goes on with or
ends the one in front of it.
-/

namespace MiniC

open MiniC.Parser
open Written (commas)

structure CompleteContext (inner : StmtContext Parser) (levels : Nat) : Prop where
  expr : CompleteExpr inner.expr levels
  stmt : CompleteStmt inner.stmt levels

namespace CompleteContext

variable {inner : StmtContext Parser} {levels : Nat} (complete : CompleteContext inner levels)
  {s : Stream} {deep : Prop} {text : List Written} {rest : List Lexeme}

include complete

theorem simple (t : Simple) (grammatical : t.Grammatical) :
    Reads inner.simple t.printed (fun kind => kind = .semicolon ∨ kind = .rParen)
      (levels < t.levels) (·.bare = t.bare) := by
  intro s rest spelled follows
  have ends : EndsExpr 1 (frontKind rest) := by
    rcases follows with same | same <;> rw [same] <;> exact endsExpr_of_eq rfl rfl
  refine Succeeds.bind_position ?_
  cases t with
  | expr pos e =>
    refine Succeeds.bind (complete.expr e grammatical s rest spelled ends) ?_
    rintro target middle ⟨same, rfl⟩
    have notAssigned : middle.token.kind ≠ .assign := by
      rw [middle.token_kind]
      rcases follows with same | same <;> rw [same] <;> nofun
    refine Succeeds.bind (Succeeds.accept_other notAssigned) ?_
    rintro _ _ ⟨rfl, rfl⟩
    exact Succeeds.pure ⟨congrArg (Simple.expr .unknown) same, rfl⟩
  | assign pos target value =>
    have readTarget := (complete.expr target grammatical.1).beforeToken spelled
      (endsExpr_of_eq rfl rfl)
    refine Succeeds.bind (readTarget.weaken fun isDeep =>
      Nat.lt_of_lt_of_le isDeep (Nat.le_max_left _ _)) fun foundTarget middle read => ?_
    refine Succeeds.bind (Succeeds.accept read.2) ?_
    rintro _ next ⟨rfl, spelled⟩
    have readValue := complete.expr value grammatical.2 next rest spelled ends
    refine Succeeds.bind (readValue.weaken fun isDeep =>
      Nat.lt_of_lt_of_le isDeep (Nat.le_max_right _ _)) fun found r readValue => ?_
    exact Succeeds.pure ⟨congrArg₂ (Simple.assign .unknown) read.1 readValue.1, readValue.2⟩

theorem header (t : Option Simple) (grammatical : ∀ part ∈ t, part.Grammatical)
    {close : TokenKind} (closes : close = .semicolon ∨ close = .rParen) :
    Reads (inner.header close) (Simple.printedHeader t) (· = close)
      (levels < Simple.headerLevels t)
      (fun found => found.map Simple.bare = t.map Simple.bare) := by
  intro s rest spelled follows
  refine Succeeds.bind_peekKind ?_
  cases t with
  | none =>
    cases spelled
    rw [if_pos (s.token_kind ▸ follows)]
    exact Succeeds.pure ⟨rfl, rfl⟩
  | some part =>
    obtain ⟨written, text, shape, starts⟩ := part.printed_starts (grammatical part rfl)
    have front : s.token.kind = written.kind := by
      rw [Simple.printedHeader, shape] at spelled
      exact s.token_kind ▸ spelled.frontKind_eq
    have other : s.token.kind ≠ close := by
      rw [front]
      rintro rfl
      rcases closes with same | same <;> simp [same, startsExpr] at starts
    rw [if_neg other]
    refine Succeeds.map ((complete.simple part (grammatical part rfl) s rest spelled
      (follows ▸ closes)).mono fun found r read => ⟨?_, read.2⟩)
    simp only [Option.map_some, read.1]

theorem condition (cond : Expr) (grammatical : cond.Grammatical)
    (isDeep : levels < cond.levels → deep)
    (spelled : Spelled (cond.printedCondition ++ text) s.upcoming rest) :
    Succeeds inner.condition s deep fun found r =>
      found.bare = cond.bare ∧ Spelled text r.upcoming rest := by
  rw [Expr.printedCondition, List.append_assoc] at spelled
  refine Succeeds.bind (Succeeds.require spelled) fun _ middle spelled => ?_
  refine Succeeds.bind (((complete.expr cond grammatical).weaken isDeep).beforeToken spelled
    (endsExpr_of_eq rfl rfl)) fun found closing read => ?_
  exact Succeeds.bind (Succeeds.require read.2) fun _ r spelled => Succeeds.pure ⟨read.1, spelled⟩

theorem declStmt (place pos : Position) (v : VarDecl) (grammatical : v.Grammatical) :
    ReadsStmt (inner.declStmt place) (levels + 1) (.decl pos (some v)) := by
  intro s rest spelled _
  have reads : Reads (declaration inner.expr inner.stmt false) v.printed (fun _ => True)
      (levels < v.levels) (·.bare = (Decl.vars pos v).bare) :=
    declaration_vars_complete complete.expr pos v grammatical false _
  have read := reads s rest spelled trivial
  refine Succeeds.bind (read.weaken Nat.succ_lt_succ) fun decl r read => Succeeds.pure ?_
  obtain ⟨same, ended⟩ := read
  cases decl with
  | vars pos found =>
    have sameVars : found.bare = v.bare := (Decl.vars.inj same).2
    exact ⟨congrArg (fun vars => Stmt.decl .unknown (some vars)) sameVars, ended⟩
  | _ => cases same

theorem simpleStmt (t : Simple) (grammatical : t.Grammatical) :
    ReadsStmt inner.simpleStmt (levels + 1) (.simple t) := by
  intro s rest spelled _
  have read := (complete.simple t grammatical).beforeToken spelled (.inl rfl)
  refine Succeeds.bind (read.weaken Nat.succ_lt_succ) fun found middle read => ?_
  refine Succeeds.bind (Succeeds.require read.2) fun _ r ended => Succeeds.pure ?_
  cases ended
  exact ⟨congrArg Stmt.simple read.1, rfl⟩

theorem block (place pos : Position) (body : List Stmt) (grammatical : Stmt.AllGrammatical body) :
    ReadsStmt (inner.block place) (levels + 1) (.block pos body) := by
  intro s rest spelled _
  refine Succeeds.bind (braced_complete complete.stmt grammatical Nat.succ_lt_succ spelled) ?_
  rintro _ r ⟨⟨stmts, rfl, same⟩, ended⟩
  cases ended
  exact Succeeds.pure ⟨congrArg (Stmt.block .unknown) same, rfl⟩

theorem branch_alone (place pos : Position) (cond : Expr) (yes : Stmt)
    (goodCond : cond.Grammatical) (goodYes : yes.Grammatical) :
    ReadsStmt (inner.branch place) (levels + 1) (.branch pos cond yes none) := by
  intro s rest spelled follows
  have notElse := follows rfl
  rw [Stmt.levels]
  refine Succeeds.bind (Succeeds.require spelled) fun _ opening spelled => ?_
  refine Succeeds.bind (complete.condition cond goodCond (fun isDeep => by omega) spelled) ?_
  rintro foundCond middle ⟨sameCond, spelled⟩
  refine Succeeds.bind ((complete.stmt yes goodYes middle rest spelled fun _ => notElse).weaken
    fun isDeep => by omega) ?_
  rintro foundYes r ⟨sameYes, rfl⟩
  refine Succeeds.bind (Succeeds.accept_other (r.token_kind ▸ notElse)) ?_
  rintro _ _ ⟨rfl, rfl⟩
  have same := congrArg₂ (Stmt.branch .unknown · · none) sameCond sameYes
  exact Succeeds.pure ⟨same, rfl⟩

theorem branch_both (place pos : Position) (cond : Expr) (yes no : Stmt)
    (goodCond : cond.Grammatical) (goodYes : yes.Grammatical) (closed : yes.dangles = false)
    (goodNo : no.Grammatical) :
    ReadsStmt (inner.branch place) (levels + 1) (.branch pos cond yes (some no)) := by
  intro s rest spelled follows
  rw [Stmt.printed, List.append_assoc] at spelled
  rw [Stmt.levels]
  refine Succeeds.bind (Succeeds.require spelled) fun _ opening spelled => ?_
  refine Succeeds.bind (complete.condition cond goodCond (fun isDeep => by omega) spelled) ?_
  rintro foundCond middle ⟨sameCond, spelled⟩
  refine Succeeds.bind (((complete.stmt yes goodYes).beforeToken spelled (by simp [closed])).weaken
    fun isDeep => by omega) ?_
  rintro foundYes behind ⟨sameYes, spelled⟩
  refine Succeeds.bind (Succeeds.accept spelled) ?_
  rintro _ next ⟨rfl, spelled⟩
  refine Succeeds.bind ((complete.stmt no goodNo next rest spelled follows).weaken
    fun isDeep => by omega) ?_
  rintro foundNo r ⟨sameNo, ended⟩
  refine Succeeds.pure ⟨?_, ended⟩
  change Stmt.branch .unknown foundCond.bare foundYes.bare (some foundNo.bare) = _
  rw [sameCond, sameYes, sameNo]
  rfl

theorem whileLoop (place pos : Position) (cond : Expr) (body : Stmt)
    (goodCond : cond.Grammatical) (goodBody : body.Grammatical) :
    ReadsStmt (inner.whileLoop place) (levels + 1) (.whileLoop pos cond body) := by
  intro s rest spelled follows
  rw [Stmt.levels]
  refine Succeeds.bind (Succeeds.require spelled) fun _ opening spelled => ?_
  refine Succeeds.bind (complete.condition cond goodCond (fun isDeep => by omega) spelled) ?_
  rintro foundCond middle ⟨sameCond, spelled⟩
  refine Succeeds.bind ((complete.stmt body goodBody middle rest spelled follows).weaken
    fun isDeep => by omega) ?_
  rintro foundBody r ⟨sameBody, ended⟩
  exact Succeeds.pure ⟨congrArg₂ (Stmt.whileLoop .unknown) sameCond sameBody, ended⟩

theorem forLoop (place pos : Position) (init cond next : Option Simple) (body : Stmt)
    (grammatical : (Stmt.forLoop pos init cond next body).Grammatical) :
    ReadsStmt (inner.forLoop place) (levels + 1) (.forLoop pos init cond next body) := by
  intro s rest spelled follows
  obtain ⟨goodInit, goodCond, goodNext, goodBody⟩ := grammatical
  rw [Stmt.printed, List.append_assoc, List.append_assoc] at spelled
  rw [Stmt.levels]
  refine Succeeds.bind (Succeeds.require spelled) fun _ _ spelled => ?_
  refine Succeeds.bind (Succeeds.require spelled) fun _ _ spelled => ?_
  have readInit := (complete.header init goodInit (.inl rfl)).beforeToken spelled rfl
  refine Succeeds.bind (readInit.weaken fun isDeep => by omega) ?_
  rintro foundInit _ ⟨sameInit, spelled⟩
  refine Succeeds.bind (Succeeds.require spelled) fun _ _ spelled => ?_
  have readCond := (complete.header cond goodCond (.inl rfl)).beforeToken spelled rfl
  refine Succeeds.bind (readCond.weaken fun isDeep => by omega) ?_
  rintro foundCond _ ⟨sameCond, spelled⟩
  refine Succeeds.bind (Succeeds.require spelled) fun _ _ spelled => ?_
  have readNext := (complete.header next goodNext (.inr rfl)).beforeToken spelled rfl
  refine Succeeds.bind (readNext.weaken fun isDeep => by omega) ?_
  rintro foundNext _ ⟨sameNext, spelled⟩
  refine Succeeds.bind (Succeeds.require spelled) fun _ middle spelled => ?_
  have readBody := complete.stmt body goodBody middle rest spelled follows
  refine Succeeds.bind (readBody.weaken fun isDeep => by omega) ?_
  rintro foundBody r ⟨sameBody, ended⟩
  refine Succeeds.pure ⟨?_, ended⟩
  change Stmt.forLoop .unknown (foundInit.map Simple.bare) (foundCond.map Simple.bare)
    (foundNext.map Simple.bare) foundBody.bare = _
  rw [sameInit, sameCond, sameNext, sameBody]
  rfl

theorem print (place pos : Position) (args : List Expr)
    (grammatical : ∀ arg ∈ args, arg.Grammatical) :
    ReadsStmt (inner.print place) (levels + 1) (.print pos args) := by
  intro s rest spelled _
  refine Succeeds.bind (Succeeds.require spelled) fun _ _ spelled => ?_
  refine Succeeds.bind (Succeeds.require spelled) fun _ _ spelled => ?_
  refine Succeeds.bind (((complete.expr.args grammatical).beforeToken spelled rfl).weaken
    Nat.succ_lt_succ) ?_
  rintro found _ ⟨same, spelled⟩
  refine Succeeds.bind (Succeeds.require spelled) fun _ _ spelled => ?_
  refine Succeeds.bind (Succeeds.require spelled) fun _ r ended => Succeeds.pure ?_
  cases ended
  rw [Expr.bareAll_eq_map, Expr.bareAll_eq_map] at same
  exact ⟨congrArg (Stmt.print .unknown) same, rfl⟩

theorem scan (place pos : Position) (target : Expr) (grammatical : target.Grammatical) :
    ReadsStmt (inner.scan place) (levels + 1) (.scan pos target) := by
  intro s rest spelled _
  refine Succeeds.bind (Succeeds.require spelled) fun _ _ spelled => ?_
  refine Succeeds.bind (complete.condition target grammatical Nat.succ_lt_succ spelled) ?_
  rintro found _ ⟨same, spelled⟩
  refine Succeeds.bind (Succeeds.require spelled) fun _ r ended => Succeeds.pure ?_
  cases ended
  exact ⟨congrArg (Stmt.scan .unknown) same, rfl⟩

omit complete in
theorem ret_alone (place pos : Position) :
    ReadsStmt (inner.ret place) (levels + 1) (.ret pos none) := by
  intro s rest spelled _
  refine Succeeds.bind (Succeeds.require spelled) fun _ middle spelled => ?_
  refine Succeeds.bind_peekKind ?_
  rw [if_pos (Succeeds.token_spells spelled).1]
  refine Succeeds.bind_pure (Succeeds.bind (Succeeds.require spelled) fun _ r ended => ?_)
  cases ended
  exact Succeeds.pure ⟨rfl, rfl⟩

theorem ret_value (place pos : Position) (value : Expr) (grammatical : value.Grammatical) :
    ReadsStmt (inner.ret place) (levels + 1) (.ret pos (some value)) := by
  intro s rest spelled _
  refine Succeeds.bind (Succeeds.require spelled) fun _ middle spelled => ?_
  obtain ⟨written, text, shape, starts, _⟩ := value.printed_starts grammatical
  have other : middle.token.kind ≠ .semicolon := by
    have front := spelled
    rw [List.append_eq, shape] at front
    rw [middle.token_kind, front.frontKind_eq]
    exact fun same => by simp [same, startsExpr] at starts
  refine Succeeds.bind_peekKind ?_
  rw [if_neg other]
  have read := (complete.expr value grammatical).beforeToken spelled (endsExpr_of_eq rfl rfl)
  have valued : Succeeds (some <$> inner.expr) middle
      (levels + 1 < (Stmt.ret pos (some value)).levels) fun found r =>
        found.map Expr.bare = some value.bare ∧ Spelled [.symbol .semicolon] r.upcoming rest :=
    Succeeds.map ((read.weaken Nat.succ_lt_succ).mono fun found r read =>
      ⟨congrArg some read.1, read.2⟩)
  refine Succeeds.bind valued fun found _ read => ?_
  refine Succeeds.bind (Succeeds.require read.2) fun _ r ended => Succeeds.pure ?_
  cases ended
  exact ⟨congrArg (Stmt.ret .unknown) read.1, rfl⟩

theorem label (label : Option Expr) (grammatical : ∀ e ∈ label, e.Grammatical)
    (isDeep : levels < Expr.initLevels label → deep)
    (spelled : Spelled (Expr.printedLabel label ++ text) s.upcoming rest) :
    Succeeds inner.label s deep fun found r => found.map Expr.bare = label.map Expr.bare ∧
      Spelled (.symbol .colon :: text) r.upcoming rest := by
  cases label with
  | none =>
    refine Succeeds.bind (Succeeds.accept spelled) ?_
    rintro _ middle ⟨rfl, spelled⟩
    exact Succeeds.pure ⟨rfl, spelled⟩
  | some e =>
    rw [Expr.printedLabel, List.append_assoc] at spelled
    have isCase : s.token.kind = .caseKw := (Succeeds.token_spells spelled).1
    refine Succeeds.bind (Succeeds.accept_other (by rw [isCase]; decide)) ?_
    rintro _ _ ⟨rfl, rfl⟩
    refine Succeeds.bind (Succeeds.require spelled) fun _ middle spelled => ?_
    have read := (complete.expr e (grammatical e rfl)).beforeToken spelled
      (endsExpr_of_eq rfl rfl)
    exact Succeeds.map ((read.weaken isDeep).mono fun found r read =>
      ⟨congrArg some read.1, read.2⟩)

open StmtContext (endsClause)

theorem clause (t : Stmt) (isClause : t.IsClause) :
    Reads inner.clause t.printed (endsClause · = true) (levels < t.levels)
      (·.bare = t.bare) := by
  intro s rest spelled follows
  cases t with
  | clause pos label body =>
    refine Succeeds.bind_position ?_
    rw [Stmt.levels]
    refine Succeeds.bind (complete.label label isClause.1 (fun isDeep => by omega) spelled) ?_
    rintro foundLabel _ ⟨sameLabel, spelled⟩
    refine Succeeds.bind (Succeeds.require spelled) fun _ middle spelled => ?_
    have goesOn : ∀ kind, startsStmt kind = true → (!endsClause kind) = true :=
      fun kind starts => by cases kind <;> first | rfl | exact absurd starts (by decide)
    have readBody := stmts_complete complete.stmt _ goesOn isClause.2 middle rest spelled
      ⟨by simp [follows], fun isElse => by simp [isElse, endsClause] at follows⟩
    refine Succeeds.bind (readBody.weaken fun isDeep => by omega) ?_
    rintro found r ⟨sameBody, ended⟩
    exact Succeeds.pure ⟨congrArg₂ (Stmt.clause .unknown) sameLabel sameBody, ended⟩
  | _ => exact isClause.elim

theorem clause? {t : Stmt} (isClause : t.IsClause) :
    Reads inner.clause? t.printed (endsClause · = true) (levels < t.levels)
      (fun found => ∃ clause, found = some clause ∧ clause.bare = t.bare) := by
  intro s rest spelled follows
  obtain ⟨written, text, shape, starts⟩ := isClause.printed_starts
  have front : s.token.kind = written.kind := by
    rw [shape] at spelled
    exact s.token_kind ▸ spelled.frontKind_eq
  have read : Succeeds (some <$> inner.clause) s (levels < t.levels) fun found r =>
      (∃ clause, found = some clause ∧ clause.bare = t.bare) ∧ r.upcoming = rest :=
    Succeeds.map ((complete.clause t isClause s rest spelled follows).mono fun clause r read =>
      ⟨⟨clause, rfl, read.1⟩, read.2⟩)
  refine Succeeds.bind_peekKind ?_
  rcases starts with isCase | isDefault
  · simpa only [front, isCase] using read
  · simpa only [front, isDefault] using read

omit complete in
theorem bareAll_of_clauses {given : List Stmt} {found : List (Option Stmt)}
    (same : List.Forall₂ (fun t found => ∃ clause, found = some clause ∧ clause.bare = t.bare)
      given found) :
    Stmt.bareAll (found.filterMap id) = Stmt.bareAll given := by
  induction same with
  | nil => rfl
  | cons first _ ih =>
    obtain ⟨clause, rfl, same⟩ := first
    exact congrArg₂ List.cons same ih

theorem switch (place pos : Position) (subject : Expr) (clauses : List Stmt)
    (goodSubject : subject.Grammatical) (areClauses : Stmt.AllClauses clauses) :
    ReadsStmt (inner.switch place) (levels + 1) (.switch pos subject clauses) := by
  intro s rest spelled _
  rw [Stmt.allClauses_iff] at areClauses
  have loop : Reads (manyWhile (· ≠ .rBrace) inner.clause?) (clauses.flatMap Stmt.printed)
      (· = .rBrace) (levels < Stmt.mostLevels clauses)
      (List.Forall₂ (fun t found => ∃ clause, found = some clause ∧ clause.bare = t.bare)
        clauses) := by
    refine Reads.manyWhile (E := fun _ kind => endsClause kind = true) clauses ?_ ?_ ?_
    · intro t member
      exact (complete.clause? (areClauses t member)).weaken fun isDeep =>
        Nat.lt_of_lt_of_le isDeep (Stmt.levels_le_mostLevels member)
    · intro t member
      obtain ⟨written, text, shape, starts⟩ := (areClauses t member).printed_starts
      refine ⟨written, text, shape, ?_⟩
      rcases starts with same | same <;> rw [same] <;> exact ⟨rfl, nofun, fun _ _ => rfl⟩
    · rintro _ rfl
      exact ⟨rfl, fun _ _ => rfl⟩
  rw [Stmt.printed, List.append_assoc] at spelled
  rw [Stmt.levels]
  refine Succeeds.bind (Succeeds.require spelled) fun _ _ spelled => ?_
  refine Succeeds.bind (complete.condition subject goodSubject (fun isDeep => by omega) spelled) ?_
  rintro foundSubject _ ⟨sameSubject, spelled⟩
  refine Succeeds.bind (Succeeds.require spelled) fun _ _ spelled => ?_
  rw [Stmt.printedAll_eq] at spelled
  refine Succeeds.bind ((loop.beforeToken spelled rfl).weaken fun isDeep => by omega) ?_
  rintro found _ ⟨sameClauses, spelled⟩
  refine Succeeds.bind (Succeeds.require spelled) fun _ r ended => Succeeds.pure ?_
  cases ended
  have same := congrArg₂ (Stmt.switch .unknown) sameSubject (bareAll_of_clauses sameClauses)
  exact ⟨same, rfl⟩

omit complete in
theorem any_simple {Q : Stmt → Stream → Prop} (starts : startsExpr s.token.kind = true)
    (succeeds : Succeeds inner.simpleStmt s deep Q) : Succeeds inner.any s deep Q := by
  refine Succeeds.bind_peek ?_
  dsimp only
  generalize s.token.kind = kind at starts
  cases kind <;> first | exact succeeds | exact absurd starts (by decide)

omit complete in
theorem any_decl {Q : Stmt → Stream → Prop} {v : VarDecl}
    (spelled : Spelled v.printed s.upcoming rest)
    (succeeds : Succeeds (inner.declStmt s.token.pos) s deep Q) : Succeeds inner.any s deep Q := by
  refine Succeeds.bind_peek ?_
  dsimp only
  rw [s.token_kind]
  cases isConst : v.isConst with
  | true =>
    rw [VarDecl.printed, isConst] at spelled
    rw [spelled.frontKind_eq]
    exact succeeds
  | false =>
    rw [VarDecl.printed, isConst] at spelled
    rw [spelled.frontKind_eq]
    cases v.base <;> exact succeeds

theorem any : CompleteStmt inner.any (levels + 1) := by
  intro t grammatical s rest spelled follows
  -- the first token of a statement decides how it is read
  cases t with
  | bad | clause => exact grammatical.elim
  | decl pos vars =>
    cases vars with
    | none => exact grammatical.elim
    | some v =>
      exact any_decl spelled (complete.declStmt _ pos v grammatical s rest spelled follows)
  | simple t =>
    obtain ⟨written, text, shape, starts⟩ := t.printed_starts grammatical
    have front : s.token.kind = written.kind := by
      have spelled := spelled
      rw [Stmt.printed, shape] at spelled
      exact s.token_kind ▸ spelled.frontKind_eq
    exact any_simple (front ▸ starts) (complete.simpleStmt t grammatical s rest spelled follows)
  | empty pos =>
    refine Succeeds.bind_peek ?_
    simp only [(Succeeds.token_spells spelled).1]
    refine Succeeds.bind (Succeeds.advance spelled) fun _ r ended => ?_
    cases ended
    exact Succeeds.pure ⟨rfl, rfl⟩
  | ret pos value =>
    refine Succeeds.bind_peek ?_
    cases value with
    | none =>
      simp only [(Succeeds.token_spells spelled).1]
      exact ret_alone _ pos s rest spelled follows
    | some value =>
      simp only [(Succeeds.token_spells spelled).1]
      exact complete.ret_value _ pos value (grammatical value rfl) s rest spelled follows
  | branch pos cond yes no =>
    refine Succeeds.bind_peek ?_
    cases no with
    | none =>
      simp only [(Succeeds.token_spells spelled).1]
      exact complete.branch_alone _ pos cond yes grammatical.1 grammatical.2 s rest spelled follows
    | some no =>
      obtain ⟨goodCond, goodYes, closed, goodNo⟩ := grammatical
      simp only [(Succeeds.token_spells spelled).1]
      exact complete.branch_both _ pos cond yes no goodCond goodYes closed goodNo s rest spelled
        follows
  | block pos body =>
    refine Succeeds.bind_peek ?_
    simp only [(Succeeds.token_spells spelled).1]
    exact complete.block _ pos body grammatical s rest spelled follows
  | switch pos subject clauses =>
    refine Succeeds.bind_peek ?_
    simp only [(Succeeds.token_spells spelled).1]
    exact complete.switch _ pos subject clauses grammatical.1 grammatical.2 s rest spelled follows
  | forLoop pos init cond next body =>
    refine Succeeds.bind_peek ?_
    simp only [(Succeeds.token_spells spelled).1]
    exact complete.forLoop _ pos init cond next body grammatical s rest spelled follows
  | whileLoop pos cond body =>
    refine Succeeds.bind_peek ?_
    simp only [(Succeeds.token_spells spelled).1]
    exact complete.whileLoop _ pos cond body grammatical.1 grammatical.2 s rest spelled follows
  | scan pos target =>
    refine Succeeds.bind_peek ?_
    simp only [(Succeeds.token_spells spelled).1]
    exact complete.scan _ pos target grammatical s rest spelled follows
  | print pos args =>
    refine Succeeds.bind_peek ?_
    simp only [(Succeeds.token_spells spelled).1]
    exact complete.print _ pos args grammatical s rest spelled follows

end CompleteContext

theorem statement_complete (levels : Nat) : CompleteStmt (statement levels) levels := by
  induction levels with
  | zero =>
    intro t grammatical s rest _ _
    exact Succeeds.bind_position (Succeeds.refuseDepth (t.levels_pos grammatical))
  | succ levels ih => exact CompleteContext.any ⟨expression_complete levels, ih⟩

theorem topLevelDecl_complete (decl : Decl) (grammatical : decl.Grammatical)
    (follow : TokenKind → Prop) :
    Reads topLevelDecl decl.printed follow (maxNesting < decl.levels) (·.bare = decl.bare) := by
  cases decl with
  | bad => exact grammatical.elim
  | func pos f => exact declaration_func_complete (statement_complete _) pos f grammatical follow
  | vars pos v =>
    exact declaration_vars_complete (expression_complete _) pos v grammatical true follow

/-- The loop over a file ends with the tokens and not in front of a token. -/
theorem decls_complete (decls : List Decl) (grammatical : ∀ decl ∈ decls, decl.Grammatical)
    (s : Stream) (spelled : Spelled (decls.flatMap Decl.printed) s.upcoming []) :
    Succeeds (manyWhile (fun _ => true) topLevelDecl) s (∃ decl ∈ decls, maxNesting < decl.levels)
      fun found r => found.map Decl.bare = decls.map Decl.bare ∧ r.upcoming = [] := by
  induction decls generalizing s with
  | nil =>
    -- the loop takes every token, so it stops only at the end
    have ended : s.upcoming = [] := List.length_eq_zero_iff.mp spelled.length_eq
    refine Succeeds.manyWhile_stop ?_ ⟨rfl, ended⟩
    simp [takes, s.remaining_eq, ended]
  | cons decl later ih =>
    obtain ⟨good, others⟩ := List.forall_mem_cons.mp grammatical
    obtain ⟨written, text, shape, present⟩ := Decl.printed_starts good
    have front : s.token.kind = written.kind := by
      rw [List.flatMap_cons, shape] at spelled
      exact s.token_kind ▸ spelled.frontKind_eq
    rw [List.flatMap_cons] at spelled
    have first := (topLevelDecl_complete decl good fun _ => True).before spelled fun _ _ => trivial
    refine Succeeds.manyWhile_step
      (P := fun found r => found.bare = decl.bare ∧
        Spelled (later.flatMap Decl.printed) r.upcoming [])
      (takes_of_kind (front ▸ present) rfl)
      ((first.weaken fun isDeep => ⟨decl, List.mem_cons_self, isDeep⟩).mono fun found r read =>
        ⟨read, ?_⟩) ?_
    · rw [shape] at spelled
      exact spelled.remaining_lt read.2
    · rintro found r ⟨same, spelled⟩
      refine ((ih others r spelled).weaken ?_).mono fun more _ read => ⟨?_, read.2⟩
      · rintro ⟨deepest, member, isDeep⟩
        exact ⟨deepest, List.mem_cons_of_mem _ member, isDeep⟩
      · rw [List.map_cons, List.map_cons, same, read.1]

/-- The text of a file, with nothing behind it, is read as that file. -/
theorem fileParser_complete (name : String) (lineCount : Nat) (file : File)
    (grammatical : file.Grammatical) (s : Stream) (spelled : Spelled file.printed s.upcoming []) :
    Succeeds (fileParser name lineCount) s (maxNesting < file.levels) fun found r =>
      found.decls.map Decl.bare = file.decls.map Decl.bare ∧ r.upcoming = [] := by
  have loop := (decls_complete file.decls grammatical s spelled).weaken
    fun ⟨_, member, isDeep⟩ => Nat.lt_of_lt_of_le isDeep (File.decl_levels_le member)
  refine Succeeds.bind loop fun found r read => ?_
  refine Succeeds.bind Succeeds.remark_parsedFile ?_
  rintro _ _ rfl
  exact Succeeds.pure read

end MiniC
