import MiniC.Compilation
import MiniC.Proofs.Expr.Nested

/-!
How deep the declarations and statements are that are read within some levels.
A statement takes a level, but neither its clauses nor the statements in its
header take one of their own; an initializer starts on the level of its
declaration.
-/

namespace MiniC

open MiniC.Parser

/-- How deep a declaration is whose parts are read within so many levels. -/
structure Decl.Within (n : Nat) (decl : Decl) : Prop where
  levels : decl.levels ≤ n
  height : decl.height ≤ triangle n + 1

theorem Decl.Within.bad (n : Nat) (pos : Position) : (Decl.bad pos).Within n :=
  ⟨Nat.zero_le _, Nat.zero_le _⟩

/-- An initializer, which may be a composite literal. -/
structure Declarator.Within (n : Nat) (d : Declarator) : Prop where
  levels : Expr.initLevels d.init ≤ n
  height : Expr.initHeight d.init ≤ triangle n + 1

theorem Decl.Within.vars {n : Nat} {v : VarDecl} (within : ∀ d ∈ v.declarators, d.Within n)
    (pos : Position) : (Decl.vars pos v).Within n :=
  ⟨foldr_max_le fun d member => (within d member).levels,
    foldr_max_le fun d member => (within d member).height⟩

theorem Stmt.allWithin {n : Nat} {stmts : List Stmt} (within : ∀ s ∈ stmts, s.Within n) :
    mostLevels stmts ≤ n ∧ greatestHeight stmts ≤ triangle n + 1 :=
  ⟨mostLevels_le fun s member => (within s member).levels,
    greatestHeight_le fun s member => (within s member).height⟩

theorem Decl.Within.func {n : Nat} {f : FuncDecl} (within : ∀ s ∈ f.body, s.Within n)
    (pos : Position) : (Decl.func pos f).Within n :=
  ⟨(Stmt.allWithin within).1, (Stmt.allWithin within).2⟩

section Declaration

variable {n : Nat} {expr : Parser Expr} {stmt : Parser Stmt}
  (exprs : Nests expr (Expr.Within n)) (stmts : Nests stmt (Stmt.Within n))

section Vars

include exprs

theorem declarator_nests (name : Name) :
    Nests (declarator expr name) (Declarator.Within n) := by
  apply Nests.after
  intro sizes
  have init : Nests (initializer expr) fun e =>
      Expr.initLevels e ≤ n ∧ Expr.initHeight e ≤ triangle n + 1 := by
    apply Nests.after
    intro isAssigned
    apply Nests.ite
    · intro _
      apply Nests.after
      intro kind
      apply Nests.ite
      · intro _
        apply Nests.map
        apply compositeLiteral_nests.mono
        rintro e ⟨levels, height⟩
        exact ⟨Nat.le_trans (Nat.le_of_eq levels) (Nat.zero_le n), Nat.le_add_left_of_le height⟩
      · intro _
        apply Nests.map
        apply exprs.mono
        rintro e ⟨levels, height⟩
        exact ⟨levels, Nat.le_succ_of_le (Nat.le_of_lt height)⟩
    · exact fun _ => Nests.pure ⟨Nat.zero_le _, Nat.zero_le _⟩
  apply Nests.bind init
  rintro e ⟨levels, height⟩
  exact Nests.pure ⟨levels, height⟩

theorem declarators_nest (first : Name) :
    Nests (declarators expr first) fun list => ∀ d ∈ list, d.Within n := by
  apply Nests.bind (declarator_nests exprs first)
  intro head isHead
  apply Nests.bind (Nests.manyWhile _ (Nests.after fun _ => Nests.after (declarator_nests exprs)))
  intro later areLater
  exact Nests.after fun _ => Nests.pure (List.forall_mem_cons.mpr ⟨isHead, areLater⟩)

end Vars

section Func

include stmts

theorem braced_nests :
    Nests (braced stmt) fun body => ∀ list ∈ body, ∀ s ∈ list, s.Within n := by
  apply Nests.after
  intro _
  apply Nests.bind (Nests.manyWhile _ stmts)
  intro body within
  apply Nests.after
  intro kind
  apply Nests.ite
  · exact fun _ => Nests.after fun _ => Nests.pure nofun
  · intro _
    apply Nests.after
    intro _
    apply Nests.pure
    rintro list ⟨⟩
    exact within

theorem function_nests (returns : Ty) (returnsPos : Position) (name : Name) :
    Nests (function stmt returns returnsPos name) fun func =>
      ∀ f ∈ func, ∀ s ∈ f.body, s.Within n := by
  apply Nests.after
  intro params
  apply Nests.after
  intro bodyPos
  apply Nests.bind (braced_nests stmts)
  intro body within
  apply Nests.after
  intro _
  apply Nests.pure
  intro f isFunc
  obtain ⟨list, isBody, rfl⟩ := Option.map_eq_some_iff.mp isFunc
  exact within list isBody

end Func

include exprs stmts

theorem declaration_nests (isTopLevel : Bool) :
    Nests (declaration expr stmt isTopLevel) (Decl.Within n) := by
  apply Nests.after
  intro start
  have bad : Nests (pure (.bad start)) (Decl.Within n) := Nests.pure (.bad n start)
  apply Nests.after
  intro isConst
  apply Nests.after
  intro head
  split
  · exact Nests.after fun _ => Nests.after fun _ => bad
  · next base _ =>
    apply Nests.after
    intro _
    apply Nests.after
    intro name
    apply Nests.after
    intro kind
    apply Nests.ite
    · intro _
      apply Nests.bind (function_nests stmts base head.pos name)
      intro func within
      apply Nests.ite
      · exact fun _ => Nests.after fun _ => bad
      · intro _
        apply Nests.ite
        · exact fun _ => Nests.after fun _ => bad
        · intro _
          cases func with
          | none => exact bad
          | some f => exact Nests.pure (.func (within f rfl) start)
    · intro _
      apply Nests.bind (declarators_nest exprs name)
      intro list within
      apply Nests.ite
      · exact fun _ => Nests.after fun _ => bad
      · exact fun _ => Nests.pure (.vars within start)

end Declaration

namespace StmtContext

variable {n : Nat} {inner : StmtContext Parser} (exprs : Nests inner.expr (Expr.Within n))
  (stmts : Nests inner.stmt (Stmt.Within n))

/-- A statement stands one level above what it holds. -/
theorem within_above {s : Stmt} {levels height : Nat} (hasLevels : s.levels = levels + 1)
    (hasHeight : s.height = height + 1) (below : levels ≤ n)
    (low : height ≤ triangle n + n + 1) : s.Within (n + 1) :=
  ⟨Nat.succ_pos n, hasLevels ▸ Nat.succ_le_succ below, hasHeight ▸ Nat.succ_le_succ low⟩

theorem within_leaf {s : Stmt} (levels : s.levels ≤ 1) (height : s.height = 1) :
    s.Within (n + 1) :=
  ⟨Nat.succ_pos n, Nat.le_add_left_of_le levels,
    Nat.le_trans (Nat.le_of_eq height) (Nat.le_add_left 1 _)⟩

section Exprs

include exprs

theorem some_nests : Nests (some <$> inner.expr) fun e =>
    Expr.initLevels e ≤ n ∧ Expr.initHeight e ≤ triangle n :=
  Nests.map (exprs.mono fun _ within => ⟨within.levels, Nat.le_of_lt within.height⟩)

theorem simple_nests : Nests inner.simple fun s => s.levels ≤ n ∧ s.height ≤ triangle n := by
  apply Nests.after
  intro pos
  apply Nests.bind exprs
  intro target within
  apply Nests.after
  intro isAssigned
  apply Nests.ite
  · intro _
    apply Nests.bind exprs
    intro value isWithin
    apply Nests.pure
    constructor
    · exact Nat.max_le.mpr ⟨within.levels, isWithin.levels⟩
    · exact Nat.succ_le_of_lt (Nat.max_lt.mpr ⟨within.height, isWithin.height⟩)
  · exact fun _ => Nests.pure ⟨within.levels, within.height⟩

theorem header_nests (close : TokenKind) :
    Nests (inner.header close) fun s =>
      Simple.headerLevels s ≤ n ∧ Simple.headerHeight s ≤ triangle n := by
  apply Nests.after
  intro kind
  apply Nests.ite
  · exact fun _ => Nests.pure ⟨Nat.zero_le _, Nat.zero_le _⟩
  · exact fun _ => Nests.map (simple_nests exprs)

theorem condition_nests : Nests inner.condition (Expr.Within n) := by
  apply Nests.after
  intro _
  apply Nests.bind exprs
  exact fun cond within => Nests.after fun _ => Nests.pure within

theorem simpleStmt_nests : Nests inner.simpleStmt (Stmt.Within (n + 1)) := by
  apply Nests.bind (simple_nests exprs)
  rintro s ⟨levels, height⟩
  apply Nests.after
  intro _
  apply Nests.pure
  constructor
  · exact Nat.succ_pos n
  · exact Nat.succ_le_succ levels
  · exact Nat.le_add_right_of_le (Nat.le_add_right_of_le height)

theorem print_nests (pos : Position) : Nests (inner.print pos) (Stmt.Within (n + 1)) := by
  apply Nests.after
  intro _
  apply Nests.after
  intro _
  apply Nests.bind (Nests.commaList _ exprs)
  intro args within
  have levels := Expr.mostLevels_le fun e member => (within e member).levels
  have height := Expr.greatestHeight_le fun e member => Nat.le_of_lt (within e member).height
  apply Nests.after
  intro _
  apply Nests.after
  intro _
  apply Nests.pure
  exact within_above rfl rfl levels (by omega)

theorem scan_nests (pos : Position) : Nests (inner.scan pos) (Stmt.Within (n + 1)) := by
  apply Nests.after
  intro _
  apply Nests.bind (condition_nests exprs)
  rintro target ⟨levels, height⟩
  apply Nests.after
  intro _
  apply Nests.pure
  exact within_above rfl rfl levels (by omega)

theorem ret_nests (pos : Position) : Nests (inner.ret pos) (Stmt.Within (n + 1)) := by
  have ends (value : Option Expr) (levels : Expr.initLevels value ≤ n)
      (height : Expr.initHeight value ≤ triangle n) :
      Nests (do require .semicolon; pure (Stmt.ret pos value)) (Stmt.Within (n + 1)) := by
    apply Nests.after
    intro _
    apply Nests.pure
    exact within_above rfl rfl levels (by omega)
  apply Nests.after
  intro _
  apply Nests.after
  intro kind
  apply Nests.ite
  · exact fun _ => ends none (Nat.zero_le n) (Nat.zero_le _)
  · intro _
    apply Nests.bind (some_nests exprs)
    rintro value ⟨levels, height⟩
    exact ends value levels height

theorem label_nests : Nests inner.label fun e =>
    Expr.initLevels e ≤ n ∧ Expr.initHeight e ≤ triangle n := by
  apply Nests.after
  intro isDefault
  apply Nests.ite
  · exact fun _ => Nests.pure ⟨Nat.zero_le _, Nat.zero_le _⟩
  · exact fun _ => Nests.after fun _ => some_nests exprs

end Exprs

section Stmts

include stmts

theorem block_nests (pos : Position) : Nests (inner.block pos) (Stmt.Within (n + 1)) := by
  apply Nests.bind (braced_nests stmts)
  intro body within
  apply Nests.pure
  cases body with
  | none => exact within_leaf (Nat.zero_le 1) rfl
  | some list =>
    obtain ⟨levels, height⟩ := Stmt.allWithin (within list rfl)
    exact within_above rfl rfl levels (by omega)

end Stmts

include exprs stmts

theorem declStmt_nests (pos : Position) : Nests (inner.declStmt pos) (Stmt.Within (n + 1)) := by
  apply Nests.bind (declaration_nests exprs stmts false)
  rintro decl ⟨levels, height⟩
  apply Nests.pure
  cases decl with
  | vars _ v => exact within_above rfl rfl levels (Nat.le_trans height (by omega))
  | _ => exact within_leaf (Nat.zero_le 1) rfl

theorem branch_nests (pos : Position) : Nests (inner.branch pos) (Stmt.Within (n + 1)) := by
  apply Nests.after
  intro _
  apply Nests.bind (condition_nests exprs)
  rintro cond ⟨condLevels, condHeight⟩
  apply Nests.bind stmts
  rintro yes ⟨_, yesLevels, yesHeight⟩
  apply Nests.after
  intro isElse
  apply Nests.ite
  · intro _
    apply Nests.bind stmts
    rintro no ⟨_, noLevels, noHeight⟩
    apply Nests.pure
    exact within_above rfl rfl (by omega) (by omega)
  · intro _
    apply Nests.pure
    exact within_above rfl rfl (by omega) (by omega)

theorem whileLoop_nests (pos : Position) : Nests (inner.whileLoop pos) (Stmt.Within (n + 1)) := by
  apply Nests.after
  intro _
  apply Nests.bind (condition_nests exprs)
  rintro cond ⟨condLevels, condHeight⟩
  apply Nests.bind stmts
  rintro body ⟨_, levels, height⟩
  apply Nests.pure
  exact within_above rfl rfl (by omega) (by omega)

theorem forLoop_nests (pos : Position) : Nests (inner.forLoop pos) (Stmt.Within (n + 1)) := by
  apply Nests.after
  intro _
  apply Nests.after
  intro _
  apply Nests.bind (header_nests exprs _)
  rintro init ⟨initLevels, initHeight⟩
  apply Nests.after
  intro _
  apply Nests.bind (header_nests exprs _)
  rintro cond ⟨condLevels, condHeight⟩
  apply Nests.after
  intro _
  apply Nests.bind (header_nests exprs _)
  rintro next ⟨nextLevels, nextHeight⟩
  apply Nests.after
  intro _
  apply Nests.bind stmts
  rintro body ⟨_, levels, height⟩
  apply Nests.pure
  exact within_above rfl rfl (by omega) (by omega)

/-- A clause stands on the level of its statements. -/
theorem clause_nests : Nests inner.clause fun s => s.levels ≤ n ∧ s.height ≤ triangle n + 2 := by
  apply Nests.after
  intro pos
  apply Nests.bind (label_nests exprs)
  rintro label ⟨labelLevels, labelHeight⟩
  apply Nests.after
  intro _
  apply Nests.bind (Nests.manyWhile _ stmts)
  intro body within
  obtain ⟨levels, height⟩ := Stmt.allWithin within
  apply Nests.pure
  constructor
  · exact Nat.max_le.mpr ⟨labelLevels, levels⟩
  · exact Nat.succ_le_succ (Nat.max_le.mpr ⟨Nat.le_succ_of_le labelHeight, height⟩)

theorem clause?_nests : Nests inner.clause? fun found =>
    ∀ s ∈ found, s.levels ≤ n ∧ s.height ≤ triangle n + 2 := by
  have clause : Nests (some <$> inner.clause) fun found =>
      ∀ s ∈ found, s.levels ≤ n ∧ s.height ≤ triangle n + 2 := by
    apply Nests.map
    apply (clause_nests exprs stmts).mono
    rintro s within t ⟨⟩
    exact within
  apply Nests.after
  intro kind
  split
  · exact clause
  · exact clause
  · exact Nests.after fun _ => Nests.after fun _ => Nests.pure nofun

theorem switch_nests (pos : Position) : Nests (inner.switch pos) (Stmt.Within (n + 1)) := by
  apply Nests.after
  intro _
  apply Nests.bind (condition_nests exprs)
  intro subject within
  have positive := within.positive
  obtain ⟨subjectLevels, subjectHeight⟩ := within
  apply Nests.after
  intro _
  apply Nests.bind (Nests.manyWhile _ (clause?_nests exprs stmts))
  intro clauses areWithin
  -- what is read instead of a clause is left out
  have each : ∀ s ∈ clauses.filterMap id, s.levels ≤ n ∧ s.height ≤ triangle n + 2 := by
    intro s member
    obtain ⟨found, isClause, same⟩ := List.mem_filterMap.mp member
    exact areWithin found isClause s same
  have levels := Stmt.mostLevels_le fun s member => (each s member).1
  have height := Stmt.greatestHeight_le fun s member => (each s member).2
  apply Nests.after
  intro _
  apply Nests.pure
  exact within_above rfl rfl (by omega) (by omega)

theorem any_nests : Nests inner.any (Stmt.Within (n + 1)) := by
  apply Nests.after
  intro token
  dsimp only
  split
  case h_1 | h_2 | h_3 | h_4 => exact declStmt_nests exprs stmts _
  case h_5 | h_6 | h_7 | h_8 | h_9 | h_10 | h_11 | h_12 => exact simpleStmt_nests exprs
  case h_13 => exact branch_nests exprs stmts _
  case h_14 => exact whileLoop_nests exprs stmts _
  case h_15 => exact forLoop_nests exprs stmts _
  case h_16 => exact switch_nests exprs stmts _
  case h_17 => exact block_nests stmts _
  case h_18 => exact print_nests exprs _
  case h_19 => exact scan_nests exprs _
  case h_20 => exact ret_nests exprs _
  case h_21 => exact Nests.after fun _ => Nests.pure (within_leaf (Nat.le_refl 1) rfl)
  case h_22 | h_23 => exact Nests.after fun _ => Nests.pure (within_leaf (Nat.zero_le 1) rfl)
  case h_24 =>
    exact Nests.after fun _ => Nests.after fun _ => Nests.pure (within_leaf (Nat.zero_le 1) rfl)

end StmtContext

theorem statement_nests (n : Nat) : Nests (statement n) (Stmt.Within n) := by
  induction n with
  | zero => exact Nests.after fun _ => Nests.refuseDepth
  | succ n ih => exact StmtContext.any_nests (expression_nests n) ih

theorem topLevelDecl_nests : Nests topLevelDecl (Decl.Within maxNesting) :=
  declaration_nests (expression_nests maxNesting) (statement_nests maxNesting) true

theorem fileParser_nests (name : String) (lineCount : Nat) :
    Nests (fileParser name lineCount) fun file =>
      file.levels ≤ maxNesting ∧ file.height ≤ triangle maxNesting + 1 := by
  apply Nests.bind (Nests.manyWhile _ topLevelDecl_nests)
  intro decls within
  apply Nests.after
  intro _
  apply Nests.pure
  constructor
  · exact foldr_max_le fun decl member => (within decl member).levels
  · exact foldr_max_le fun decl member => (within decl member).height

end MiniC
