import MiniC.Compilation
import MiniC.Proofs.Expr.Shaped
import MiniC.Proofs.Syntax.Shaped

/-!
Every tree that is read has its shape, whatever the source is. What stands in a
switch and is no clause is reported and passed, a label elsewhere starts no
statement, a variable declared void is replaced by a bad declaration, and a
parameter whose type is missing has an invalid one. Expressions and initial values
are as their readers give them.
-/

namespace MiniC

open MiniC.Parser

theorem TokenKind.baseType?_typed {kind : TokenKind} {ty : Ty} (found : kind.baseType? = some ty) :
    ty = .int ∨ ty = .char ∨ ty = .void := by
  cases kind <;> simp [baseType?] at found <;> subst found <;> decide

theorem parameter_typed :
    Gives parameter fun param => param.ty = .int ∨ param.ty = .char ∨ param.ty = .invalid := by
  have isType : Gives parameterType fun ty => ty = .int ∨ ty = .char ∨ ty = .invalid := by
    refine Gives.after fun next => ?_
    split
    · exact Gives.pure (.inl rfl)
    · exact Gives.pure (.inr (.inl rfl))
    · exact Gives.last (.inr (.inr rfl))
  refine Gives.after fun token => ?_
  refine Gives.bind isType fun ty allowed => ?_
  apply Gives.ite
  · exact fun _ => Gives.pure allowed
  · intro isNamed
    refine Gives.after fun _ => ?_
    refine Gives.after fun name => ?_
    exact Gives.pure allowed

theorem parameterList_typed : Gives parameterList fun list =>
    ∀ param ∈ list.params, param.ty = .int ∨ param.ty = .char ∨ param.ty = .invalid := by
  refine Gives.after fun pos => ?_
  refine Gives.after fun _ => ?_
  refine Gives.bind (Gives.commaList _ parameter_typed) fun params areTyped => ?_
  exact Gives.last areTyped

variable {P Q : Expr → Prop}

section Declaration

variable {expr : Parser Expr} {stmt : Parser Stmt} (exprs : Gives expr P)
  (literals : Gives compositeLiteral Q) (initial : ∀ e, P e → Q e)
  (stmts : Gives stmt (Stmt.IsShaped P Q))

section Vars

include exprs literals initial

theorem initializer_shaped : Gives (initializer expr) fun value => ∀ e ∈ value, Q e := by
  refine Gives.after fun isGiven => ?_
  apply Gives.ite
  · intro _
    refine Gives.after fun next => ?_
    apply Gives.ite
    · exact fun _ => literals.some
    · exact fun _ => (exprs.mono initial).some
  · exact fun _ => Gives.pure nofun

theorem declarator_shaped (name : Name) :
    Gives (declarator expr name) fun d => ∀ e ∈ d.init, Q e := by
  refine Gives.after fun sizes => ?_
  refine Gives.bind (initializer_shaped exprs literals initial) fun value onValue => ?_
  exact Gives.pure onValue

theorem declarators_shaped (first : Name) :
    Gives (declarators expr first) fun list => list ≠ [] ∧ ∀ d ∈ list, ∀ e ∈ d.init, Q e := by
  have another : Gives (do
      advance
      let name ← identifier
      declarator expr name) fun d => ∀ e ∈ d.init, Q e := by
    refine Gives.after fun _ => ?_
    exact Gives.after fun name => declarator_shaped exprs literals initial name
  refine Gives.bind (declarator_shaped exprs literals initial first) fun head onHead => ?_
  refine Gives.bind (Gives.manyWhile _ another) fun later onLater => ?_
  exact Gives.last ⟨List.cons_ne_nil head later, List.forall_mem_cons.mpr ⟨onHead, onLater⟩⟩

end Vars

section Func

include stmts

theorem braced_shaped :
    Gives (braced stmt) fun body => ∀ stmts ∈ body, Stmt.AllShaped P Q stmts := by
  refine Gives.after fun _ => ?_
  refine Gives.bind (Gives.manyWhile _ stmts) fun body shaped => ?_
  refine Gives.after fun next => ?_
  apply Gives.ite
  · exact fun _ => Gives.last nofun
  · intro isClosed
    refine Gives.last ?_
    rintro list ⟨⟩
    exact Stmt.allShaped_of_forall shaped

theorem function_shaped {returns : Ty}
    (allowed : returns = .int ∨ returns = .char ∨ returns = .void) (returnsPos : Position)
    (name : Name) :
    Gives (function stmt returns returnsPos name) fun func => ∀ f ∈ func, f.IsShaped P Q := by
  refine Gives.bind parameterList_typed fun params areTyped => ?_
  refine Gives.after fun bodyPos => ?_
  refine Gives.bind (braced_shaped stmts) fun body shaped => ?_
  refine Gives.last fun f isFunc => ?_
  obtain ⟨list, isBody, rfl⟩ := Option.map_eq_some_iff.mp isFunc
  exact ⟨allowed, areTyped, shaped list isBody⟩

end Func

include exprs literals initial stmts in
theorem declaration_shaped (isTopLevel : Bool) :
    Gives (declaration expr stmt isTopLevel) (Decl.IsShaped P Q) := by
  refine Gives.after fun start => ?_
  refine Gives.after fun isConst => ?_
  refine Gives.after fun head => ?_
  split
  · refine Gives.after fun _ => ?_
    exact Gives.last trivial
  · next base isBase =>
    have allowed := TokenKind.baseType?_typed isBase
    refine Gives.after fun _ => ?_
    refine Gives.after fun name => ?_
    refine Gives.after fun next => ?_
    apply Gives.ite
    · intro isFunction
      refine Gives.bind (function_shaped stmts allowed head.pos name) fun func shaped => ?_
      apply Gives.ite
      · exact fun _ => Gives.last trivial
      intro notConst
      apply Gives.ite
      · exact fun _ => Gives.last trivial
      intro atTop
      cases func with
      | none => exact Gives.pure trivial
      | some f => exact Gives.pure (shaped f rfl)
    · intro isVariable
      refine Gives.bind (declarators_shaped exprs literals initial name) fun list shaped => ?_
      apply Gives.ite
      · exact fun _ => Gives.last trivial
      · intro notVoid
        have isType : base = .int ∨ base = .char :=
          allowed.imp_right fun other => other.resolve_right notVoid
        exact Gives.pure ⟨isType, shaped.1, shaped.2⟩

/-- In a block a declaration is one of variables, or a bad one. -/
theorem declaration_local : Gives (declaration expr stmt false) fun decl => decl.func? = none := by
  refine Gives.after fun start => ?_
  refine Gives.after fun isConst => ?_
  refine Gives.after fun head => ?_
  split
  · refine Gives.after fun _ => ?_
    exact Gives.last rfl
  · refine Gives.after fun _ => ?_
    refine Gives.after fun name => ?_
    refine Gives.after fun next => ?_
    apply Gives.ite
    · intro isFunction
      refine Gives.after fun func => ?_
      apply Gives.ite
      · exact fun _ => Gives.last rfl
      · exact fun _ => Gives.last rfl
    · intro isVariable
      refine Gives.after fun list => ?_
      apply Gives.ite
      · exact fun _ => Gives.last rfl
      · exact fun _ => Gives.pure rfl

end Declaration

namespace StmtContext

variable {inner : StmtContext Parser} (exprs : Gives inner.expr P) (opens : Opens inner.expr)
  (literals : Gives compositeLiteral Q) (initial : ∀ e, P e → Q e)
  (stmts : Gives inner.stmt (Stmt.IsShaped P Q))

section Exprs

include exprs

theorem condition_shaped : Gives inner.condition P := by
  refine Gives.after fun _ => ?_
  refine Gives.bind exprs fun cond onCond => ?_
  exact Gives.last onCond

theorem print_shaped (pos : Position) : Gives (inner.print pos) (Stmt.IsShaped P Q) := by
  refine Gives.after fun _ => ?_
  refine Gives.after fun _ => ?_
  refine Gives.bind (Gives.commaList _ exprs) fun args each => ?_
  refine Gives.after fun _ => ?_
  exact Gives.last each

theorem scan_shaped (pos : Position) : Gives (inner.scan pos) (Stmt.IsShaped P Q) := by
  refine Gives.after fun _ => ?_
  refine Gives.bind (condition_shaped exprs) fun target onTarget => ?_
  exact Gives.last onTarget

theorem ret_shaped (pos : Position) : Gives (inner.ret pos) (Stmt.IsShaped P Q) := by
  have ends (value : Option Expr) (each : ∀ e ∈ value, P e) :
      Gives (do require .semicolon; pure (Stmt.ret pos value)) (Stmt.IsShaped P Q) :=
    Gives.last each
  refine Gives.after fun _ => ?_
  refine Gives.after fun next => ?_
  apply Gives.ite
  · exact fun _ => ends none nofun
  · exact fun _ => Gives.bind exprs.some ends

theorem label_shaped : Gives inner.label fun label => ∀ e ∈ label, P e := by
  refine Gives.after fun isDefault => ?_
  apply Gives.ite
  · exact fun _ => Gives.pure nofun
  · intro isCase
    exact Gives.after fun _ => exprs.some

end Exprs

section Simple

include exprs opens

theorem simple_shaped : Gives inner.simple (Simple.IsShaped P) := by
  refine opens.gives_bind exprs fun target onTarget => ?_
  refine Gives.after fun isAssign => ?_
  apply Gives.ite
  · intro _
    refine Gives.bind exprs fun value onValue => ?_
    exact Gives.pure ⟨rfl, onTarget, onValue⟩
  · exact fun _ => Gives.pure ⟨rfl, onTarget⟩

theorem header_shaped (close : TokenKind) :
    Gives (inner.header close) fun header => ∀ s ∈ header, s.IsShaped P := by
  refine Gives.after fun next => ?_
  apply Gives.ite
  · exact fun _ => Gives.pure nofun
  · exact fun _ => (simple_shaped exprs opens).some

theorem simpleStmt_shaped : Gives inner.simpleStmt (Stmt.IsShaped P Q) := by
  refine Gives.bind (simple_shaped exprs opens) fun s shaped => ?_
  exact Gives.last shaped

end Simple

section Stmts

include stmts

theorem block_shaped (pos : Position) : Gives (inner.block pos) (Stmt.IsShaped P Q) := by
  refine Gives.bind (braced_shaped stmts) fun body shaped => ?_
  apply Gives.pure
  cases body with
  | none => trivial
  | some list => exact shaped list rfl

end Stmts

section Both

include exprs stmts

theorem branch_shaped (pos : Position) : Gives (inner.branch pos) (Stmt.IsShaped P Q) := by
  refine Gives.after fun _ => ?_
  refine Gives.bind (condition_shaped exprs) fun cond onCond => ?_
  refine Gives.bind stmts fun yes onYes => ?_
  refine Gives.after fun hasElse => ?_
  apply Gives.ite
  · intro _
    refine Gives.bind stmts fun no onNo => ?_
    exact Gives.pure ⟨onCond, onYes, onNo⟩
  · exact fun _ => Gives.pure ⟨onCond, onYes⟩

theorem whileLoop_shaped (pos : Position) : Gives (inner.whileLoop pos) (Stmt.IsShaped P Q) := by
  refine Gives.after fun _ => ?_
  refine Gives.bind (condition_shaped exprs) fun cond onCond => ?_
  refine Gives.bind stmts fun body onBody => ?_
  exact Gives.pure ⟨onCond, onBody⟩

include opens in
theorem forLoop_shaped (pos : Position) : Gives (inner.forLoop pos) (Stmt.IsShaped P Q) := by
  refine Gives.after fun _ => ?_
  refine Gives.after fun _ => ?_
  refine Gives.bind (header_shaped exprs opens _) fun start onStart => ?_
  refine Gives.after fun _ => ?_
  refine Gives.bind (header_shaped exprs opens _) fun cond onCond => ?_
  refine Gives.after fun _ => ?_
  refine Gives.bind (header_shaped exprs opens _) fun next onNext => ?_
  refine Gives.after fun _ => ?_
  refine Gives.bind stmts fun body onBody => ?_
  exact Gives.pure ⟨onStart, onCond, onNext, onBody⟩

theorem clause_shaped : Gives inner.clause (Stmt.IsShapedClause P Q) := by
  refine Gives.after fun pos => ?_
  refine Gives.bind (label_shaped exprs) fun label onLabel => ?_
  refine Gives.after fun _ => ?_
  refine Gives.bind (Gives.manyWhile _ stmts) fun body shaped => ?_
  exact Gives.pure ⟨pos, label, body, rfl, onLabel, Stmt.allShaped_of_forall shaped⟩

theorem clause?_shaped :
    Gives inner.clause? fun found => ∀ s ∈ found, s.IsShapedClause P Q := by
  refine Gives.after fun next => ?_
  split
  · exact (clause_shaped exprs stmts).some
  · exact (clause_shaped exprs stmts).some
  · refine Gives.after fun _ => ?_
    exact Gives.last nofun

theorem switch_shaped (pos : Position) : Gives (inner.switch pos) (Stmt.IsShaped P Q) := by
  refine Gives.after fun _ => ?_
  refine Gives.bind (condition_shaped exprs) fun subject onSubject => ?_
  refine Gives.after fun _ => ?_
  refine Gives.bind (Gives.manyWhile _ (clause?_shaped exprs stmts)) fun clauses shaped => ?_
  have areClauses : Stmt.AreShapedClauses P Q (clauses.filterMap id) := by
    apply Stmt.areShapedClauses_of_forall
    intro s member
    obtain ⟨found, isClause, same⟩ := List.mem_filterMap.mp member
    exact shaped found isClause s same
  exact Gives.last ⟨onSubject, areClauses⟩

end Both

include exprs literals initial stmts

theorem declStmt_shaped (pos : Position) : Gives (inner.declStmt pos) (Stmt.IsShaped P Q) := by
  refine Gives.bind (declaration_shaped exprs literals initial stmts false) fun decl shaped => ?_
  apply Gives.pure
  cases decl with
  | vars _ v => exact shaped
  | _ => trivial

include opens in
theorem any_shaped : Gives inner.any (Stmt.IsShaped P Q) := by
  refine Gives.after fun token => ?_
  dsimp only
  split
  case h_1 | h_2 | h_3 | h_4 => exact declStmt_shaped exprs literals initial stmts _
  case h_5 | h_6 | h_7 | h_8 | h_9 | h_10 | h_11 | h_12 => exact simpleStmt_shaped exprs opens
  case h_13 => exact branch_shaped exprs stmts _
  case h_14 => exact whileLoop_shaped exprs stmts _
  case h_15 => exact forLoop_shaped exprs opens stmts _
  case h_16 => exact switch_shaped exprs stmts _
  case h_17 => exact block_shaped stmts _
  case h_18 => exact print_shaped exprs _
  case h_19 => exact scan_shaped exprs _
  case h_20 => exact ret_shaped exprs _
  case h_24 =>
    refine Gives.after fun _ => ?_
    exact Gives.last trivial
  all_goals exact Gives.last trivial

end StmtContext

variable (literals : Gives compositeLiteral Q) (initial : ∀ e, P e → Q e)

include literals initial

theorem statement_shaped (levels : Nat) (exprs : ∀ n < levels, Gives (expression n) P) :
    Gives (statement levels) (Stmt.IsShaped P Q) := by
  induction levels with
  | zero =>
    refine Gives.after fun pos => ?_
    exact Gives.last trivial
  | succ levels ih =>
    have below := ih fun n small => exprs n (Nat.lt_succ_of_lt small)
    exact StmtContext.any_shaped (exprs levels (Nat.lt_succ_self levels))
      (expression_opens levels) literals initial below

/-- What holds of all expressions that are read, and of all composite literals, holds in
its place in every file. -/
theorem parse_isShaped (exprs : ∀ n ≤ maxNesting, Gives (expression n) P) (name source : String) :
    (parse name source).file.IsShaped P Q := by
  have stmts := statement_shaped literals initial maxNesting fun n small =>
    exprs n (Nat.le_of_lt small)
  have decl : Gives topLevelDecl (Decl.IsShaped P Q) :=
    declaration_shaped (exprs maxNesting (Nat.le_refl _)) literals initial stmts true
  have file (lineCount : Nat) : Gives (fileParser name lineCount) (File.IsShaped P Q) := by
    refine Gives.bind (Gives.manyWhile _ decl) fun decls shaped => ?_
    exact Gives.last shaped
  exact file (Scanned.ofSource name source).lineCount
    (Stream.ofScanned (Scanned.ofSource name source))

omit literals initial in
theorem parse_rooted (name source : String) :
    (parse name source).file.IsShaped Expr.IsRooted Expr.IsRooted :=
  parse_isShaped compositeLiteral_rooted (fun _ rooted => rooted)
    (fun levels _ => expression_rooted levels) name source

end MiniC
