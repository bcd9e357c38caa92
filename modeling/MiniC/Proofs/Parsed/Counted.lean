import MiniC.Proofs.Stmt.Counted

/-!
What one counter for all of a file comes to. Each production is carried out by the counted
parsers as it is by those of a level, comes back to the depth it started at, and leaves no
level that it has not entered. So every declaration of a file starts at depth zero, and
is read from the tokens in front of it alone.
-/

namespace MiniC

namespace Counted

/-- The parsers for all depths. The bound is never reached. -/
def context : StmtContext Counted :=
  ⟨(exprParsers (maxNesting + 1)).expr, statement (maxNesting + 1)⟩

def topLevelDecl : Counted Decl := declaration context.expr context.stmt true

def fileParser (name : String) (lineCount : Nat) : Counted File := do
  let decls ← manyWhile (fun _ => true) topLevelDecl
  Parser.remark (.parsedFile name decls.length lineCount)
  pure ⟨name, decls⟩

/-- The reading of a file comes to stand in front of a declaration or of the end, at a
depth, with the rest of the stream. -/
inductive Reaches (stream : Stream) : Nat → Stream → Prop where
  | start : Reaches stream 0 stream
  | next {depth : Nat} {front : Stream} (sofar : Reaches stream depth front)
      (more : 0 < front.remaining) :
      Reaches stream ((Parser.moving (topLevelDecl depth)).run front).value.depth
        ((Parser.moving (topLevelDecl depth)).run front).rest

end Counted

/-- The productions of the grammar, by what they give. -/
inductive Production : Type → Type where
  | declaration (isTopLevel : Bool) : Production Decl
  | function (returns : Ty) (returnsPos : Position) (name : Name) : Production (Option FuncDecl)
  | parameterList : Production ParamList
  | parameter : Production Param
  | declarators (first : Name) : Production (List Declarator)
  | declarator (name : Name) : Production Declarator
  | dimension : Production Nat
  | initializer : Production (Option Expr)
  | compositeLiteral : Production Expr
  | item : Production Expr
  | identifier : Production Name
  | braced : Production (Option (List Stmt))
  | statement : Production Stmt
  | any : Production Stmt
  | declStmt (pos : Position) : Production Stmt
  | simple : Production Simple
  | simpleStmt : Production Stmt
  | header (close : TokenKind) : Production (Option Simple)
  | condition : Production Expr
  | block (pos : Position) : Production Stmt
  | branch (pos : Position) : Production Stmt
  | whileLoop (pos : Position) : Production Stmt
  | forLoop (pos : Position) : Production Stmt
  | switch (pos : Position) : Production Stmt
  | clause : Production Stmt
  | label : Production (Option Expr)
  | print (pos : Position) : Production Stmt
  | scan (pos : Position) : Production Stmt
  | ret (pos : Position) : Production Stmt
  | expression : Production Expr
  | binary (least : Nat) : Production Expr
  | unary : Production Expr
  | signed : Production Expr
  | primary : Production Expr
  | operand : Production Expr
  | suffix (e : Expr) : Production Expr

namespace Production

/-- A production, by the readers of what it is made of. -/
def read {m : Type → Type} [Monad m] [MonadLiftT Parser m] [Loops m] (inner : StmtContext m)
    (signedOne : m Expr) (operation : Nat → m Expr) {α : Type} : Production α → m α
  | declaration isTopLevel => MiniC.declaration inner.expr inner.stmt isTopLevel
  | function returns returnsPos name => MiniC.function inner.stmt returns returnsPos name
  | parameterList => liftM MiniC.parameterList
  | parameter => liftM MiniC.parameter
  | declarators first => MiniC.declarators inner.expr first
  | declarator name => MiniC.declarator inner.expr name
  | dimension => liftM MiniC.dimension
  | initializer => MiniC.initializer inner.expr
  | compositeLiteral => liftM MiniC.compositeLiteral
  | item => liftM Composite.item
  | identifier => liftM MiniC.identifier
  | braced => MiniC.braced inner.stmt
  | statement => inner.stmt
  | any => inner.any
  | declStmt pos => inner.declStmt pos
  | simple => inner.simple
  | simpleStmt => inner.simpleStmt
  | header close => inner.header close
  | condition => inner.condition
  | block pos => inner.block pos
  | branch pos => inner.branch pos
  | whileLoop pos => inner.whileLoop pos
  | forLoop pos => inner.forLoop pos
  | switch pos => inner.switch pos
  | clause => inner.clause
  | label => inner.label
  | print pos => inner.print pos
  | scan pos => inner.scan pos
  | ret pos => inner.ret pos
  | expression => inner.expr
  | binary least => operation least
  | unary => signedOne
  | signed => MiniC.signed signedOne inner.expr
  | primary => MiniC.primary inner.expr
  | operand => MiniC.operand inner.expr
  | suffix e => MiniC.suffix inner.expr e

/-- A production with one counter. -/
def counted {α : Type} (production : Production α) : Counted α :=
  let exprs := Counted.exprParsers (maxNesting + 1)
  production.read Counted.context exprs.unary exprs.binary

/-- A production of a level. -/
def leveled {α : Type} (level : Nat) (production : Production α) : Parser α :=
  let exprs := exprParsers level
  production.read ⟨exprs.expr, MiniC.statement level⟩ exprs.unary exprs.binary

theorem keeps {α : Type} (production : Production α) {depth : Nat} (allowed : depth ≤ maxNesting) :
    Counted.Keeps depth production.counted (production.leveled (maxNesting - depth)) := by
  -- what is left at a depth is the level of the parsers
  obtain ⟨level, within, rfl⟩ : ∃ level ≤ maxNesting, depth = maxNesting - level :=
    ⟨maxNesting - depth, Nat.sub_le _ _, (Nat.sub_sub_self allowed).symm⟩
  rw [Nat.sub_sub_self within]
  have enough : level < maxNesting + 1 := Nat.lt_succ_of_le within
  have exprs := Counted.exprParsers_keep enough within
  have keep : Counted.KeepContext (maxNesting - level) Counted.context
      ⟨MiniC.expression level, MiniC.statement level⟩ :=
    ⟨exprs.binary 1, Counted.statement_keeps enough within⟩
  cases production with
  | declaration isTopLevel => exact Counted.declaration_keeps keep.expr keep.stmt isTopLevel
  | function returns returnsPos name =>
    exact Counted.function_keeps keep.stmt returns returnsPos name
  | parameterList | parameter | dimension | compositeLiteral | item | identifier => exact .lift _
  | declarators first => exact Counted.declarators_keeps keep.expr first
  | declarator name => exact Counted.declarator_keeps keep.expr name
  | initializer => exact Counted.initializer_keeps keep.expr
  | braced => exact Counted.braced_keeps keep.stmt
  | statement => exact keep.stmt
  | any => exact keep.any
  | declStmt pos => exact keep.declStmt pos
  | simple => exact keep.simple
  | simpleStmt => exact keep.simpleStmt
  | header close => exact keep.header close
  | condition => exact keep.condition
  | block pos => exact keep.block pos
  | branch pos => exact keep.branch pos
  | whileLoop pos => exact keep.whileLoop pos
  | forLoop pos => exact keep.forLoop pos
  | switch pos => exact keep.switch pos
  | clause => exact keep.clause
  | label => exact keep.label
  | print pos => exact keep.print pos
  | scan pos => exact keep.scan pos
  | ret pos => exact keep.ret pos
  | expression => exact keep.expr
  | binary least => exact exprs.binary least
  | unary => exact exprs.unary
  | signed => exact Counted.signed_keeps exprs.unary keep.expr
  | primary => exact Counted.primary_keeps keep.expr
  | operand => exact Counted.operand_keeps keep.expr
  | suffix e => exact Counted.suffix_keeps keep.expr e

end Production

namespace Counted

theorem topLevelDecl_keeps : Keeps 0 topLevelDecl MiniC.topLevelDecl := by
  have keeps := (Production.declaration true).keeps (Nat.zero_le maxNesting)
  rw [Nat.sub_zero] at keeps
  exact keeps

theorem fileParser_keeps (name : String) (lineCount : Nat) :
    Keeps 0 (fileParser name lineCount) (MiniC.fileParser name lineCount) := by
  have decls := Keeps.manyWhile (fun _ => true) topLevelDecl_keeps
  apply decls.bind
  intro list
  exact Keeps.last _

/-- A round of the file comes back to depth zero, also if it is moved on. -/
theorem run_round (front : Stream) :
    ∃ calls : List DepthCall, (Parser.moving (topLevelDecl 0)).run front =
      ⟨⟨(MiniC.topLevelDecl.run front).value, 0, calls⟩,
        ((Parser.moving MiniC.topLevelDecl).run front).rest,
        ((Parser.moving MiniC.topLevelDecl).run front).log⟩ := by
  obtain ⟨calls, _, same⟩ := topLevelDecl_keeps front
  exact ⟨calls, run_moving same⟩

namespace Reaches

variable {stream front : Stream} {depth : Nat}

theorem depth_eq (reaches : Reaches stream depth front) : depth = 0 := by
  induction reaches with
  | start => rfl
  | next sofar more ih =>
    subst ih
    obtain ⟨calls, same⟩ := run_round _
    rw [same]

theorem further (reaches : Reaches stream 0 front) (more : 0 < front.remaining) :
    Reaches stream 0 ((Parser.moving MiniC.topLevelDecl).run front).rest := by
  obtain ⟨calls, same⟩ := run_round front
  have next := reaches.next more
  rw [same] at next
  exact next

/-- What is read from a front on is read declaration by declaration. -/
theorem decls (reaches : Reaches stream 0 front) :
    ∃ fronts : List Stream, (∀ front ∈ fronts, Reaches stream 0 front) ∧
      (Parser.manyRun (fun _ => true) MiniC.topLevelDecl front).value =
        fronts.map (fun front => (MiniC.topLevelDecl.run front).value) ∧
      (Parser.manyRun (fun _ => true) MiniC.topLevelDecl front).log =
        fronts.flatMap fun front => ((Parser.moving MiniC.topLevelDecl).run front).log := by
  fun_induction Parser.manyRun (fun _ => true) MiniC.topLevelDecl front with
  | case1 front taken first later ih =>
    obtain ⟨fronts, reached, values, logs⟩ :=
      ih (reaches.further (Parser.remaining_pos_of_takes taken))
    use front :: fronts
    constructor
    · exact List.forall_mem_cons.mpr ⟨reaches, reached⟩
    constructor
    · rw [List.map_cons, ← values, ← value_moving MiniC.topLevelDecl front]
    · rw [List.flatMap_cons, ← logs]
  | case2 front stopped => exact ⟨[], List.forall_mem_nil _, rfl, rfl⟩

end Reaches

end Counted

open Counted (Keeps Reaches)

/-- Each production comes back to the depth it starts at, with balanced calls, and does what
the parsers of the level do. So a file is read at depth zero declaration by declaration,
each from what is left of the stream, whatever was read before. -/
theorem nesting_balanced (name : String) (lineCount : Nat) (stream : Stream) :
    (∀ (α : Type) (production : Production α) (depth : Nat), depth ≤ maxNesting →
      Keeps depth production.counted (production.leveled (maxNesting - depth))) ∧
    Keeps 0 (Counted.fileParser name lineCount) (fileParser name lineCount) ∧
    (∀ depth front, Reaches stream depth front → depth = 0) ∧
    (∀ other depth elsewhere front, Reaches stream depth front → Reaches other elsewhere front →
      (Counted.topLevelDecl depth).run front = (Counted.topLevelDecl elsewhere).run front) ∧
    ∃ fronts : List Stream, (∀ front ∈ fronts, Reaches stream 0 front) ∧
      let file := (fileParser name lineCount).run stream
      file.value.decls = fronts.map (fun front => (topLevelDecl.run front).value) ∧
      file.log = fronts.flatMap (fun front => ((Parser.moving topLevelDecl).run front).log) ++
        [.parsedFile name fronts.length lineCount] := by
  refine ⟨fun α production depth allowed => production.keeps allowed,
    Counted.fileParser_keeps name lineCount, fun depth front reaches => reaches.depth_eq, ?_, ?_⟩
  · intro other depth elsewhere front here there
    rw [here.depth_eq, there.depth_eq]
  · obtain ⟨fronts, reached, values, logs⟩ := (Reaches.start : Reaches stream 0 stream).decls
    refine ⟨fronts, reached, values, ?_⟩
    have count : (Parser.manyRun (fun _ => true) topLevelDecl stream).value.length =
        fronts.length := by
      rw [values, List.length_map]
    rw [← logs, ← count]
    rfl

/-- An operand at the greatest depth, which is refused. -/
theorem nesting_balanced_deepest :
    maxNesting ≤ maxNesting ∧
      let refused := (Production.unary.counted maxNesting).run (.ofScanned (.ofSource "t.c" "(x);"))
      refused.value.depth = maxNesting ∧ refused.rest.upcoming.length = 1 := by
  have within : maxNesting ≤ maxNesting := Nat.le_refl maxNesting
  have keeps := (nesting_balanced "t.c" 1 (.ofScanned (.ofSource "t.c" "(x);"))).1
    Expr .unary maxNesting within
  obtain ⟨calls, _, same⟩ := keeps (.ofScanned (.ofSource "t.c" "(x);"))
  refine ⟨within, ?_⟩
  rw [same]
  dsimp only
  exact ⟨rfl, by decide +kernel⟩

end MiniC
