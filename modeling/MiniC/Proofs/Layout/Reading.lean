import MiniC.Compilation
import MiniC.Proofs.Layout.ReadExpr

/-!
Reading declarations and statements on moved places, up to the whole file. The
count of lines that goes into the log of a file plays no part in it.
-/

namespace MiniC

open MiniC.Parser

variable {move : Position → Position}

theorem identifier_moves : Moves move (Name.relocate move) identifier identifier := by
  apply Moves.bind .peek
  rintro ⟨kind, text, pos⟩
  dsimp only [Token.relocate]
  apply Moves.ite
  · exact Moves.last .advance rfl
  · apply Moves.after (.missing _)
    intro _
    exact Moves.last .advance rfl

theorem parameterType_moves : Moves move id parameterType parameterType := by
  apply Moves.after .peekKind
  intro kind
  have missing : Moves move id (do missing .parameterType; pure .invalid : Parser Ty)
      (do missing .parameterType; pure .invalid) := Moves.last (.missing _) rfl
  cases kind.baseType? with
  | none => exact missing
  | some ty =>
    cases ty with
    | int | char => exact Moves.pure rfl
    | _ => exact missing

theorem parameter_moves : Moves move (Param.relocate move) parameter parameter := by
  apply Moves.bind .peek
  rintro ⟨kind, text, pos⟩
  dsimp only [Token.relocate]
  apply Moves.after parameterType_moves
  intro ty
  apply Moves.ite
  · exact Moves.pure rfl
  · apply Moves.after .advance
    intro _
    apply Moves.bind identifier_moves
    intro name
    exact Moves.pure rfl

theorem parameterList_moves : Moves move (ParamList.relocate move) parameterList parameterList := by
  apply Moves.bind .position
  intro pos
  apply Moves.after (.require _)
  intro _
  apply Moves.bind (.commaList _ parameter_moves)
  intro params
  exact Moves.last (.require _) rfl

theorem arraySize_moves : Moves move id arraySize arraySize := by
  apply Moves.bind .peek
  rintro ⟨kind, text, pos⟩
  dsimp only [Token.relocate]
  apply Moves.ite
  · apply Moves.ite
    · exact Moves.last .advance rfl
    · apply Moves.after (.report rfl)
      intro _
      exact Moves.last .advance rfl
  · apply Moves.after (.missing _)
    intro _
    apply Moves.ite
    · exact Moves.last .advance rfl
    · exact Moves.pure rfl

theorem dimension_moves : Moves move id dimension dimension := by
  apply Moves.after (.require _)
  intro _
  apply Moves.after arraySize_moves
  intro size
  exact Moves.last (.require _) rfl

section Declarators

variable {expr : Parser Expr} (exprMoves : Moves move (Expr.relocate move) expr expr)

include exprMoves

theorem initializer_moves :
    Moves move (Option.map (Expr.relocate move)) (initializer expr) (initializer expr) := by
  apply Moves.after (.accept _)
  intro taken
  apply Moves.ite
  · apply Moves.after .peekKind
    intro kind
    apply Moves.ite
    · exact Moves.map compositeLiteral_moves fun _ => rfl
    · exact Moves.map exprMoves fun _ => rfl
  · exact Moves.pure rfl

theorem declarator_moves (name : Name) :
    Moves move (Declarator.relocate move) (declarator expr name)
      (declarator expr (name.relocate move)) := by
  apply Moves.bind (.manyWhile _ dimension_moves)
  intro sizes
  apply Moves.bind (initializer_moves exprMoves)
  intro init
  apply Moves.pure
  simp only [Declarator.relocate, List.map_id]

theorem declarators_moves (first : Name) :
    Moves move (List.map (Declarator.relocate move)) (declarators expr first)
      (declarators expr (first.relocate move)) := by
  apply Moves.bind (declarator_moves exprMoves first)
  intro head
  have another : Moves move (Declarator.relocate move)
      (do advance; let name ← identifier; declarator expr name)
      (do advance; let name ← identifier; declarator expr name) := by
    apply Moves.after .advance
    intro _
    exact Moves.bind identifier_moves (declarator_moves exprMoves)
  apply Moves.bind (.manyWhile _ another)
  intro later
  exact Moves.last (.require _) rfl

end Declarators

section Declaration

variable {expr : Parser Expr} {stmt : Parser Stmt}

theorem braced_moves (stmtMoves : Moves move (Stmt.relocate move) stmt stmt) :
    Moves move (Option.map (Stmt.relocateAll move)) (braced stmt) (braced stmt) := by
  apply Moves.after (.require _)
  intro _
  apply Moves.bind (.manyWhile _ stmtMoves)
  intro body
  apply Moves.after .peekKind
  intro kind
  apply Moves.ite
  · exact Moves.last (.missing _) rfl
  · apply Moves.after .advance
    intro _
    apply Moves.pure
    rw [Option.map_some, Stmt.relocateAll_eq_map]

theorem function_moves (stmtMoves : Moves move (Stmt.relocate move) stmt stmt) (returns : Ty)
    (returnsPos : Position) (name : Name) :
    Moves move (Option.map (FuncDecl.relocate move)) (function stmt returns returnsPos name)
      (function stmt returns (move returnsPos) (name.relocate move)) := by
  apply Moves.bind parameterList_moves
  intro params
  apply Moves.bind .position
  intro bodyPos
  apply Moves.bind (braced_moves stmtMoves)
  intro body
  have count : (params.relocate move).params.length = params.params.length := List.length_map _
  rw [count]
  apply Moves.after (.parsedFunction _ _ _ _)
  intro _
  apply Moves.pure
  cases body <;> rfl

theorem declaration_moves (exprMoves : Moves move (Expr.relocate move) expr expr)
    (stmtMoves : Moves move (Stmt.relocate move) stmt stmt) (isTopLevel : Bool) :
    Moves move (Decl.relocate move) (declaration expr stmt isTopLevel)
      (declaration expr stmt isTopLevel) := by
  apply Moves.bind .position
  intro start
  apply Moves.after (.accept _)
  intro isConst
  apply Moves.bind .peek
  rintro ⟨kind, text, pos⟩
  dsimp only [Token.relocate]
  cases kind.baseType? with
  | none =>
    apply Moves.after (.missing _)
    intro _
    exact Moves.last .advance rfl
  | some base =>
    apply Moves.after .advance
    intro _
    apply Moves.bind identifier_moves
    intro name
    apply Moves.after .peekKind
    intro next
    apply Moves.ite
    · apply Moves.bind (function_moves stmtMoves base pos name)
      intro func
      apply Moves.ite
      · exact Moves.last (.report rfl) rfl
      · apply Moves.ite
        · exact Moves.last (.report rfl) rfl
        · apply Moves.pure
          cases func <;> rfl
    · apply Moves.bind (declarators_moves exprMoves name)
      intro list
      apply Moves.ite
      · exact Moves.last (.report rfl) rfl
      · exact Moves.pure rfl

end Declaration

namespace StmtContext

/-- What the productions of a level build on does the same on moved places. -/
structure Move (move : Position → Position) (inner : StmtContext Parser) : Prop where
  expr : Moves move (Expr.relocate move) inner.expr inner.expr
  stmt : Moves move (Stmt.relocate move) inner.stmt inner.stmt

variable {inner : StmtContext Parser} (moves : inner.Move move)

include moves

theorem simple_moves : Moves move (Simple.relocate move) inner.simple inner.simple := by
  apply Moves.bind .position
  intro pos
  apply Moves.bind moves.expr
  intro target
  apply Moves.after (.accept _)
  intro isAssignment
  apply Moves.ite
  · apply Moves.bind moves.expr
    intro value
    exact Moves.pure rfl
  · exact Moves.pure rfl

theorem header_moves (close : TokenKind) :
    Moves move (Option.map (Simple.relocate move)) (inner.header close) (inner.header close) := by
  apply Moves.after .peekKind
  intro kind
  apply Moves.ite
  · exact Moves.pure rfl
  · exact Moves.map (simple_moves moves) fun _ => rfl

theorem condition_moves : Moves move (Expr.relocate move) inner.condition inner.condition := by
  apply Moves.after (.require _)
  intro _
  apply Moves.bind moves.expr
  intro cond
  exact Moves.last (.require _) rfl

theorem declStmt_moves (pos : Position) :
    Moves move (Stmt.relocate move) (inner.declStmt pos) (inner.declStmt (move pos)) := by
  apply Moves.bind (declaration_moves moves.expr moves.stmt false)
  intro decl
  apply Moves.pure
  cases decl <;> rfl

theorem simpleStmt_moves : Moves move (Stmt.relocate move) inner.simpleStmt inner.simpleStmt := by
  apply Moves.bind (simple_moves moves)
  intro s
  exact Moves.last (.require _) rfl

theorem block_moves (pos : Position) :
    Moves move (Stmt.relocate move) (inner.block pos) (inner.block (move pos)) := by
  apply Moves.bind (braced_moves moves.stmt)
  intro body
  apply Moves.pure
  cases body <;> rfl

theorem branch_moves (pos : Position) :
    Moves move (Stmt.relocate move) (inner.branch pos) (inner.branch (move pos)) := by
  apply Moves.after (.require _)
  intro _
  apply Moves.bind (condition_moves moves)
  intro cond
  apply Moves.bind moves.stmt
  intro yes
  apply Moves.after (.accept _)
  intro hasElse
  apply Moves.ite
  · apply Moves.bind moves.stmt
    intro no
    exact Moves.pure rfl
  · exact Moves.pure rfl

theorem whileLoop_moves (pos : Position) :
    Moves move (Stmt.relocate move) (inner.whileLoop pos) (inner.whileLoop (move pos)) := by
  apply Moves.after (.require _)
  intro _
  apply Moves.bind (condition_moves moves)
  intro cond
  apply Moves.bind moves.stmt
  intro body
  exact Moves.pure rfl

theorem forLoop_moves (pos : Position) :
    Moves move (Stmt.relocate move) (inner.forLoop pos) (inner.forLoop (move pos)) := by
  apply Moves.after (.require _)
  intro _
  apply Moves.after (.require _)
  intro _
  apply Moves.bind (header_moves moves _)
  intro init
  apply Moves.after (.require _)
  intro _
  apply Moves.bind (header_moves moves _)
  intro cond
  apply Moves.after (.require _)
  intro _
  apply Moves.bind (header_moves moves _)
  intro next
  apply Moves.after (.require _)
  intro _
  apply Moves.bind moves.stmt
  intro body
  exact Moves.pure rfl

theorem label_moves :
    Moves move (Option.map (Expr.relocate move)) inner.label inner.label := by
  apply Moves.after (.accept _)
  intro isDefault
  apply Moves.ite
  · exact Moves.pure rfl
  · apply Moves.after (.require _)
    intro _
    exact Moves.map moves.expr fun _ => rfl

theorem clause_moves : Moves move (Stmt.relocate move) inner.clause inner.clause := by
  apply Moves.bind .position
  intro pos
  apply Moves.bind (label_moves moves)
  intro label
  apply Moves.after (.require _)
  intro _
  apply Moves.bind (.manyWhile _ moves.stmt)
  intro body
  apply Moves.pure
  simp only [Stmt.relocate, Stmt.relocateAll_eq_map]

theorem clause?_moves :
    Moves move (Option.map (Stmt.relocate move)) inner.clause? inner.clause? := by
  apply Moves.after .peekKind
  intro kind
  cases kind with
  | caseKw | defaultKw => exact Moves.map (clause_moves moves) fun _ => rfl
  | _ =>
    apply Moves.after (.missing _)
    intro _
    exact Moves.last .advance rfl

theorem switch_moves (pos : Position) :
    Moves move (Stmt.relocate move) (inner.switch pos) (inner.switch (move pos)) := by
  apply Moves.after (.require _)
  intro _
  apply Moves.bind (condition_moves moves)
  intro subject
  apply Moves.after (.require _)
  intro _
  apply Moves.bind (.manyWhile _ (clause?_moves moves))
  intro clauses
  apply Moves.after (.require _)
  intro _
  apply Moves.pure
  have kept : (clauses.map (Option.map (Stmt.relocate move))).filterMap id =
      (clauses.filterMap id).map (Stmt.relocate move) := by
    rw [List.filterMap_map, List.map_filterMap]
    rfl
  simp only [Stmt.relocate, Stmt.relocateAll_eq_map, kept]

theorem print_moves (pos : Position) :
    Moves move (Stmt.relocate move) (inner.print pos) (inner.print (move pos)) := by
  apply Moves.after (.require _)
  intro _
  apply Moves.after (.require _)
  intro _
  apply Moves.bind (.commaList _ moves.expr)
  intro args
  apply Moves.after (.require _)
  intro _
  exact Moves.last (.require _) (by simp only [Stmt.relocate])

theorem scan_moves (pos : Position) :
    Moves move (Stmt.relocate move) (inner.scan pos) (inner.scan (move pos)) := by
  apply Moves.after (.require _)
  intro _
  apply Moves.bind (condition_moves moves)
  intro target
  exact Moves.last (.require _) (by simp only [Stmt.relocate])

theorem ret_moves (pos : Position) :
    Moves move (Stmt.relocate move) (inner.ret pos) (inner.ret (move pos)) := by
  apply Moves.after (.require _)
  intro _
  apply Moves.after .peekKind
  intro kind
  have final (value : Option Expr) : Moves move (Stmt.relocate move)
      (do require .semicolon; pure (.ret pos value))
      (do require .semicolon; pure (.ret (move pos) (value.map (Expr.relocate move)))) :=
    Moves.last (.require _) (by simp only [Stmt.relocate])
  apply Moves.ite
  · exact final none
  · exact Moves.bind (.map moves.expr fun _ => rfl) final

theorem any_moves : Moves move (Stmt.relocate move) inner.any inner.any := by
  apply Moves.bind .peek
  rintro ⟨kind, text, pos⟩
  dsimp only [Token.relocate]
  cases kind with
  | constKw | intKw | charKw | voidKw => exact declStmt_moves moves pos
  | ident | mainKw | intLit | charLit | strLit | lParen | plus | minus =>
    exact simpleStmt_moves moves
  | ifKw => exact branch_moves moves pos
  | whileKw => exact whileLoop_moves moves pos
  | forKw => exact forLoop_moves moves pos
  | switchKw => exact switch_moves moves pos
  | lBrace => exact block_moves moves pos
  | printfKw => exact print_moves moves pos
  | scanfKw => exact scan_moves moves pos
  | returnKw => exact ret_moves moves pos
  | semicolon => exact Moves.last .advance (by simp only [Stmt.relocate])
  | rBrace | eof => exact Moves.last (.missing _) (by simp only [Stmt.relocate])
  | _ =>
    apply Moves.after (.missing _)
    intro _
    exact Moves.last .advance (by simp only [Stmt.relocate])

end StmtContext

theorem statement_moves (levels : Nat) :
    Moves move (Stmt.relocate move) (statement levels) (statement levels) := by
  induction levels with
  | zero =>
    apply Moves.bind .position
    intro pos
    exact Moves.last .refuseDepth (by simp only [Stmt.relocate])
  | succ levels ih => exact StmtContext.any_moves ⟨expression_moves levels, ih⟩

theorem fileParser_moves (name : String) (lineCount other : Nat) :
    Moves move (File.relocate move) (fileParser name lineCount) (fileParser name other) := by
  have topLevel : Moves move (Decl.relocate move) topLevelDecl topLevelDecl :=
    declaration_moves (expression_moves maxNesting) (statement_moves maxNesting) true
  apply Moves.bind (.manyWhile _ topLevel)
  intro decls
  have remark : Moves move id (remark (.parsedFile name decls.length lineCount))
      (remark (.parsedFile name (decls.map (Decl.relocate move)).length other)) :=
    fun _ => ⟨rfl, rfl, rfl⟩
  exact Moves.last remark rfl

end MiniC
