import MiniC.Compilation
import MiniC.Proofs.Expr.Braced
import MiniC.Proofs.Parser.OneLine
import MiniC.Proofs.Syntax.Names

/-!
The names in a tree are the texts of tokens it was read from, or the word that stands
for a name that is missing. So on tokens of one line each they are of one line, and so
is what is reported while a file is read, whatever the source is.
-/

namespace MiniC

open MiniC.Parser
open Text (IsLine)

section Primary

variable {inner : Parser Expr} (lined : Lined inner (Expr.IsNamed IsLine))

include lined

theorem operand_lined : Lined (operand inner) (Expr.IsNamed IsLine) := by
  apply Lined.bind_peek
  intro token named
  split
  · exact Lined.advance.last trivial
  · split
    · exact Lined.advance.last named
    · exact Lined.advance.last named
    · apply Lined.advance.andThen
      intro _
      apply Lined.bind lined
      intro e onInner
      exact (Lined.require _).last onInner
    · apply (Lined.missing _).andThen
      intro _
      apply Lined.ite
      · exact fun _ => Lined.advance.last trivial
      · exact fun _ => Lined.pure trivial

theorem suffix_lined {e : Expr} (onBase : e.IsNamed IsLine) :
    Lined (suffix inner e) (Expr.IsNamed IsLine) := by
  apply Lined.bind_peekKind
  intro next
  apply Lined.ite
  · intro isCall
    apply (Lined.require _).andThen
    intro _
    apply Lined.bind (Lined.commaList _ lined)
    intro args onArgs
    exact (Lined.require _).last ⟨onBase, (Expr.allNamed_iff args).mpr onArgs⟩
  · intro isSubscript
    apply (Lined.require _).andThen
    intro _
    apply Lined.bind lined
    intro subscript onSubscript
    exact (Lined.require _).last ⟨onBase, onSubscript⟩

theorem primary_lined : Lined (primary inner) (Expr.IsNamed IsLine) := by
  apply Lined.bind (operand_lined lined)
  intro first onFirst
  apply Lined.foldWhile _ onFirst
  intro base onBase
  exact suffix_lined lined onBase

end Primary

structure ExprParsers.AreLined (level : ExprParsers) : Prop where
  unary : Lined level.unary (Expr.IsNamed IsLine)
  operators : ∀ least {left : Expr}, left.IsNamed IsLine →
    Lined (level.operators least left) (Expr.IsNamed IsLine)

theorem ExprParsers.AreLined.binary {level : ExprParsers} (lined : level.AreLined) (least : Nat) :
    Lined (level.binary least) (Expr.IsNamed IsLine) := by
  apply Lined.bind lined.unary
  intro left onLeft
  exact lined.operators least onLeft

theorem lowestLevel_lined : lowestLevel.AreLined where
  unary := by
    apply Lined.bind_position
    intro pos
    exact Lined.refuseDepth.last trivial
  operators least _ onLeft := by
    apply Lined.foldWhile _ onLeft
    intro left onLeft
    apply Lined.bind_peekKind
    intro next
    split
    · apply Lined.advance.andThen
      intro _
      apply Lined.refuseDepth.andThen
      intro _
      apply Lined.bind_position
      intro pos
      exact Lined.pure ⟨onLeft, trivial⟩
    · exact Lined.pure onLeft

theorem levelAbove_lined {below : ExprParsers} (lined : below.AreLined) :
    (levelAbove below).AreLined where
  unary := by
    apply Lined.bind_peek
    intro token _
    split
    · apply Lined.advance.andThen
      intro _
      apply Lined.bind lined.unary
      intro operand onOperand
      exact Lined.pure onOperand
    · exact primary_lined (lined.binary 1)
  operators least left onLeft := by
    apply Lined.bind_peekKind
    intro next
    split
    · apply Lined.advance.andThen
      intro _
      apply Lined.bind (lined.binary _)
      intro right onRight
      exact lined.operators least ⟨onLeft, onRight⟩
    · exact Lined.pure onLeft

theorem expression_lined (levels : Nat) : Lined (expression levels) (Expr.IsNamed IsLine) := by
  have lined : (exprParsers levels).AreLined := by
    induction levels with
    | zero => exact lowestLevel_lined
    | succ levels ih => exact levelAbove_lined ih
  exact lined.binary 1

namespace Composite

theorem badItem_lined (wanted : Wanted) : Lined (badItem wanted) (Expr.IsNamed IsLine) := by
  apply Lined.bind_peek
  intro found _
  apply (Lined.missing _).andThen
  intro _
  apply Lined.ite
  · exact fun _ => Lined.advance.last trivial
  · exact fun _ => Lined.pure trivial

theorem plainItem_lined (isSigned : Bool) : Lined (plainItem isSigned) (Expr.IsNamed IsLine) := by
  apply Lined.bind_peek
  intro token named
  split
  · apply Lined.ite
    · exact fun _ => badItem_lined _
    · exact fun _ => Lined.advance.last trivial
  · apply Lined.ite
    · exact fun _ => Lined.advance.last named
    · exact fun _ => badItem_lined _

theorem item_lined : Lined item (Expr.IsNamed IsLine) := by
  apply Lined.bind_peek
  intro token _
  split
  · apply Lined.advance.andThen
    intro _
    apply Lined.bind (plainItem_lined true)
    intro operand onOperand
    exact Lined.pure onOperand
  · exact plainItem_lined false

/-- A literal is of one line when all in it is. -/
theorem isNamed_of_list (e : Expr) (isList : IsListOf (Expr.IsNamed IsLine) e) :
    e.IsNamed IsLine := by
  obtain ⟨pos, items, rfl, each⟩ := isList
  exact (Expr.allNamed_iff items).mpr each

theorem step_lined {state : State} (holds : state.Holds (Expr.IsNamed IsLine)) :
    Lined (step state) (State.Holds (Expr.IsNamed IsLine)) := by
  cases state with
  | beforeItem frames =>
    have closed := Frames.Hold.closed holds isNamed_of_list
    apply Lined.bind_peek
    intro token _
    split
    · exact Lined.advance.last (Frames.Hold.opened holds _)
    · exact Lined.advance.last closed
    · apply Lined.bind item_lined
      intro item onItem
      exact Lined.pure (Frames.Hold.add holds onItem)
  | afterItem frames =>
    have closed := Frames.Hold.closed holds isNamed_of_list
    apply Lined.bind_peekKind
    intro next
    split
    · exact Lined.advance.last closed
    · apply Lined.advance.andThen
      intro _
      apply Lined.bind_peekKind
      intro behind
      apply Lined.ite
      · exact fun _ => (Lined.missing _).last holds
      · exact fun _ => Lined.pure holds
    · apply (Lined.missing _).andThen
      intro _
      exact Lined.advance.last holds
  | finished literal => exact Lined.pure holds

end Composite

open Composite in
theorem compositeLiteral_lined : Lined compositeLiteral (Expr.IsNamed IsLine) := by
  have closed {frames : Frames} (hold : frames.Hold (Expr.IsNamed IsLine)) :
      Lined (do missing (.token .rBrace); pure frames.closeAll) (Expr.IsNamed IsLine) :=
    (Lined.missing _).last (isNamed_of_list _ (Frames.Hold.closeAll hold isNamed_of_list))
  apply Lined.bind_position
  intro pos
  have start : (State.beforeItem (.start pos)).Holds (Expr.IsNamed IsLine) :=
    List.forall_mem_cons.mpr ⟨nofun, nofun⟩
  apply (Lined.require _).andThen
  intro _
  apply Lined.bind (Lined.foldWhile (fun _ holds => step_lined holds) start)
  intro state holds
  cases state with
  | beforeItem frames => exact closed holds
  | afterItem frames => exact closed holds
  | finished literal => exact Lined.pure (isNamed_of_list _ holds)

theorem identifier_lined : Lined identifier fun name => IsLine name.text := by
  have standIn : IsLine "_" := by decide
  apply Lined.bind_peek
  intro token named
  apply Lined.ite
  · exact fun _ => Lined.advance.last named
  · intro notName
    apply (Lined.missing _).andThen
    intro _
    exact Lined.advance.last standIn

theorem parameter_lined : Lined parameter fun param => IsLine param.name.text := by
  have standIn : IsLine "_" := by decide
  have paramType : Lined parameterType fun _ => True := by
    apply Lined.bind_peekKind
    intro next
    split
    · exact Lined.pure trivial
    · exact Lined.pure trivial
    · exact (Lined.missing _).last trivial
  apply Lined.bind_peek
  intro token _
  apply paramType.andThen
  intro ty
  apply Lined.ite
  · exact fun _ => Lined.pure standIn
  · intro isNamed
    apply Lined.advance.andThen
    intro _
    apply Lined.bind identifier_lined
    intro name named
    exact Lined.pure named

theorem parameterList_lined :
    Lined parameterList fun list => ∀ param ∈ list.params, IsLine param.name.text := by
  apply Lined.bind_position
  intro pos
  apply (Lined.require _).andThen
  intro _
  apply Lined.bind (Lined.commaList _ parameter_lined)
  intro params named
  exact (Lined.require _).last named

/-- A size that is too large is told as it is written. -/
theorem arraySize_lined : Lined arraySize fun _ => True := by
  apply Lined.bind_peek
  intro token named
  apply Lined.ite
  · intro isNumber
    apply Lined.ite
    · exact fun _ => Lined.advance.last trivial
    · intro isHuge
      have message : IsLine (GrammarProblem.hugeArraySize token.text).message :=
        ((by decide : IsLine "array size ").append named).append (by decide)
      apply (Lined.report message).andThen
      intro _
      exact Lined.advance.last trivial
  · intro notNumber
    apply (Lined.missing _).andThen
    intro _
    apply Lined.ite
    · exact fun _ => Lined.advance.last trivial
    · exact fun _ => Lined.pure trivial

theorem dimension_lined : Lined dimension fun _ => True := by
  apply (Lined.require _).andThen
  intro _
  apply arraySize_lined.andThen
  intro size
  exact (Lined.require _).last trivial

section Declaration

variable {expr : Parser Expr} {stmt : Parser Stmt} (exprs : Lined expr (Expr.IsNamed IsLine))
  (stmts : Lined stmt (Stmt.IsNamed IsLine))

section Vars

include exprs

theorem initializer_lined :
    Lined (initializer expr) fun value => ∀ e ∈ value, e.IsNamed IsLine := by
  apply (Lined.accept _).andThen
  intro isGiven
  apply Lined.ite
  · intro _
    apply Lined.bind_peekKind
    intro next
    apply Lined.ite
    · exact fun _ => compositeLiteral_lined.some
    · exact fun _ => exprs.some
  · exact fun _ => Lined.pure nofun

theorem declarator_lined {name : Name} (named : IsLine name.text) :
    Lined (declarator expr name) (Declarator.IsNamed IsLine) := by
  apply Lined.bind (Lined.manyWhile _ dimension_lined)
  intro sizes _
  apply Lined.bind (initializer_lined exprs)
  intro value onValue
  exact Lined.pure ⟨named, onValue⟩

theorem declarators_lined {first : Name} (named : IsLine first.text) :
    Lined (declarators expr first) fun list => ∀ d ∈ list, d.IsNamed IsLine := by
  have another : Lined (do
      advance
      let name ← identifier
      declarator expr name) (Declarator.IsNamed IsLine) := by
    apply Lined.advance.andThen
    intro _
    apply Lined.bind identifier_lined
    intro name named
    exact declarator_lined exprs named
  apply Lined.bind (declarator_lined exprs named)
  intro head onHead
  apply Lined.bind (Lined.manyWhile _ another)
  intro later onLater
  exact (Lined.require _).last (List.forall_mem_cons.mpr ⟨onHead, onLater⟩)

end Vars

section Func

include stmts

theorem braced_lined :
    Lined (braced stmt) fun body => ∀ list ∈ body, Stmt.AllNamed IsLine list := by
  apply (Lined.require _).andThen
  intro _
  apply Lined.bind (Lined.manyWhile _ stmts)
  intro body onBody
  apply Lined.bind_peekKind
  intro next
  apply Lined.ite
  · exact fun _ => (Lined.missing _).last nofun
  · intro isClosed
    apply Lined.advance.last
    rintro list ⟨⟩
    exact Stmt.allNamed_of_forall onBody

theorem function_lined (returns : Ty) (returnsPos : Position) {name : Name}
    (named : IsLine name.text) :
    Lined (function stmt returns returnsPos name) fun func => ∀ f ∈ func, f.IsNamed IsLine := by
  apply Lined.bind parameterList_lined
  intro params onParams
  apply Lined.bind_position
  intro bodyPos
  apply Lined.bind (braced_lined stmts)
  intro body onBody
  apply (Lined.remark rfl).last
  intro f isFunc
  obtain ⟨list, isBody, rfl⟩ := Option.map_eq_some_iff.mp isFunc
  exact ⟨named, onParams, onBody list isBody⟩

end Func

include exprs stmts

theorem declaration_lined (isTopLevel : Bool) :
    Lined (declaration expr stmt isTopLevel) (Decl.IsNamed IsLine) := by
  apply Lined.bind_position
  intro start
  have refused {problem : GrammarProblem} (lined : IsLine problem.message) :
      Lined (do report start problem; pure (Decl.bad start)) (Decl.IsNamed IsLine) :=
    (Lined.report lined).last trivial
  apply (Lined.accept _).andThen
  intro isConst
  apply Lined.bind_peek
  intro head _
  split
  · apply (Lined.missing _).andThen
    intro _
    exact Lined.advance.last trivial
  · apply Lined.advance.andThen
    intro _
    apply Lined.bind identifier_lined
    intro name named
    apply Lined.bind_peekKind
    intro next
    apply Lined.ite
    · intro isFunction
      apply Lined.bind (function_lined stmts _ _ named)
      intro func onFunc
      have kept : Decl.IsNamed IsLine ((func.map (Decl.func start)).getD (.bad start)) := by
        cases func with
        | none => trivial
        | some f => exact onFunc f rfl
      apply Lined.ite
      · exact fun _ => refused (by decide)
      intro notConst
      apply Lined.ite
      · exact fun _ => refused (by decide)
      · exact fun _ => Lined.pure kept
    · intro isVariable
      apply Lined.bind (declarators_lined exprs named)
      intro list onList
      apply Lined.ite
      · exact fun _ => refused (by decide)
      · exact fun _ => Lined.pure onList

end Declaration

namespace StmtContext

variable {inner : StmtContext Parser} (exprs : Lined inner.expr (Expr.IsNamed IsLine))
  (stmts : Lined inner.stmt (Stmt.IsNamed IsLine))

section Exprs

include exprs

theorem simple_lined : Lined inner.simple (Simple.IsNamed IsLine) := by
  apply Lined.bind_position
  intro pos
  apply Lined.bind exprs
  intro target onTarget
  apply (Lined.accept _).andThen
  intro isAssign
  apply Lined.ite
  · intro _
    apply Lined.bind exprs
    intro value onValue
    exact Lined.pure ⟨onTarget, onValue⟩
  · exact fun _ => Lined.pure onTarget

theorem header_lined (close : TokenKind) :
    Lined (inner.header close) fun header => ∀ s ∈ header, s.IsNamed IsLine := by
  apply Lined.bind_peekKind
  intro next
  apply Lined.ite
  · exact fun _ => Lined.pure nofun
  · exact fun _ => (simple_lined exprs).some

theorem condition_lined : Lined inner.condition (Expr.IsNamed IsLine) := by
  apply (Lined.require _).andThen
  intro _
  apply Lined.bind exprs
  intro cond onCond
  exact (Lined.require _).last onCond

theorem simpleStmt_lined : Lined inner.simpleStmt (Stmt.IsNamed IsLine) := by
  apply Lined.bind (simple_lined exprs)
  intro s onSimple
  exact (Lined.require _).last onSimple

theorem label_lined : Lined inner.label fun label => ∀ e ∈ label, e.IsNamed IsLine := by
  apply (Lined.accept _).andThen
  intro isDefault
  apply Lined.ite
  · exact fun _ => Lined.pure nofun
  · intro isCase
    apply (Lined.require _).andThen
    exact fun _ => exprs.some

theorem print_lined (pos : Position) : Lined (inner.print pos) (Stmt.IsNamed IsLine) := by
  apply (Lined.require _).andThen
  intro _
  apply (Lined.require _).andThen
  intro _
  apply Lined.bind (Lined.commaList _ exprs)
  intro args onArgs
  apply (Lined.require _).andThen
  intro _
  exact (Lined.require _).last onArgs

theorem scan_lined (pos : Position) : Lined (inner.scan pos) (Stmt.IsNamed IsLine) := by
  apply (Lined.require _).andThen
  intro _
  apply Lined.bind (condition_lined exprs)
  intro target onTarget
  exact (Lined.require _).last onTarget

theorem ret_lined (pos : Position) : Lined (inner.ret pos) (Stmt.IsNamed IsLine) := by
  have ends (value : Option Expr) (onValue : ∀ e ∈ value, e.IsNamed IsLine) :
      Lined (do require .semicolon; pure (Stmt.ret pos value)) (Stmt.IsNamed IsLine) :=
    (Lined.require _).last onValue
  apply (Lined.require _).andThen
  intro _
  apply Lined.bind_peekKind
  intro next
  apply Lined.ite
  · exact fun _ => ends none nofun
  · exact fun _ => Lined.bind exprs.some ends

end Exprs

section Stmts

include stmts

theorem block_lined (pos : Position) : Lined (inner.block pos) (Stmt.IsNamed IsLine) := by
  apply Lined.bind (braced_lined stmts)
  intro body onBody
  apply Lined.pure
  cases body with
  | none => trivial
  | some list => exact onBody list rfl

end Stmts

include exprs stmts

theorem declStmt_lined (pos : Position) : Lined (inner.declStmt pos) (Stmt.IsNamed IsLine) := by
  apply Lined.bind (declaration_lined exprs stmts false)
  intro decl onDecl
  apply Lined.pure
  cases decl with
  | vars _ v => exact fun _ same => Option.mem_some_iff.mp same ▸ onDecl
  | _ => exact nofun

theorem branch_lined (pos : Position) : Lined (inner.branch pos) (Stmt.IsNamed IsLine) := by
  apply (Lined.require _).andThen
  intro _
  apply Lined.bind (condition_lined exprs)
  intro cond onCond
  apply Lined.bind stmts
  intro yes onYes
  apply (Lined.accept _).andThen
  intro hasElse
  apply Lined.ite
  · intro _
    apply Lined.bind stmts
    intro no onNo
    exact Lined.pure ⟨onCond, onYes, onNo⟩
  · exact fun _ => Lined.pure ⟨onCond, onYes⟩

theorem whileLoop_lined (pos : Position) : Lined (inner.whileLoop pos) (Stmt.IsNamed IsLine) := by
  apply (Lined.require _).andThen
  intro _
  apply Lined.bind (condition_lined exprs)
  intro cond onCond
  apply Lined.bind stmts
  intro body onBody
  exact Lined.pure ⟨onCond, onBody⟩

theorem forLoop_lined (pos : Position) : Lined (inner.forLoop pos) (Stmt.IsNamed IsLine) := by
  apply (Lined.require _).andThen
  intro _
  apply (Lined.require _).andThen
  intro _
  apply Lined.bind (header_lined exprs _)
  intro start onStart
  apply (Lined.require _).andThen
  intro _
  apply Lined.bind (header_lined exprs _)
  intro cond onCond
  apply (Lined.require _).andThen
  intro _
  apply Lined.bind (header_lined exprs _)
  intro next onNext
  apply (Lined.require _).andThen
  intro _
  apply Lined.bind stmts
  intro body onBody
  exact Lined.pure ⟨onStart, onCond, onNext, onBody⟩

theorem clause_lined : Lined inner.clause (Stmt.IsNamed IsLine) := by
  apply Lined.bind_position
  intro pos
  apply Lined.bind (label_lined exprs)
  intro label onLabel
  apply (Lined.require _).andThen
  intro _
  apply Lined.bind (Lined.manyWhile _ stmts)
  intro body onBody
  exact Lined.pure ⟨onLabel, Stmt.allNamed_of_forall onBody⟩

theorem clause?_lined : Lined inner.clause? fun found => ∀ s ∈ found, s.IsNamed IsLine := by
  apply Lined.bind_peekKind
  intro next
  split
  · exact (clause_lined exprs stmts).some
  · exact (clause_lined exprs stmts).some
  · apply (Lined.missing _).andThen
    intro _
    exact Lined.advance.last nofun

theorem switch_lined (pos : Position) : Lined (inner.switch pos) (Stmt.IsNamed IsLine) := by
  apply (Lined.require _).andThen
  intro _
  apply Lined.bind (condition_lined exprs)
  intro subject onSubject
  apply (Lined.require _).andThen
  intro _
  apply Lined.bind (Lined.manyWhile _ (clause?_lined exprs stmts))
  intro clauses onClauses
  have kept : Stmt.AllNamed IsLine (clauses.filterMap id) := by
    apply Stmt.allNamed_of_forall
    intro s member
    obtain ⟨found, isClause, same⟩ := List.mem_filterMap.mp member
    exact onClauses found isClause s same
  exact (Lined.require _).last ⟨onSubject, kept⟩

theorem any_lined : Lined inner.any (Stmt.IsNamed IsLine) := by
  apply Lined.bind_peek
  intro token _
  dsimp only
  split
  case h_1 | h_2 | h_3 | h_4 => exact declStmt_lined exprs stmts _
  case h_5 | h_6 | h_7 | h_8 | h_9 | h_10 | h_11 | h_12 => exact simpleStmt_lined exprs
  case h_13 => exact branch_lined exprs stmts _
  case h_14 => exact whileLoop_lined exprs stmts _
  case h_15 => exact forLoop_lined exprs stmts _
  case h_16 => exact switch_lined exprs stmts _
  case h_17 => exact block_lined stmts _
  case h_18 => exact print_lined exprs _
  case h_19 => exact scan_lined exprs _
  case h_20 => exact ret_lined exprs _
  case h_21 => exact Lined.advance.last trivial
  case h_24 =>
    apply (Lined.missing _).andThen
    intro _
    exact Lined.advance.last trivial
  all_goals exact (Lined.missing _).last trivial

end StmtContext

theorem statement_lined (levels : Nat) : Lined (statement levels) (Stmt.IsNamed IsLine) := by
  induction levels with
  | zero =>
    apply Lined.bind_position
    intro pos
    exact Lined.refuseDepth.last trivial
  | succ levels ih => exact StmtContext.any_lined (expression_lined levels) ih

theorem fileParser_lined (name : String) (lineCount : Nat) :
    Lined (fileParser name lineCount) (File.IsNamed IsLine) := by
  have decl : Lined topLevelDecl (Decl.IsNamed IsLine) :=
    declaration_lined (expression_lined maxNesting) (statement_lined maxNesting) true
  apply Lined.bind (Lined.manyWhile _ decl)
  intro decls onDecls
  exact (Lined.remark rfl).last onDecls

end MiniC
