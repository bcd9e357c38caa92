import MiniC.Proofs.Parser.Skips
import MiniC.Proofs.Syntax.Starts

/-!
What skipping does on the texts of trees. An expression has its brackets in
pairs and no semicolon, so it is passed from anywhere; the semicolons of a
statement are passed in brackets.
-/

namespace MiniC

open MiniC.Parser

theorem isNeutral_name (text : String) : isNeutral (Written.name text).kind = true := by
  rcases Written.name_kind text with kind | kind <;> rw [kind] <;> rfl

theorem LitKind.isNeutral_token (kind : LitKind) : isNeutral kind.token = true := by
  cases kind <;> rfl

theorem Sign.isNeutral_token (sign : Sign) : isNeutral sign.token = true := by
  cases sign <;> rfl

theorem BinOp.isNeutral_token (op : BinOp) : isNeutral op.token = true := by
  cases op <;> rfl

theorem Ty.isNeutral_keyword (ty : Ty) : isNeutral ty.keyword = true := by
  cases ty <;> rfl

namespace Expr

mutual

theorem printed_skips : (e : Expr) → SkipsOver 0 e.printed
  | .bad _ => .nil
  | .ident _ name => .one (isNeutral_name name)
  | .lit _ kind _ => .one kind.isNeutral_token
  | .composite _ items =>
    .brackets _ _ rfl rfl
      (.commas fun text member => (printedEach_skips items text member).anywhere)
  | .paren _ inner => .brackets _ _ rfl rfl inner.printed_skips.anywhere
  | .index _ base subscript => by
    rw [printed, List.append_assoc]
    exact .append base.printed_skips (.brackets _ _ rfl rfl subscript.printed_skips.anywhere)
  | .call _ callee args => by
    rw [printed, List.append_assoc]
    exact .append callee.printed_skips (.brackets _ _ rfl rfl
      (.commas fun text member => (printedEach_skips args text member).anywhere))
  | .unary _ sign operand => .cons sign.isNeutral_token operand.printed_skips
  | .binary _ op left right =>
    .append left.printed_skips (.cons op.isNeutral_token right.printed_skips)

theorem printedEach_skips : (es : List Expr) → ∀ text ∈ printedEach es, SkipsOver 0 text
  | [] => nofun
  | e :: rest => List.forall_mem_cons.mpr ⟨e.printed_skips, printedEach_skips rest⟩

end

theorem printedInit_skips (init : Option Expr) : SkipsOver 0 (printedInit init) := by
  cases init with
  | none => exact .nil
  | some e => exact .cons rfl e.printed_skips

theorem printedCondition_skips (cond : Expr) : SkipsOver 0 cond.printedCondition :=
  .brackets _ _ rfl rfl cond.printed_skips.anywhere

theorem printedLabel_skips (label : Option Expr) : SkipsOver 0 (printedLabel label) := by
  cases label with
  | none => exact .cons rfl (.one rfl)
  | some e => exact .cons rfl (.append e.printed_skips (.one rfl))

end Expr

theorem printedSize_skips (size : Nat) : SkipsOver 0 (printedSize size) :=
  .brackets .lBracket .rBracket rfl rfl (.one rfl)

theorem Declarator.printed_skips (d : Declarator) : SkipsOver 0 d.printed :=
  .cons (isNeutral_name _)
    (.append (.flatMap fun size _ => printedSize_skips size) (Expr.printedInit_skips d.init))

namespace Simple

theorem printed_skips (t : Simple) : SkipsOver 0 t.printed := by
  cases t with
  | expr pos e => exact e.printed_skips
  | assign pos target value => exact .append target.printed_skips (.cons rfl value.printed_skips)

theorem printedHeader_skips (t : Option Simple) : SkipsOver 0 (printedHeader t) := by
  cases t with
  | none => exact .nil
  | some part => exact part.printed_skips

end Simple

namespace VarDecl

/-- A declaration without its semicolon. -/
def unended (v : VarDecl) : List Written :=
  (if v.isConst then [.symbol .constKw] else []) ++
    .symbol v.base.keyword :: Written.commas (v.declarators.map Declarator.printed)

theorem printed_eq_unended (v : VarDecl) : v.printed = v.unended ++ [.symbol .semicolon] := rfl

theorem unended_skips (v : VarDecl) : SkipsOver 0 v.unended := by
  refine .append ?_ (.cons v.base.isNeutral_keyword (.commas ?_))
  · split
    · exact .one rfl
    · exact .nil
  · intro text member
    obtain ⟨d, _, rfl⟩ := List.mem_map.mp member
    exact d.printed_skips

end VarDecl

/-- A text up to a semicolon is passed in brackets. -/
theorem skips_semicolon {text : List Written} (skips : SkipsOver 0 text) :
    SkipsOver 1 (text ++ [.symbol .semicolon]) :=
  .append skips.anywhere .semicolon

namespace Stmt

/-- The parts of a loop header, in parentheses. -/
def printedHeaders (init cond next : Option Simple) : List Written :=
  .symbol .lParen :: (Simple.printedHeader init ++
    ([.symbol .semicolon] ++ Simple.printedHeader cond) ++
    ([.symbol .semicolon] ++ Simple.printedHeader next)) ++ [.symbol .rParen]

theorem printedHeaders_skips (init cond next : Option Simple) :
    SkipsOver 0 (printedHeaders init cond next) := by
  have part (t : Option Simple) : SkipsOver 1 (Simple.printedHeader t) :=
    (Simple.printedHeader_skips t).anywhere
  refine .brackets _ _ rfl rfl (.append (.append (part init) ?_) ?_)
  · exact .append .semicolon (part cond)
  · exact .append .semicolon (part next)

theorem printed_forLoop (pos : Position) (init cond next : Option Simple) (body : Stmt) :
    (forLoop pos init cond next body).printed =
      .symbol .forKw :: (printedHeaders init cond next ++ body.printed) := by
  simp [printed, printedHeaders]

/-- The arguments of a print statement, in parentheses. -/
theorem printedArgs_skips (args : List Expr) :
    SkipsOver 0 (.symbol .lParen :: Written.commas (Expr.printedEach args) ++ [.symbol .rParen]) :=
  .brackets _ _ rfl rfl
    (.commas fun text member => (Expr.printedEach_skips args text member).anywhere)

theorem printed_print (pos : Position) (args : List Expr) :
    (print pos args).printed = .symbol .printfKw ::
      (.symbol .lParen :: Written.commas (Expr.printedEach args) ++ [.symbol .rParen]) ++
        [.symbol .semicolon] := by
  simp [printed]

mutual

theorem printed_skips : (t : Stmt) → SkipsOver 1 t.printed
  | .bad _ | .decl _ none => .nil
  | .empty _ => .semicolon
  | .decl _ (some v) => skips_semicolon v.unended_skips
  | .simple t => skips_semicolon t.printed_skips
  | .ret _ none => .cons rfl .semicolon
  | .ret _ (some value) => .cons rfl (skips_semicolon value.printed_skips)
  | .block _ body => .brackets _ _ rfl rfl (printedAll_skips body)
  | .branch _ cond yes none =>
    .cons rfl (.append cond.printedCondition_skips.anywhere yes.printed_skips)
  | .branch _ cond yes (some no) =>
    .cons rfl (.append (.append cond.printedCondition_skips.anywhere yes.printed_skips)
      (.cons rfl no.printed_skips))
  | .switch _ subject clauses => by
    rw [printed, List.append_assoc]
    exact .cons rfl (.append subject.printedCondition_skips.anywhere
      (.brackets _ _ rfl rfl (printedAll_skips clauses)))
  | .clause _ label body =>
    .append (Expr.printedLabel_skips label).anywhere (printedAll_skips body)
  | .forLoop pos init cond next body => by
    rw [printed_forLoop]
    exact .cons rfl (.append (printedHeaders_skips init cond next).anywhere body.printed_skips)
  | .whileLoop _ cond body =>
    .cons rfl (.append cond.printedCondition_skips.anywhere body.printed_skips)
  | .scan _ target => .cons rfl (skips_semicolon target.printedCondition_skips)
  | .print _ args => by
    rw [printed_print]
    exact skips_semicolon (.cons rfl (printedArgs_skips args))

theorem printedAll_skips : (stmts : List Stmt) → SkipsOver 1 (printedAll stmts)
  | [] => .nil
  | t :: rest => .append t.printed_skips (printedAll_skips rest)

end

end Stmt

end MiniC
