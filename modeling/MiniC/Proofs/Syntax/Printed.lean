import MiniC.Syntax
import MiniC.Expr.Composite

/-!
The tokens that a tree is written with. A printed token tells what the token of
a source has to be: a kind with one spelling, a kind with a text, or a number
known by its value alone. Array sizes are printed in the last way, since a tree
keeps their values and not their digits.
-/

namespace MiniC

/-- A separator between each two lists, or one after each but the last. -/
theorem separated_concat {α : Type} (separator : α) (first : List α) (later : List (List α))
    (last : List α) :
    first ++ (later ++ [last]).flatMap (separator :: ·) =
      (first :: later).flatMap (· ++ [separator]) ++ last := by
  induction later generalizing first with
  | nil => simp
  | cons second others ih =>
    have further := congrArg (first ++ [separator] ++ ·) (ih second)
    simpa using further

inductive Written where
  | symbol (kind : TokenKind)
  | exact (kind : TokenKind) (text : String)
  | size (value : Nat)

namespace Written

def Spells : Written → Token → Prop
  | .symbol kind, token => token.kind = kind ∧ kind.spelling? = some token.text
  | .exact kind text, token => token.kind = kind ∧ token.text = text
  | .size value, token => token.kind = .intLit ∧ Text.decimal token.text = value

instance (written : Written) (token : Token) : Decidable (written.Spells token) :=
  match written with
  | .symbol _ => inferInstanceAs (Decidable (_ ∧ _))
  | .exact _ _ => inferInstanceAs (Decidable (_ ∧ _))
  | .size _ => inferInstanceAs (Decidable (_ ∧ _))

/-- A name; `main` has a keyword of its own. -/
def name (text : String) : Written :=
  if text = "main" then .symbol .mainKw else .exact .ident text

/-- Lists of tokens with a comma between each two of them. -/
def commas : List (List Written) → List Written
  | [] => []
  | first :: later => first ++ later.flatMap (.symbol .comma :: ·)

/-- Lists of tokens with a comma after each of them. -/
def withCommas (texts : List (List Written)) : List Written :=
  texts.flatMap (· ++ [.symbol .comma])

theorem commas_concat (texts : List (List Written)) (last : List Written) :
    commas (texts ++ [last]) = withCommas texts ++ last := by
  cases texts with
  | nil => exact List.append_nil last
  | cons first later => exact separated_concat (.symbol .comma) first later last

theorem commas_comma {texts : List (List Written)} (nonempty : texts ≠ []) :
    commas texts ++ [.symbol .comma] = withCommas texts := by
  rw [← List.dropLast_concat_getLast nonempty, commas_concat]
  simp [withCommas]

end Written

def LitKind.token : LitKind → TokenKind
  | .int => .intLit
  | .char => .charLit
  | .string => .strLit

def Sign.token : Sign → TokenKind
  | .plus => .plus
  | .minus => .minus

def BinOp.token : BinOp → TokenKind
  | .add => .plus
  | .sub => .minus
  | .mul => .star
  | .div => .slash
  | .lt => .lt
  | .le => .le
  | .gt => .gt
  | .ge => .ge
  | .eq => .eqEq
  | .ne => .notEq

/-- The keyword of a base type; the other types have none and are never
declared. -/
def Ty.keyword : Ty → TokenKind
  | .int => .intKw
  | .char => .charKw
  | _ => .voidKw

open Written (commas)

mutual

def Expr.printed : Expr → List Written
  | .bad _ => []
  | .ident _ name => [.name name]
  | .lit _ kind text => [.exact kind.token text]
  | .composite _ items =>
    .symbol .lBrace :: commas (Expr.printedEach items) ++ [.symbol .rBrace]
  | .paren _ inner => .symbol .lParen :: inner.printed ++ [.symbol .rParen]
  | .index _ base subscript =>
    base.printed ++ .symbol .lBracket :: subscript.printed ++ [.symbol .rBracket]
  | .call _ callee args =>
    callee.printed ++ .symbol .lParen :: commas (Expr.printedEach args) ++ [.symbol .rParen]
  | .unary _ sign operand => .symbol sign.token :: operand.printed
  | .binary _ op left right => left.printed ++ .symbol op.token :: right.printed

def Expr.printedEach : List Expr → List (List Written)
  | [] => []
  | e :: rest => e.printed :: Expr.printedEach rest

end

def Expr.printedInit : Option Expr → List Written
  | none => []
  | some e => .symbol .assign :: e.printed

def printedSize (size : Nat) : List Written := [.symbol .lBracket, .size size, .symbol .rBracket]

def Declarator.printed (d : Declarator) : List Written :=
  .name d.name.text ::
    d.sizes.flatMap printedSize ++ Expr.printedInit d.init

def VarDecl.printed (v : VarDecl) : List Written :=
  (if v.isConst then [.symbol .constKw] else []) ++
    .symbol v.base.keyword :: commas (v.declarators.map Declarator.printed) ++
    [.symbol .semicolon]

def Simple.printed : Simple → List Written
  | .expr _ e => e.printed
  | .assign _ target value => target.printed ++ .symbol .assign :: value.printed

def Simple.printedHeader : Option Simple → List Written
  | none => []
  | some s => s.printed

/-- An expression in parentheses, as it follows a keyword. -/
def Expr.printedCondition (cond : Expr) : List Written :=
  .symbol .lParen :: cond.printed ++ [.symbol .rParen]

def Expr.printedLabel : Option Expr → List Written
  | none => [.symbol .defaultKw, .symbol .colon]
  | some e => .symbol .caseKw :: e.printed ++ [.symbol .colon]

mutual

def Stmt.printed : Stmt → List Written
  | .bad _ => []
  | .empty _ => [.symbol .semicolon]
  | .decl _ none => []
  | .decl _ (some vars) => vars.printed
  | .simple s => s.printed ++ [.symbol .semicolon]
  | .ret _ none => [.symbol .returnKw, .symbol .semicolon]
  | .ret _ (some value) => .symbol .returnKw :: value.printed ++ [.symbol .semicolon]
  | .block _ body => .symbol .lBrace :: Stmt.printedAll body ++ [.symbol .rBrace]
  | .branch _ cond yes none => .symbol .ifKw :: cond.printedCondition ++ yes.printed
  | .branch _ cond yes (some no) =>
    .symbol .ifKw :: cond.printedCondition ++ yes.printed ++ .symbol .elseKw :: no.printed
  | .switch _ subject clauses =>
    .symbol .switchKw :: subject.printedCondition ++
      .symbol .lBrace :: Stmt.printedAll clauses ++ [.symbol .rBrace]
  | .clause _ label body => Expr.printedLabel label ++ Stmt.printedAll body
  | .forLoop _ init cond next body =>
    .symbol .forKw :: .symbol .lParen :: Simple.printedHeader init ++
      .symbol .semicolon :: Simple.printedHeader cond ++
      .symbol .semicolon :: Simple.printedHeader next ++
      .symbol .rParen :: body.printed
  | .whileLoop _ cond body => .symbol .whileKw :: cond.printedCondition ++ body.printed
  | .scan _ target => .symbol .scanfKw :: target.printedCondition ++ [.symbol .semicolon]
  | .print _ args =>
    .symbol .printfKw :: .symbol .lParen :: commas (Expr.printedEach args) ++
      [.symbol .rParen, .symbol .semicolon]

def Stmt.printedAll : List Stmt → List Written
  | [] => []
  | s :: rest => s.printed ++ Stmt.printedAll rest

end

def Param.printed (param : Param) : List Written :=
  [.symbol param.ty.keyword, .name param.name.text]

def FuncDecl.printed (f : FuncDecl) : List Written :=
  .symbol f.returns.keyword :: .name f.name.text ::
    .symbol .lParen :: commas (f.params.params.map Param.printed) ++
    .symbol .rParen :: .symbol .lBrace :: Stmt.printedAll f.body ++ [.symbol .rBrace]

def Decl.printed : Decl → List Written
  | .bad _ => []
  | .func _ f => f.printed
  | .vars _ v => v.printed

def File.printed (file : File) : List Written := file.decls.flatMap Decl.printed

theorem Expr.printedEach_eq_map (es : List Expr) : Expr.printedEach es = es.map Expr.printed := by
  induction es with
  | nil => rfl
  | cons e rest ih => rw [Expr.printedEach, ih, List.map_cons]

theorem Stmt.printedAll_eq (stmts : List Stmt) :
    Stmt.printedAll stmts = stmts.flatMap Stmt.printed := by
  induction stmts with
  | nil => rfl
  | cons s rest ih => rw [Stmt.printedAll, ih, List.flatMap_cons]

end MiniC
