import MiniC.Expr.Typing
import MiniC.Stmt.Check
import MiniC.Proofs.Syntax.Grammatical

/-!
The types of expressions as a relation, over what a scope shows of its
variables and functions. Comparisons and composite literals have no type. A
chain of subscripts is one expression: its type is that of the innermost
elements, however many of the dimensions it covers.
-/

namespace MiniC

namespace Literal

open Text (ascii)

def charContent (text : String) : List UInt8 := Text.unquote (ascii '\'') (Text.bytes text)

def stringContent (text : String) : List UInt8 := Text.unquote (ascii '"') (Text.bytes text)

/-- Bytes that a string may hold: printable ones, and anything behind a
backslash. -/
inductive StringContent : List UInt8 → Prop where
  | nil : StringContent []
  | plain {b : UInt8} {rest : List UInt8} : b ≠ ascii '\\' → isStringContent b = true →
      StringContent rest → StringContent (b :: rest)
  | escape (b : UInt8) {rest : List UInt8} : StringContent rest →
      StringContent (ascii '\\' :: b :: rest)
  | cut : StringContent [ascii '\\']

theorem forbiddenInChar?_eq_none (content : List UInt8) :
    forbiddenInChar? content = none ↔ ∀ b ∈ content, isCharContent b = true := by
  simp [forbiddenInChar?]

theorem forbiddenInString?_eq_none (content : List UInt8) :
    forbiddenInString? content = none ↔ StringContent content := by
  constructor
  · intro none
    fun_induction forbiddenInString? content with
    | case1 => exact .nil
    | case2 => exact .cut
    | case3 b tail ih => exact .escape b (ih none)
    | case4 b rest other allowed ih => exact .plain other allowed (ih none)
    | case5 => simp at none
  · intro content
    induction content with
    | nil => rfl
    | plain other allowed _ ih =>
      unfold forbiddenInString?
      simp only [if_neg other, if_pos allowed, ih]
    | escape _ _ ih => simp only [forbiddenInString?, if_true, ih]
    | cut => rfl

end Literal

namespace Expr

mutual

/-- Nothing in the expression stands for one that could not be read. -/
def NoBad : Expr → Prop
  | bad _ => False
  | ident _ _ | lit _ _ _ => True
  | composite _ items => AllNoBad items
  | paren _ inner => inner.NoBad
  | index _ base subscript => base.NoBad ∧ subscript.NoBad
  | call _ callee args => callee.NoBad ∧ AllNoBad args
  | unary _ _ operand => operand.NoBad
  | binary _ _ left right => left.NoBad ∧ right.NoBad

def AllNoBad : List Expr → Prop
  | [] => True
  | e :: rest => e.NoBad ∧ AllNoBad rest

end

mutual

theorem Grammatical.noBad : (e : Expr) → e.Grammatical → e.NoBad
  | ident _ _, _ | lit _ _ _, _ => by simp only [NoBad]
  | paren _ inner, grammatical => Grammatical.noBad inner grammatical
  | index _ base subscript, ⟨_, goodBase, good⟩ =>
    ⟨Grammatical.noBad base goodBase, Grammatical.noBad subscript good⟩
  | call _ callee args, ⟨_, goodCallee, good⟩ =>
    ⟨Grammatical.noBad callee goodCallee, AllGrammatical.noBad args good⟩
  | unary _ _ operand, ⟨_, good⟩ => Grammatical.noBad operand good
  | binary _ _ left right, ⟨_, _, goodLeft, good⟩ =>
    ⟨Grammatical.noBad left goodLeft, Grammatical.noBad right good⟩

theorem AllGrammatical.noBad : (es : List Expr) → AllGrammatical es → AllNoBad es
  | [], _ => trivial
  | e :: rest, ⟨good, later⟩ => ⟨Grammatical.noBad e good, AllGrammatical.noBad rest later⟩

end

/-- The subscripts behind an expression, the first one first. -/
def subscripts : Expr → List Expr
  | index _ base subscript => base.subscripts ++ [subscript]
  | _ => []

end Expr

/-- What an expression sees of a scope: the types of the visible variables, and
the functions. -/
structure View where
  var : String → Ty → Prop
  func : String → FuncDecl → Prop

mutual

inductive HasType (view : View) : Expr → Ty → Prop where
  | int (pos : Position) (text : String) : HasType view (.lit pos .int text) .int
  | char (pos : Position) {text : String} : Literal.charContent text ≠ [] →
      (∀ b ∈ Literal.charContent text, Literal.isCharContent b = true) →
      HasType view (.lit pos .char text) .char
  | string (pos : Position) {text : String} : Literal.stringContent text ≠ [] →
      Literal.StringContent (Literal.stringContent text) →
      HasType view (.lit pos .string text) .string
  | ident (pos : Position) {name : String} {ty : Ty} : view.var name ty →
      HasType view (.ident pos name) ty
  | paren (pos : Position) {inner : Expr} {ty : Ty} : HasType view inner ty →
      HasType view (.paren pos inner) ty
  | unary (pos : Position) (sign : Sign) {operand : Expr} : HasType view operand .int →
      HasType view (.unary pos sign operand) .int
  | binary (pos : Position) {op : BinOp} {left right : Expr} : op.isRelational = false →
      HasType view left .int → HasType view right .int →
      HasType view (.binary pos op left right) .int
  | index {pos place : Position} {base subscript : Expr} {name : String} {array : Ty} :
      base.indexBase = .ident place name → view.var name array → array.isArray = true →
      base.subscripts.length + 1 ≤ array.sizes.length →
      (∀ i ∈ base.subscripts, HasType view i .int) → HasType view subscript .int →
      HasType view (.index pos base subscript) array.leaf
  | call (pos place : Position) {name : String} {f : FuncDecl} {args : List Expr} :
      view.func name f → Fits view f.params.params args →
      HasType view (.call pos (.ident place name) args) f.returns

/-- Arguments, one for each parameter and of its type; a parameter without a
valid type takes anything that has a type. -/
inductive Fits (view : View) : List Param → List Expr → Prop where
  | nil : Fits view [] []
  | cons {param : Param} {arg : Expr} {ty : Ty} {params : List Param} {args : List Expr} :
      HasType view arg ty → ty = param.ty ∨ param.ty = .invalid → Fits view params args →
      Fits view (param :: params) (arg :: args)

end

namespace HasType

variable {view : View} {pos : Position} {ty : Ty}

theorem ident_iff {name : String} : HasType view (.ident pos name) ty ↔ view.var name ty := by
  constructor
  · rintro (_ | _)
    assumption
  · exact .ident pos

theorem paren_iff {inner : Expr} :
    HasType view (.paren pos inner) ty ↔ HasType view inner ty := by
  constructor
  · rintro (_ | _)
    assumption
  · exact .paren pos

theorem unary_iff {sign : Sign} {operand : Expr} :
    HasType view (.unary pos sign operand) ty ↔ ty = .int ∧ HasType view operand .int := by
  constructor
  · rintro (_ | _)
    exact ⟨rfl, by assumption⟩
  · rintro ⟨rfl, typed⟩
    exact .unary pos sign typed

theorem binary_iff {op : BinOp} {left right : Expr} :
    HasType view (.binary pos op left right) ty ↔
      ty = .int ∧ op.isRelational = false ∧ HasType view left .int ∧ HasType view right .int := by
  constructor
  · rintro (_ | _)
    exact ⟨rfl, by assumption, by assumption, by assumption⟩
  · rintro ⟨rfl, arithmetic, typedLeft, typedRight⟩
    exact .binary pos arithmetic typedLeft typedRight

theorem call_iff {callee : Expr} {args : List Expr} :
    HasType view (.call pos callee args) ty ↔ ∃ place name f, callee = .ident place name ∧
      view.func name f ∧ Fits view f.params.params args ∧ ty = f.returns := by
  constructor
  · rintro (_ | _)
    exact ⟨_, _, _, rfl, by assumption, by assumption, rfl⟩
  · rintro ⟨place, name, f, rfl, found, fits, rfl⟩
    exact .call pos place found fits

theorem index_iff {base subscript : Expr} :
    HasType view (.index pos base subscript) ty ↔ ∃ place name array,
      base.indexBase = .ident place name ∧ view.var name array ∧ array.isArray = true ∧
        base.subscripts.length + 1 ≤ array.sizes.length ∧
          (∀ i ∈ base.subscripts ++ [subscript], HasType view i .int) ∧ ty = array.leaf := by
  constructor
  · rintro (_ | _)
    refine ⟨_, _, _, by assumption, by assumption, by assumption, by assumption, ?_, rfl⟩
    rw [List.forall_mem_append, List.forall_mem_singleton]
    constructor <;> assumption
  · rintro ⟨place, name, array, isName, found, isArray, within, numbers, rfl⟩
    rw [List.forall_mem_append, List.forall_mem_singleton] at numbers
    exact .index isName found isArray within numbers.1 numbers.2

end HasType

theorem Fits.length_eq {view : View} {params : List Param} {args : List Expr}
    (fits : Fits view params args) : params.length = args.length := by
  induction args generalizing params with
  | nil =>
    cases fits
    rfl
  | cons arg rest ih =>
    cases fits with
    | cons _ _ later => rw [List.length_cons, List.length_cons, ih later]

theorem Fits.cons_iff {view : View} {param : Param} {params : List Param} {arg : Expr}
    {args : List Expr} : Fits view (param :: params) (arg :: args) ↔
      (∃ ty, HasType view arg ty ∧ (ty = param.ty ∨ param.ty = .invalid)) ∧
        Fits view params args := by
  constructor
  · rintro (_ | _)
    exact ⟨⟨_, by assumption, by assumption⟩, by assumption⟩
  · rintro ⟨⟨ty, typed, allowed⟩, later⟩
    exact .cons typed allowed later

end MiniC
