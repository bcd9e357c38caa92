import MiniC.Check.Basic

/-!
The types of expressions in a scope. A character literal holds a letter, a
digit, or one of a few signs; a string holds printable ASCII. Behind a backslash
a string may hold anything, since scanning has looked at its escapes.

Arithmetic is on `int` alone, comparisons have a value only in a condition, and a
chain of subscripts is judged as a whole: its subscripts first, in source order,
then the array they apply to. An expression without a type has been reported,
and nothing is said about it again.

The type of a composite literal is found level by level. A level is the items of
all literals at one depth. It holds either nested literals alone, all of one
length, which is the size of that dimension, or elements alone, all of one
basic type. A fault of shape is reported once, for the whole literal, and its
elements are not looked at then.
-/

namespace MiniC

namespace Literal

open Text (ascii)

def isCharContent (b : UInt8) : Bool :=
  (ascii 'a' ≤ b && b ≤ ascii 'z') || (ascii 'A' ≤ b && b ≤ ascii 'Z') ||
    (ascii '0' ≤ b && b ≤ ascii '9') ||
    b ∈ [ascii '_', ascii '+', ascii '-', ascii '*', ascii '/']

def isStringContent (b : UInt8) : Bool := 32 ≤ b && b ≤ 126 && b != ascii '"'

/-- The first byte of a string that stands for itself and may not. -/
def forbiddenInString? : List UInt8 → Option UInt8
  | [] => none
  | b :: rest =>
    if b = ascii '\\' then
      match rest with
      | [] => none
      | _ :: tail => forbiddenInString? tail
    else if isStringContent b then forbiddenInString? rest
    else some b

def forbiddenInChar? (content : List UInt8) : Option UInt8 := content.find? (!isCharContent ·)

def checkContent (pos : Position) (kind : QuotedKind) (ty : Ty) (content : List UInt8)
    (forbidden : Option UInt8) : Verdict Ty :=
  if content.isEmpty then .reject pos (.emptyLiteral kind)
  else
    match forbidden with
    | some b => .reject pos (.forbiddenByte kind b)
    | none => pure ty

/-- The type of a literal, from its kind and its text as written. -/
def check (pos : Position) (kind : LitKind) (text : String) : Verdict Ty :=
  match kind with
  | .int => pure .int
  | .char =>
    let content := Text.unquote (ascii '\'') (Text.bytes text)
    checkContent pos .char .char content (forbiddenInChar? content)
  | .string =>
    let content := Text.unquote (ascii '"') (Text.bytes text)
    checkContent pos .string .string content (forbiddenInString? content)

end Literal

open Verdict (report reject)
open Visiting (visit)

variable {v : Type → Type} [Monad v] [MonadLiftT Verdict v] [Visiting v]

/-- An expression with the subscripts behind it taken off. -/
structure Chain (v : Type → Type) where
  base : Expr
  /-- What the base is found to be. -/
  baseType : v Ty
  /-- Whether all subscripts are numbers. -/
  subscripts : v Bool
  /-- The subscripted expressions of the chain, the whole first. -/
  links : List Expr

namespace Chain

def single (base : Expr) (baseType : v Ty) : Chain v := ⟨base, visit [base] baseType, pure true, []⟩

def count (chain : Chain v) : Nat := chain.links.length

def checkSubscript (pos : Position) (found : v Ty) : v Bool := do
  match ← found with
  | .invalid | .int => pure true
  | ty =>
    report pos (.subscriptNotInt ty)
    pure false

def extend (chain : Chain v) (link : Expr) (pos : Position) (subscript : v Ty) : Chain v :=
  { chain with
    subscripts := do
      let before ← chain.subscripts
      let here ← checkSubscript pos subscript
      pure (before && here)
    links := link :: chain.links }

/-- The type of an array's elements, however many dimensions are covered. -/
def elementType (chain : Chain v) (pos : Position) (areNumbers : Bool) (array : Ty) : Verdict Ty :=
  if array.isInvalid then pure .invalid
  else if !array.isArray then reject chain.base.pos (.subscriptOfNonArray array)
  else if array.sizes.length < chain.count then reject pos (.tooManySubscripts array)
  else pure (if areNumbers then array.leaf else .invalid)

/-- The type of the whole chain, which stands at `pos`. -/
def type (chain : Chain v) (pos : Position) : v Ty :=
  if chain.count = 0 then chain.baseType
  else visit chain.links do
    let areNumbers ← chain.subscripts
    let array ← chain.baseType
    match chain.base with
    | .ident _ _ => chain.elementType pos areNumbers array
    | base => if array.isInvalid then pure .invalid else reject base.pos .subscriptOfNonVariable

end Chain

/-- An operand of a sign or of an arithmetic operator. -/
def requireInt (pos : Position) (operator : String) : Ty → Verdict Ty
  | .invalid => pure .invalid
  | .int => pure .int
  | ty => reject pos (.operandNotInt operator ty)

def typeOfName (scope : Scope) (pos : Position) (name : String) : Verdict Ty :=
  match scope.var? name with
  | some symbol => pure symbol.ty
  | none => reject pos (.undefinedVariable name)

/-- An argument against the parameter it is for. -/
def checkArgument (func : String) (param : Param) (pos : Position) (found : Ty) : Verdict Unit :=
  if found.isInvalid || param.ty.isInvalid || found = param.ty then pure ()
  else report pos (.argumentType found param.ty param.name.text func)

mutual

def Expr.chain (scope : Scope) : Expr → Chain v
  | .bad pos => .single (.bad pos) (pure .invalid)
  | .ident pos name => .single (.ident pos name) (typeOfName scope pos name)
  | .lit pos kind text => .single (.lit pos kind text) (Literal.check pos kind text)
  | .composite pos items => .single (.composite pos items) (reject pos .misplacedComposite)
  | .paren pos inner => .single (.paren pos inner) ((inner.chain scope).type inner.pos)
  | .index pos base subscript =>
    (base.chain scope).extend (.index pos base subscript) subscript.pos
      ((subscript.chain scope).type subscript.pos)
  | .call pos callee args =>
    .single (.call pos callee args) <|
      match callee with
      | .ident calleePos name =>
        match scope.func? name with
        | none => do
          visit [.ident calleePos name] (report calleePos (.undefinedFunction name))
          Expr.checkArguments scope name [] args
          pure .invalid
        | some known => visit [.ident calleePos name] do
          let params := known.decl.params.params
          if args.length ≠ params.length then
            report pos (.argumentCount name args.length params.length)
            Expr.checkArguments scope name [] args
          else Expr.checkArguments scope name params args
          pure known.decl.returns
      | _ => do
        discard ((callee.chain scope).type callee.pos)
        report callee.pos .callOfNonFunction
        Expr.checkArguments scope "" [] args
        pure .invalid
  | .unary pos sign operand =>
    .single (.unary pos sign operand) do
      let found ← (operand.chain scope).type operand.pos
      requireInt operand.pos sign.symbol found
  | .binary pos op left right =>
    .single (.binary pos op left right) <|
      if op.isRelational then do
        report pos (.misplacedRelational op)
        discard ((left.chain scope).type left.pos)
        discard ((right.chain scope).type right.pos)
        pure .invalid
      else do
        let leftFound ← (left.chain scope).type left.pos
        let rightFound ← (right.chain scope).type right.pos
        let leftType ← requireInt left.pos op.symbol leftFound
        let rightType ← requireInt right.pos op.symbol rightFound
        pure (if leftType.isInvalid || rightType.isInvalid then .invalid else leftType)

/-- Arguments in order, each against its parameter as long as there is one. -/
def Expr.checkArguments (scope : Scope) (func : String) : List Param → List Expr → v Unit
  | _, [] => pure ()
  | [], arg :: rest => do
    discard ((arg.chain scope).type arg.pos)
    Expr.checkArguments scope func [] rest
  | param :: params, arg :: rest => do
    let found ← (arg.chain scope).type arg.pos
    checkArgument func param arg.pos found
    Expr.checkArguments scope func params rest

end

/-- The type of an expression whose value is used. -/
def Expr.type (scope : Scope) (e : Expr) : v Ty := (e.chain scope).type e.pos

/-- Checks an expression for its problems alone. -/
def Expr.check (scope : Scope) (e : Expr) : v Unit := discard (e.type scope)

/-- The expression in its parentheses, one pair after the other. -/
def Expr.parens : Expr → List Expr
  | paren pos inner => paren pos inner :: inner.parens
  | _ => []

/-- A condition is a comparison, possibly in parentheses. -/
def Expr.checkCondition (scope : Scope) (cond : Expr) : v Unit :=
  visit cond.parens <|
    match cond.unparen with
    | .bad pos => visit [.bad pos] (pure ())
    | .binary pos op left right =>
      if op.isRelational then visit [.binary pos op left right] do
        left.check scope
        right.check scope
      else do
        Expr.check scope (.binary pos op left right)
        report cond.pos .conditionNotRelational
    | inner => do
      inner.check scope
      report cond.pos .conditionNotRelational

def Expr.items? : Expr → Option (List Expr)
  | .composite _ items => some items
  | _ => none

mutual

/-- Composite literals in a tree of composite literals. -/
def Expr.literals : Expr → Nat
  | .composite _ items => Expr.literalsOfAll items + 1
  | _ => 0

def Expr.literalsOfAll : List Expr → Nat
  | [] => 0
  | e :: rest => e.literals + Expr.literalsOfAll rest

end

namespace Shape

theorem literalsOfAll_append (left right : List Expr) :
    Expr.literalsOfAll (left ++ right) = Expr.literalsOfAll left + Expr.literalsOfAll right := by
  induction left with
  | nil => simp [Expr.literalsOfAll]
  | cons e rest ih => simp [Expr.literalsOfAll, ih, Nat.add_assoc]

/-- The level below has fewer literals, as long as there is one to open. -/
theorem literals_next (level : List Expr) :
    Expr.literalsOfAll (level.filterMap Expr.items?).flatten + (level.filterMap Expr.items?).length =
      Expr.literalsOfAll level := by
  induction level with
  | nil => rfl
  | cons e rest ih =>
    cases e with
    | composite pos items =>
      simp only [List.filterMap_cons, Expr.items?, List.flatten_cons, literalsOfAll_append,
        List.length_cons, Expr.literalsOfAll, Expr.literals]
      omega
    | _ => simpa [List.filterMap_cons, Expr.items?, Expr.literalsOfAll, Expr.literals] using ih

/-- What the elements read so far come to. -/
structure Elements where
  /-- The type of the first element that has a basic one. -/
  leaf : Option Ty
  areGood : Bool

def addElement (sofar : Elements) (pos : Position) (found : Ty) : Verdict Elements :=
  if found.isInvalid then pure { sofar with areGood := false }
  else if !found.isBasic then do
    report pos (.compositeElement found)
    pure { sofar with areGood := false }
  else
    match sofar.leaf with
    | none => pure { sofar with leaf := some found }
    | some first =>
      if first = found then pure sofar
      else do
        report pos (.mixedElements first found)
        pure { sofar with areGood := false }

def addElements (scope : Scope) : Elements → List Expr → v Elements
  | sofar, [] => pure sofar
  | sofar, e :: rest => do
    let found ← e.type scope
    let next ← addElement sofar e.pos found
    addElements scope next rest

/-- The type of an array with the given elements at its innermost level. -/
def ofElements (scope : Scope) (sizes : List Nat) (level : List Expr) : v Ty := do
  let elements ← addElements scope ⟨none, true⟩ level
  match elements.leaf with
  | some leaf => pure (if elements.areGood then .arrayOf leaf sizes else .invalid)
  | none => pure .invalid

/-- Goes down a level at a time; `sizes` are those of the levels above. The literals of
a level are gone to together, before it is known whether the levels below are. -/
def ofLevel (scope : Scope) (pos : Position) (sizes : List Nat) (level : List Expr) : v Ty :=
  match _ : level.filterMap Expr.items? with
  | [] => ofElements scope sizes level
  | first :: others => visit (level.filter (·.items?.isSome)) <|
    if others.length + 1 < level.length then reject pos (.mixedLevel (sizes.length + 1))
    else if others.any (·.length ≠ first.length) then reject pos (.unevenRows (sizes.length + 1))
    else if first.isEmpty then reject pos .emptyComposite
    else ofLevel scope pos (sizes ++ [first.length]) (first :: others).flatten
termination_by Expr.literalsOfAll level
decreasing_by
  rename_i rows _ _ _
  have fewer := literals_next level
  rw [rows] at fewer
  simp only [List.length_cons] at fewer
  omega

section Levels

variable (scope : Scope) (pos : Position) (sizes : List Nat) {level first : List Expr}
  {others : List (List Expr)}

/-- The last level, in which no item is a literal of its own. -/
theorem ofLevel_nil (rows : level.filterMap Expr.items? = []) :
    (ofLevel scope pos sizes level : v Ty) = ofElements scope sizes level := by
  rw [ofLevel]
  split
  · rfl
  · next found => cases rows.symm.trans found

theorem ofLevel_cons (rows : level.filterMap Expr.items? = first :: others) :
    (ofLevel scope pos sizes level : v Ty) =
      (visit (level.filter (·.items?.isSome)) <|
        if others.length + 1 < level.length then reject pos (.mixedLevel (sizes.length + 1))
        else if others.any (·.length ≠ first.length) then
          reject pos (.unevenRows (sizes.length + 1))
        else if first.isEmpty then reject pos .emptyComposite
        else ofLevel scope pos (sizes ++ [first.length]) (first :: others).flatten : v Ty) := by
  rw [ofLevel]
  split
  · next found => cases rows.symm.trans found
  · next found =>
    cases rows.symm.trans found
    rfl

end Levels

end Shape

/-- The type of a composite literal as an initial value. -/
def Expr.compositeType (scope : Scope) (literal : Expr) : v Ty :=
  Shape.ofLevel scope literal.pos [] [literal]

end MiniC
