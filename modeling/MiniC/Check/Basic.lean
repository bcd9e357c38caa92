import MiniC.Event
import MiniC.Scope

/-!
What checking a tree comes to. A problem has its kind and its words. Checking a
part of a tree in a scope comes to a verdict: a value, and the problems met on
the way, in order. Checks are written once, for verdicts alone and for those that
come with an account of the nodes gone to.

A check may also change the scope. Besides the scope it keeps whether the
function at hand has returned a value anywhere. All that happens goes into a
log, problems in the order in which they are met. Statements, too, are gone through
in one way only, by the checker and by what watches it.
-/

namespace MiniC

/-- The literals whose contents are looked at. -/
inductive QuotedKind where
  | char | string
deriving DecidableEq

def QuotedKind.name : QuotedKind → String
  | .char => "char"
  | .string => "string"

inductive Problem where
  -- names
  | redeclared (name : String)
  | duplicateParameter (name : String)
  | undefinedVariable (name : String)
  | undefinedFunction (name : String)
  | missingMain (file : String)
  -- initial values
  | compositeForScalar (declared : Ty)
  | initMismatch (found declared : Ty)
  | plainForArray (declared : Ty)
  | compositeMismatch (found declared : Ty)
  | unevenRows (dimension : Nat)
  | emptyComposite
  | mixedLevel (dimension : Nat)
  | compositeElement (found : Ty)
  | mixedElements (first found : Ty)
  -- expressions
  | emptyLiteral (kind : QuotedKind)
  | forbiddenByte (kind : QuotedKind) (b : UInt8)
  | misplacedComposite
  | misplacedRelational (op : BinOp)
  | operandNotInt (operator : String) (found : Ty)
  | subscriptNotInt (found : Ty)
  | subscriptOfNonVariable
  | subscriptOfNonArray (found : Ty)
  | tooManySubscripts (array : Ty)
  | callOfNonFunction
  | argumentCount (func : String) (given want : Nat)
  | argumentType (found declared : Ty) (param func : String)
  -- statements
  | conditionNotRelational
  | loopConditionNotRelational
  | assignToConst (name : String)
  | assignToArray (name : String)
  | assignToConstElement (name : String)
  | assignToExpression
  | valueFromVoid (func : String)
  | returnMismatch (found declared : Ty)
  | returnWithoutValue (func : String) (declared : Ty)
  | neverReturns (func : String) (declared : Ty)
  | switchSubject (found : Ty)
  | switchLabel (found subject : Ty)
  | secondDefault
  | missingDefault
  | scanIntoExpression
  | scanIntoArray (name : String)
  | scanIntoConst (name : String)
  | printArity (count : Nat)
  | printStringLate
  | printWithoutFormat
  | printValue (found : Ty)
deriving DecidableEq

namespace Problem

def kind : Problem → DiagnosticKind
  | redeclared _ | duplicateParameter _ => .redefine
  | undefinedVariable _ | undefinedFunction _ => .undefine
  | missingMain _ => .missingMain
  | compositeForScalar _ | initMismatch _ _ => .typeMismatch
  | plainForArray _ | compositeMismatch _ _ | unevenRows _ | emptyComposite | mixedLevel _
  | compositeElement _ | mixedElements _ _ => .compositeLitSizeError
  | emptyLiteral _ | forbiddenByte _ _ => .emptyCharOrStringLit
  | misplacedRelational _ => .relationalNotAllowed
  | subscriptNotInt _ => .indexTypeNotAllowed
  | misplacedComposite | operandNotInt _ _ | subscriptOfNonVariable | subscriptOfNonArray _
  | tooManySubscripts _ | callOfNonFunction => .typeMismatch
  | argumentCount _ _ _ => .argNumberNotMatched
  | argumentType _ _ _ _ => .argTypeNotMatched
  | conditionNotRelational | loopConditionNotRelational => .condValueNotMatched
  | assignToConst _ | assignToConstElement _ | scanIntoConst _ => .updateConstValue
  | assignToArray _ | assignToExpression | returnMismatch _ _ => .typeMismatch
  | valueFromVoid _ => .returnValueNotAllowed
  | returnWithoutValue _ _ | neverReturns _ _ => .returnValueRequired
  | switchSubject _ | switchLabel _ _ => .switchTypeError
  | secondDefault => .duplicateDefault
  | missingDefault => .defaultExpected
  | printArity _ => .argNumberNotMatched
  | scanIntoExpression | scanIntoArray _ | printStringLate | printWithoutFormat
  | printValue _ => .typeMismatch

def message : Problem → String
  | redeclared name => name ++ " redeclared in this block"
  | duplicateParameter name => "duplicate argument " ++ name
  | undefinedVariable name => "undefined: " ++ name
  | undefinedFunction name => "undefined function: " ++ name
  | missingMain file => file ++ ": function main is undeclared"
  | compositeForScalar declared =>
    "cannot use composite literal as " ++ declared.display ++ " value"
  | initMismatch found declared =>
    "cannot use " ++ found.display ++ " value as " ++ declared.display ++
      " value in initializer"
  | plainForArray declared =>
    "array of type " ++ declared.display ++ " must be initialized with a composite literal"
  | compositeMismatch found declared =>
    "composite literal of type " ++ found.display ++ " does not match " ++ declared.display
  | unevenRows dimension =>
    "composite literal rows differ in length at dimension " ++ toString dimension
  | emptyComposite => "empty composite literal"
  | mixedLevel dimension =>
    "composite literal mixes values and nested literals at dimension " ++ toString dimension
  | compositeElement found =>
    "composite literal element must be int or char, found " ++ found.display
  | mixedElements first found =>
    "composite literal mixes " ++ first.display ++ " and " ++ found.display ++ " elements"
  | emptyLiteral kind => "empty " ++ kind.name ++ " literal"
  | forbiddenByte kind b =>
    kind.name ++ " literal contains disallowed character " ++ Text.quotedByte b
  | misplacedComposite => "composite literal is only allowed as an array initializer"
  | misplacedRelational op => "operator " ++ op.symbol ++ " is only allowed in a condition"
  | operandNotInt operator found =>
    "invalid operand for " ++ operator ++ ": expected int, found " ++ found.display
  | subscriptNotInt found => "invalid array index: expected int, found " ++ found.display
  | subscriptOfNonVariable => "only array variables can be indexed"
  | subscriptOfNonArray found => "cannot index non-array value of type " ++ found.display
  | tooManySubscripts array => "too many indices for array of type " ++ array.display
  | callOfNonFunction => "only functions can be called"
  | argumentCount func given want =>
    "wrong argument count in call to " ++ func ++ ": have " ++ toString given ++ ", want " ++
      toString want
  | argumentType found declared param func =>
    "cannot use " ++ found.display ++ " value as " ++ declared.display ++ " argument " ++ param ++
      " in call to " ++ func
  | conditionNotRelational => "condition must be a relational expression"
  | loopConditionNotRelational => "for condition must be a relational expression"
  | assignToConst name => "cannot assign to " ++ name ++ " (declared const)"
  | assignToArray name => "cannot assign to array " ++ name
  | assignToConstElement name => "cannot assign to element of " ++ name ++ " (declared const)"
  | assignToExpression => "cannot assign to expression"
  | valueFromVoid func => "too many return values: " ++ func ++ " returns void"
  | returnMismatch found declared =>
    "cannot use " ++ found.display ++ " value as " ++ declared.display ++
      " value in return statement"
  | returnWithoutValue func declared =>
    "not enough return values: " ++ func ++ " returns " ++ declared.display
  | neverReturns func declared =>
    "missing return in function " ++ func ++ " returning " ++ declared.display
  | switchSubject found => "switch on " ++ found.display ++ " value; expected int or char"
  | switchLabel found subject =>
    "case of type " ++ found.display ++ " in switch on " ++ subject.display
  | secondDefault => "multiple defaults in switch"
  | missingDefault => "switch is missing a default case"
  | scanIntoExpression => "scanf target must be a variable"
  | scanIntoArray name => "scanf target " ++ name ++ " is an array"
  | scanIntoConst name => "cannot scanf into " ++ name ++ " (declared const)"
  | printArity count => "printf takes one or two arguments, have " ++ toString count
  | printStringLate => "string literal is only allowed as the first printf argument"
  | printWithoutFormat => "first of two printf arguments must be a string literal"
  | printValue found => "cannot print " ++ found.display ++ " value"

def diagnose (problem : Problem) (pos : Position) : Diagnostic :=
  ⟨pos, problem.kind, problem.message⟩

end Problem

structure Verdict (α : Type) where
  value : α
  problems : List Diagnostic

namespace Verdict

variable {α β : Type}

protected def pure (a : α) : Verdict α := ⟨a, []⟩

protected def bind (first : Verdict α) (next : α → Verdict β) : Verdict β :=
  let later := next first.value
  ⟨later.value, first.problems ++ later.problems⟩

instance : Monad Verdict where
  pure := Verdict.pure
  bind := Verdict.bind

def report (pos : Position) (problem : Problem) : Verdict Unit := ⟨(), [problem.diagnose pos]⟩

/-- Reports a problem that leaves an expression without a type. -/
def reject (pos : Position) (problem : Problem) : Verdict Ty := do
  report pos problem
  pure .invalid

end Verdict

/-- What keeps an account, beside its verdicts, of the nodes that a check goes to. -/
class Visiting (v : Type → Type) where
  /-- Goes to some nodes, and from there on. -/
  visit {α : Type} (nodes : List Expr) (check : v α) : v α

/-- A verdict alone keeps none. -/
@[default_instance]
instance : Visiting Verdict where
  visit _ check := check

namespace Verdict

variable {α : Type}

/-- To come to a verdict, a verdict is left as it is. -/
@[simp]
theorem lift_self (verdict : Verdict α) : (liftM verdict : Verdict α) = verdict := rfl

@[simp]
theorem visit_eq (nodes : List Expr) (check : Verdict α) : Visiting.visit nodes check = check := rfl

end Verdict

structure CheckState where
  scope : Scope
  /-- Whether a return with a value has been met in the present function. -/
  returnsValue : Bool

def CheckState.start : CheckState := ⟨.empty, false⟩

structure CheckOutcome (α : Type) where
  value : α
  state : CheckState
  log : Log

structure Checker (α : Type) where
  run : CheckState → CheckOutcome α

namespace Checker

variable {α β : Type}

protected def pure (a : α) : Checker α := ⟨fun state => ⟨a, state, []⟩⟩

protected def bind (first : Checker α) (next : α → Checker β) : Checker β where
  run state :=
    let before := first.run state
    let after := (next before.value).run before.state
    { after with log := before.log ++ after.log }

instance : Monad Checker where
  pure := Checker.pure
  bind := Checker.bind

def scope : Checker Scope := ⟨fun state => ⟨state.scope, state, []⟩⟩

def setScope (scope : Scope) (entries : Log) : Checker Unit :=
  ⟨fun state => ⟨(), { state with scope }, entries⟩⟩

def returnsValue : Checker Bool := ⟨fun state => ⟨state.returnsValue, state, []⟩⟩

def setReturnsValue (returnsValue : Bool) : Checker Unit :=
  ⟨fun state => ⟨(), { state with returnsValue }, []⟩⟩

def note (entries : Log) : Checker Unit := ⟨fun state => ⟨(), state, entries⟩⟩

def report (pos : Position) (problem : Problem) : Checker Unit :=
  note [.problem (problem.diagnose pos)]

/-- A check that only looks at the scope. -/
def judge (look : Scope → Verdict α) : Checker α where
  run state :=
    let verdict := look state.scope
    ⟨verdict.value, state, verdict.problems.map .problem⟩

def openBlock : Checker Unit := do
  let inner := (← scope).openBlock
  setScope inner [.openBlock inner.depth]

def closeBlock : Checker Unit := do
  let outer := (← scope).closeBlock
  setScope outer [.closeBlock outer.depth]

/-- Enters a variable; false if its block has the name already. -/
def declare (name : String) (ty : Ty) (isConst : Bool) : Checker Bool := do
  let before ← scope
  match before.addVar name ty isConst with
  | none => pure false
  | some (symbol, after) =>
    setScope after [.addSymbol name symbol.id isConst after.depth]
    pure true

section Declared

variable {name : String} {ty : Ty} {isConst : Bool} {state : CheckState}

theorem run_declare (name : String) (ty : Ty) (isConst : Bool) (state : CheckState) :
    (declare name ty isConst).run state =
      Checker.run (match state.scope.addVar name ty isConst with
        | none => Pure.pure false
        | some (symbol, after) => do
          setScope after [.addSymbol name symbol.id isConst after.depth]
          Pure.pure true) state := rfl

theorem run_declare_none (refused : state.scope.addVar name ty isConst = none) :
    (declare name ty isConst).run state = ⟨false, state, []⟩ := by
  rw [run_declare, refused]
  rfl

theorem run_declare_some {symbol : Symbol} {after : Scope}
    (entered : state.scope.addVar name ty isConst = some (symbol, after)) :
    (declare name ty isConst).run state =
      ⟨true, { state with scope := after },
        [.addSymbol name symbol.id isConst after.depth]⟩ := by
  rw [run_declare, entered]
  rfl

end Declared

end Checker

/-- What walks through statements as a checker does, and judges expressions by `v`. -/
class Walking (m : Type → Type) (v : outParam (Type → Type)) where
  /-- Judges these expressions in the scope at hand. -/
  judge {α : Type} (exprs : List Expr) (look : Scope → v α) : m α
  /-- Comes upon a statement where none of its kind can stand. -/
  stray : Stmt → m Unit

/-- The checker passes over stray statements. -/
@[default_instance]
instance : Walking Checker Verdict where
  judge _ look := Checker.judge look
  stray _ := pure ()

namespace Checker

variable {α : Type}

@[simp]
theorem lift_self (checker : Checker α) : (liftM checker : Checker α) = checker := rfl

@[simp]
theorem judge_eq (exprs : List Expr) (look : Scope → Verdict α) :
    Walking.judge exprs look = judge look := rfl

@[simp]
theorem stray_eq (s : Stmt) : (Walking.stray s : Checker Unit) = pure () := rfl

end Checker

end MiniC
