import MiniC.Proofs.Check.Reports
import MiniC.Proofs.Source.OneLine
import MiniC.Proofs.Syntax.Names
import Mathlib.Data.List.Nodup

/-!
What the messages of the check are made of. A message quotes names of the tree and of the
functions in scope, types, operators, numbers and single bytes, and nothing else of the
source. Only messages on two types that do not agree show two types, and they are raised only
where the two are different.
-/

namespace MiniC

open Text (IsLine)

theorem Ty.display_lined (ty : Ty) : IsLine ty.display := by
  have leaf : IsLine ty.leafName := by
    induction ty with
    | array element size ih => exact ih
    | _ => decide
  refine leaf.append (Text.isLine_join (List.forall_mem_map.mpr fun size _ => ?_))
  exact ((by decide : IsLine "[").append (Text.isLine_toString size)).append (by decide)

/-- The text of a type stands somewhere in a message. -/
def Ty.ShownIn (ty : Ty) (text : String) : Prop :=
  ∃ before behind, text = before ++ ty.display ++ behind

namespace Ty.ShownIn

variable {ty : Ty} {text : String}

theorem whole : ty.ShownIn ty.display := ⟨"", "", by simp⟩

theorem before (shown : ty.ShownIn text) (more : String) : ty.ShownIn (text ++ more) := by
  obtain ⟨sooner, later, rfl⟩ := shown
  exact ⟨sooner, later ++ more, String.append_assoc ..⟩

theorem behind (shown : ty.ShownIn text) (more : String) : ty.ShownIn (more ++ text) := by
  obtain ⟨sooner, later, rfl⟩ := shown
  exact ⟨more ++ sooner, later, by simp only [String.append_assoc]⟩

end Ty.ShownIn

namespace Problem

/-- The names that the message of a problem quotes. -/
def names : Problem → List String
  | redeclared name | duplicateParameter name | undefinedVariable name | undefinedFunction name
  | missingMain name | operandNotInt name _ | argumentCount name _ _ | assignToConst name
  | assignToArray name | assignToConstElement name | valueFromVoid name | returnWithoutValue name _
  | neverReturns name _ | scanIntoArray name | scanIntoConst name => [name]
  | argumentType _ _ param func => [param, func]
  | _ => []

/-- The types that the message of a problem shows, in its order. -/
def types : Problem → List Ty
  | initMismatch found wanted | compositeMismatch found wanted | mixedElements found wanted
  | argumentType found wanted _ _ | returnMismatch found wanted | switchLabel found wanted =>
    [found, wanted]
  | compositeForScalar ty | plainForArray ty | compositeElement ty | operandNotInt _ ty
  | subscriptNotInt ty | subscriptOfNonArray ty | tooManySubscripts ty | returnWithoutValue _ ty
  | neverReturns _ ty | switchSubject ty | printValue ty => [ty]
  | _ => []

theorem message_lined {problem : Problem} (named : ∀ name ∈ problem.names, IsLine name) :
    IsLine problem.message := by
  have symbol (op : BinOp) : IsLine op.symbol := by cases op <;> decide
  have quoted (kind : QuotedKind) : IsLine kind.name := by cases kind <;> decide
  rw [← List.forall_iff_forall_mem] at named
  -- what is left besides names, types, operators and numbers are fixed words
  cases problem
  all_goals
    dsimp only [names, List.Forall] at named
    dsimp only [message]
    try simp only [Text.isLine_append, Ty.display_lined, Text.isLine_toString,
      Text.isLine_quotedByte, symbol, quoted, named, true_and, and_true]
    repeat' apply And.intro
    all_goals exact Text.isLine_ofList (by decide)

theorem types_shown (problem : Problem) : ∀ ty ∈ problem.types, ty.ShownIn problem.message := by
  rw [← List.forall_iff_forall_mem]
  -- what stands behind a type is taken off, up to the words in front of it
  cases problem
  all_goals
    dsimp only [types, List.Forall, message]
    repeat' apply And.intro
    all_goals
      first
      | trivial
      | repeat first
        | exact .behind .whole _
        | refine .before ?_ _

end Problem

/-- A property of names that operators have, too, and what is told in place of a name. -/
class IsVocabulary (named : String → Prop) : Prop where
  sign (sign : Sign) : named sign.symbol
  operator (op : BinOp) : named op.symbol
  nameless : named ""

instance : IsVocabulary IsLine where
  sign sign := by cases sign <;> decide
  operator op := by cases op <;> decide
  nameless := Text.isLine_ofList (by decide)

instance : IsVocabulary fun _ => True := ⟨fun _ => trivial, fun _ => trivial, trivial⟩

/-- A problem that quotes such names only, and no type twice, wherever it is reported. -/
structure Worded (named : String → Prop) (_ : Position) (problem : Problem) : Prop where
  names : ∀ name ∈ problem.names, named name
  apart : problem.types.Nodup

namespace Worded

variable {named : String → Prop} {pos : Position} {problem : Problem}

theorem nodup_types (few : problem.types.tail = []) : problem.types.Nodup := by
  match problem.types, few with
  | [], _ => exact List.nodup_nil
  | [ty], _ => exact List.nodup_singleton ty

theorem quoting {name : String} (isNamed : named name) (quotes : problem.names = [name])
    (few : problem.types.tail = []) : Worded named pos problem where
  names := quotes ▸ List.forall_mem_singleton.mpr isNamed
  apart := nodup_types few

theorem plain (unnamed : problem.names = []) (few : problem.types.tail = []) :
    Worded named pos problem where
  names := unnamed ▸ nofun
  apart := nodup_types few

/-- A message on two types that do not agree. -/
theorem pair {found wanted : Ty} (differ : found ≠ wanted)
    (shows : problem.types = [found, wanted]) (areNamed : ∀ name ∈ problem.names, named name) :
    Worded named pos problem where
  names := areNamed
  apart := by
    rw [shows, List.nodup_cons, List.mem_singleton]
    exact ⟨differ, List.nodup_singleton wanted⟩

/-- The types are compared last, when both are known to be valid. -/
theorem guarded {guard : Bool} {found wanted : Ty} (mismatch : (guard && found ≠ wanted) = true)
    (shows : problem.types = [found, wanted]) (unnamed : problem.names = []) :
    Worded named pos problem :=
  pair (of_decide_eq_true (Bool.and_eq_true_iff.mp mismatch).2) shows (unnamed ▸ nofun)

end Worded

/-- The parameters of the functions in scope have such names. -/
def Scope.IsNamed (named : String → Prop) (scope : Scope) : Prop :=
  ∀ entry ∈ scope.funcs, ∀ param ∈ entry.2.decl.params.params, named param.name.text

variable {named : String → Prop}

theorem Scope.IsNamed.func {scope : Scope} (known : scope.IsNamed named) {name : String}
    {found : KnownFunction} (isFound : scope.func? name = some found) :
    ∀ param ∈ found.decl.params.params, named param.name.text := by
  obtain ⟨before, behind, shape, _⟩ := List.lookup_eq_some_iff.mp isFound
  exact known (name, found) (shape ▸ List.mem_append_right before List.mem_cons_self)

open Verdict (Reports)

variable {scope : Scope}

theorem Literal.check_worded (pos : Position) (kind : LitKind) (text : String) :
    (Literal.check pos kind text).Reports (Worded named) :=
  Literal.check_reports kind text (fun _ => .plain rfl rfl) fun _ _ => .plain rfl rfl

structure Chain.IsWorded (named : String → Prop) (chain : Chain Verdict) : Prop where
  base : chain.baseType.Reports (Worded named)
  subscripts : chain.subscripts.Reports (Worded named)

namespace Chain.IsWorded

variable {chain : Chain Verdict}

theorem single {e : Expr} {found : Verdict Ty} (worded : found.Reports (Worded named)) :
    (single e found).IsWorded named :=
  ⟨worded, .pure true⟩

theorem type (worded : chain.IsWorded named) (pos : Position) :
    (chain.type pos).Reports (Worded named) :=
  type_reports worded.base worded.subscripts (fun _ => .plain rfl rfl) (fun _ => .plain rfl rfl)
    fun _ => .plain rfl rfl

theorem extend (worded : chain.IsWorded named) {link : Expr} {pos : Position}
    {found : Verdict Ty} (onSubscript : found.Reports (Worded named)) :
    (chain.extend link pos found).IsWorded named where
  base := worded.base
  subscripts := by
    apply Reports.bind worded.subscripts
    apply Reports.bind (checkSubscript_reports onSubscript fun _ => .plain rfl rfl)
    exact Reports.pure _

end Chain.IsWorded

/-- The operands of an operator are integers, or the operator is told. -/
theorem requireInt_worded {pos : Position} {operator : String} (isNamed : named operator)
    (found : Ty) : (requireInt pos operator found).Reports (Worded named) :=
  requireInt_reports fun _ => .quoting isNamed rfl rfl

/-- The name of the function and those of its parameters are told where arguments do not fit. -/
theorem checkArgument_worded {func : String} (isNamed : named func) {param : Param}
    (onParam : named param.name.text) (pos : Position) (found : Ty) :
    (checkArgument func param pos found).Reports (Worded named) := by
  apply checkArgument_reports
  intro _ differ
  refine Worded.pair differ rfl ?_
  exact List.forall_mem_cons.mpr ⟨onParam, List.forall_mem_singleton.mpr isNamed⟩

theorem Expr.call_worded [IsVocabulary named] (known : scope.IsNamed named) {pos : Position}
    {callee : Expr} {args : List Expr} (onCallee : callee.IsNamed named)
    (judged : (callee.chain scope).IsWorded named)
    (onArgs : ∀ func params, named func → (∀ param ∈ params, named param.name.text) →
      (Expr.checkArguments scope func params args).Reports (Worded named)) :
    ((Expr.call pos callee args).chain scope).IsWorded named := by
  -- whatever is found, the type of the call is said last
  have returned {func : String} (isNamed : named func) (params : List Param)
      (areNamed : ∀ param ∈ params, named param.name.text) (ty : Ty) :
      Reports (Worded named) (do
        Expr.checkArguments scope func params args
        pure ty) := by
    apply Reports.bind (onArgs func params isNamed areNamed)
    exact Reports.pure ty
  apply Chain.IsWorded.single
  cases callee with
  | ident calleePos name =>
    dsimp only
    cases found : scope.func? name with
    | none =>
      apply Reports.bind (Reports.report (.quoting onCallee rfl rfl))
      exact returned onCallee [] nofun .invalid
    | some func =>
      apply Reports.ite
      · intro differ
        apply Reports.bind (Reports.report (.quoting onCallee rfl rfl))
        exact returned onCallee [] nofun func.decl.returns
      · exact fun _ => returned onCallee _ (known.func found) func.decl.returns
  | _ =>
    apply Reports.bind (Reports.discard (judged.type _))
    apply Reports.bind (Reports.report (.plain rfl rfl))
    exact returned IsVocabulary.nameless [] nofun .invalid

theorem Expr.binary_worded [IsVocabulary named] {pos : Position} (op : BinOp) {left right : Expr}
    (judgedLeft : (left.chain scope).IsWorded named)
    (judgedRight : (right.chain scope).IsWorded named) :
    ((Expr.binary pos op left right).chain scope).IsWorded named := by
  have operand (pos : Position) (found : Ty) :
      (requireInt pos op.symbol found).Reports (Worded named) :=
    requireInt_worded (IsVocabulary.operator op) found
  apply Chain.IsWorded.single
  apply Reports.ite
  · intro isRelational
    apply Reports.bind (Reports.report (.plain rfl rfl))
    apply Reports.bind (Reports.discard (judgedLeft.type _))
    apply Reports.bind (Reports.discard (judgedRight.type _))
    exact Reports.pure _
  · intro isArithmetic
    apply Reports.bind (judgedLeft.type _)
    apply Reports.bind (judgedRight.type _)
    apply Reports.bind (operand _ _)
    apply Reports.bind (operand _ _)
    exact Reports.pure _

mutual

theorem Expr.chain_worded [IsVocabulary named] (known : scope.IsNamed named) :
    (e : Expr) → e.IsNamed named → (e.chain scope).IsWorded named
  | .bad _, _ => .single (.pure _)
  | .ident _ _, isNamed => .single (typeOfName_reports (.quoting isNamed rfl rfl))
  | .lit pos kind text, _ => .single (Literal.check_worded pos kind text)
  | .composite _ _, _ => .single (.reject (.plain rfl rfl))
  | .paren _ inner, isNamed => .single ((Expr.chain_worded known inner isNamed).type _)
  | .index _ base subscript, ⟨onBase, onSubscript⟩ =>
    have judged := Expr.chain_worded known subscript onSubscript
    (Expr.chain_worded known base onBase).extend (judged.type _)
  | .call _ callee args, ⟨onCallee, onArgs⟩ =>
    Expr.call_worded known onCallee (Expr.chain_worded known callee onCallee)
      (Expr.checkArguments_worded known args onArgs)
  | .unary _ sign operand, isNamed => by
    apply Chain.IsWorded.single
    apply Reports.bind ((Expr.chain_worded known operand isNamed).type _)
    exact requireInt_worded (IsVocabulary.sign sign) _
  | .binary _ op left right, ⟨onLeft, onRight⟩ =>
    Expr.binary_worded op (Expr.chain_worded known left onLeft)
      (Expr.chain_worded known right onRight)

theorem Expr.checkArguments_worded [IsVocabulary named] (known : scope.IsNamed named) :
    (args : List Expr) → Expr.AllNamed named args → (func : String) → (params : List Param) →
    named func → (∀ param ∈ params, named param.name.text) →
    (Expr.checkArguments scope func params args).Reports (Worded named)
  | [], _, _, [], _, _ | [], _, _, _ :: _, _, _ => .pure ()
  | arg :: rest, ⟨onArg, others⟩, func, [], isNamed, _ => by
    apply Reports.bind (Reports.discard ((Expr.chain_worded known arg onArg).type _))
    exact Expr.checkArguments_worded known rest others func [] isNamed nofun
  | arg :: rest, ⟨onArg, others⟩, func, param :: params, isNamed, areNamed => by
    obtain ⟨onParam, onParams⟩ := List.forall_mem_cons.mp areNamed
    apply Reports.bind ((Expr.chain_worded known arg onArg).type _)
    apply Reports.bind (checkArgument_worded isNamed onParam _ _)
    exact Expr.checkArguments_worded known rest others func params isNamed onParams

end

section Expressions

variable [IsVocabulary named] (known : scope.IsNamed named) {e : Expr} (isNamed : e.IsNamed named)

include known isNamed

theorem Expr.type_worded : (e.type scope).Reports (Worded named) :=
  (Expr.chain_worded known e isNamed).type e.pos

theorem Expr.check_worded : (e.check scope).Reports (Worded named) :=
  .discard (e.type_worded known isNamed)

theorem Expr.checkCondition_worded : (e.checkCondition scope).Reports (Worded named) := by
  have inside := Expr.IsNamed.unparen e isNamed
  -- what compares nothing is judged as it is
  have other : Reports (Worded named) (do
      e.unparen.check scope
      Verdict.report e.pos .conditionNotRelational) := by
    apply Reports.bind (Expr.check_worded known inside)
    exact Reports.report (.plain rfl rfl)
  unfold Expr.checkCondition
  cases same : e.unparen with
  | bad => exact Reports.pure ()
  | binary pos op left right =>
    rw [same] at inside other
    apply Reports.ite
    · intro isRelational
      apply Reports.bind (Expr.check_worded known inside.1)
      exact Expr.check_worded known inside.2
    · exact fun _ => other
  | _ =>
    rw [same] at other
    exact other

end Expressions

namespace Shape

variable [IsVocabulary named]

theorem addElements_worded (known : scope.IsNamed named) (sofar : Elements) {level : List Expr}
    (areNamed : Expr.AllNamed named level) :
    (addElements scope sofar level).Reports (Worded named) := by
  induction level generalizing sofar with
  | nil => exact Reports.pure _
  | cons e rest ih =>
    obtain ⟨here, later⟩ := areNamed
    apply Reports.bind (Expr.type_worded known here)
    apply Reports.bind
    · exact addElement_reports (fun _ => .plain rfl rfl) fun _ _ differ => .pair differ rfl nofun
    · exact ih _ later

theorem ofLevel_worded (known : scope.IsNamed named) (pos : Position) (sizes : List Nat)
    {level : List Expr} (areNamed : Expr.AllNamed named level) :
    (ofLevel scope pos sizes level).Reports (Worded named) := by
  fun_induction ofLevel scope pos sizes level with
  | case1 _ level =>
    apply Reports.bind (addElements_worded known ⟨none, true⟩ areNamed)
    split
    · exact Reports.pure _
    · exact Reports.pure _
  | case2 sizes level first others rows ih =>
    rw [← rows] at ih ⊢
    apply Reports.ite
    · exact fun _ => Reports.reject (.plain rfl rfl)
    intro notMixed
    apply Reports.ite
    · exact fun _ => Reports.reject (.plain rfl rfl)
    intro even
    apply Reports.ite
    · exact fun _ => Reports.reject (.plain rfl rfl)
    · exact fun _ => ih areNamed.below

end Shape

section Judged

variable [IsVocabulary named] (known : scope.IsNamed named) {e : Expr} (isNamed : e.IsNamed named)

include known isNamed

theorem checkInit_worded (declared : Ty) :
    (checkInit declared e scope).Reports (Worded named) := by
  apply Reports.ite
  · intro isArray
    cases e with
    | composite pos items =>
      have level : Expr.AllNamed named [.composite pos items] := ⟨isNamed, trivial⟩
      apply Reports.bind (Shape.ofLevel_worded known pos [] level)
      exact Reports.reportIf fun mismatch => .guarded mismatch rfl rfl
    | _ =>
      apply Reports.bind (Expr.check_worded known isNamed)
      exact Reports.report (.plain rfl rfl)
  · intro isScalar
    cases e with
    | composite pos items => exact Reports.report (.plain rfl rfl)
    | _ =>
      apply Reports.bind (Expr.type_worded known isNamed)
      exact Reports.reportIf fun mismatch => .guarded mismatch rfl rfl

theorem checkTarget_worded : (checkTarget scope e).Reports (Worded named) := by
  cases e with
  | ident pos name =>
    change (checkTargetName scope pos name).Reports (Worded named)
    unfold checkTargetName
    cases scope.var? name with
    | none => exact Expr.check_worded known isNamed
    | some symbol =>
      apply Reports.ite
      · exact fun _ => Reports.report (.quoting isNamed rfl rfl)
      · exact fun _ => Reports.reportIf fun _ => .quoting isNamed rfl rfl
  | index pos base subscript =>
    have base : (Expr.index pos base subscript).indexBase.IsNamed named :=
      Expr.IsNamed.indexBase _ isNamed
    apply Reports.bind (Expr.type_worded known isNamed)
    split
    · next same =>
      rw [same] at base
      exact Reports.reportIf fun _ => .quoting base rfl rfl
    · exact Reports.pure ()
  | _ =>
    apply Reports.bind (Expr.check_worded known isNamed)
    exact Reports.report (.plain rfl rfl)

theorem checkScan_worded : (checkScan e scope).Reports (Worded named) := by
  cases e with
  | ident pos name =>
    apply Reports.bind (Expr.type_worded known isNamed)
    apply Reports.ite
    · intro typed
      apply Reports.ite
      · exact fun _ => Reports.report (.quoting isNamed rfl rfl)
      · exact fun _ => Reports.reportIf fun _ => .quoting isNamed rfl rfl
    · exact fun _ => Reports.pure ()
  | _ =>
    apply Reports.bind (Expr.check_worded known isNamed)
    exact Reports.report (.plain rfl rfl)

theorem checkPrinted_worded (count before : Nat) :
    (checkPrinted scope count before e).Reports (Worded named) := by
  have value : Reports (Worded named) (do
      let found ← e.type scope
      if !found.isInvalid && !found.isBasic then Verdict.report e.pos (.printValue found)) := by
    apply Reports.bind (Expr.type_worded known isNamed)
    exact Reports.reportIf fun _ => .plain rfl rfl
  unfold checkPrinted
  split
  · apply Reports.bind (Reports.discard (Literal.check_worded _ _ _))
    exact Reports.reportIf fun _ => .plain rfl rfl
  · apply Reports.ite
    · intro first
      apply Reports.bind (Reports.report (.plain rfl rfl))
      exact value
    · exact fun _ => value

theorem checkSubject_worded : (checkSubject e scope).Reports (Worded named) := by
  apply Reports.bind (Expr.type_worded known isNamed)
  apply Reports.ite
  · intro notBasic
    apply Reports.bind (Reports.report (.plain rfl rfl))
    exact Reports.pure _
  · exact fun _ => Reports.pure _

theorem checkLabel_worded (subject : Ty) :
    (checkLabel subject e scope).Reports (Worded named) := by
  apply Reports.bind (Expr.type_worded known isNamed)
  exact Reports.reportIf fun mismatch => .guarded mismatch rfl rfl

theorem checkReturned_worded (context : FunctionContext) :
    (context.checkReturned e scope).Reports (Worded named) := by
  apply Reports.bind (Expr.type_worded known isNamed)
  exact Reports.reportIf fun mismatch => .guarded mismatch rfl rfl

omit isNamed

theorem checkPrint_worded (pos : Position) {args : List Expr}
    (areNamed : ∀ e ∈ args, e.IsNamed named) :
    (checkPrint pos args scope).Reports (Worded named) := by
  have each (count before : Nat) :
      (checkPrintedFrom scope count before args).Reports (Worded named) := by
    induction args generalizing before with
    | nil => exact Reports.pure ()
    | cons arg rest ih =>
      obtain ⟨here, later⟩ := List.forall_mem_cons.mp areNamed
      apply Reports.bind (checkPrinted_worded known here count before)
      exact ih later _
  apply Reports.ite
  · intro wrong
    apply Reports.bind (Reports.report (.plain rfl rfl))
    exact each args.length 0
  · exact fun _ => each args.length 0

theorem Simple.check_worded {s : Simple} (isNamed : s.IsNamed named) :
    (s.check scope).Reports (Worded named) := by
  cases s with
  | expr pos e => exact Expr.check_worded known isNamed
  | assign pos target value =>
    apply Reports.bind (checkTarget_worded known isNamed.1)
    exact Expr.check_worded known isNamed.2

theorem Simple.checkCondition_worded {s : Simple} (isNamed : s.IsNamed named) :
    (s.checkCondition scope).Reports (Worded named) := by
  cases s with
  | expr pos e => exact Expr.checkCondition_worded known isNamed
  | assign pos target value =>
    apply Reports.bind (Simple.check_worded known isNamed)
    exact Reports.report (.plain rfl rfl)

end Judged

end MiniC
