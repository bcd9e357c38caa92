import MiniC.Expr.Typing
import MiniC.Proofs.Syntax.CheckHeight

/-!
The check of an expression, one call of it at a time. A call does its own part
and asks for the types of the expressions next inside, a run of subscripts for
its base and for each subscript. So a check that may go some calls deep is the
whole check as long as the height of the expression is less.
-/

namespace MiniC

open Verdict (report reject)

namespace Expr

/-- What the check of an expression asks for. -/
def asked : Expr → List Expr
  | bad _ | ident _ _ | lit _ _ _ | composite _ _ => []
  | paren _ inner => [inner]
  | index _ base subscript => base.indexBase :: (base.subscripts ++ [subscript])
  | call _ callee args => callee :: args
  | unary _ _ operand => [operand]
  | binary _ _ left right => [left, right]

theorem asked_lower (e : Expr) : ∀ part ∈ e.asked, part.checkHeight < e.checkHeight := by
  cases e with
  | bad | ident | lit | composite => exact List.forall_mem_nil _
  | paren pos inner => exact List.forall_mem_singleton.mpr (Nat.lt_succ_self _)
  | unary pos sign operand => exact List.forall_mem_singleton.mpr (Nat.lt_succ_self _)
  | index pos base subscript =>
    rw [checkHeight_index]
    refine List.forall_mem_cons.mpr ⟨Nat.lt_succ_of_le (Nat.le_max_left _ _), ?_⟩
    intro part member
    have height := checkHeight_le_greatest member
    exact Nat.lt_succ_of_le (Nat.le_trans height (Nat.le_max_right _ _))
  | call pos callee args =>
    refine List.forall_mem_cons.mpr ⟨Nat.lt_succ_of_le (Nat.le_max_left _ _), ?_⟩
    intro part member
    have height := checkHeight_le_greatest member
    exact Nat.lt_succ_of_le (Nat.le_trans height (Nat.le_max_right _ _))
  | binary pos op left right =>
    exact List.forall_mem_cons.mpr ⟨Nat.lt_succ_of_le (Nat.le_max_left _ _),
      List.forall_mem_singleton.mpr (Nat.lt_succ_of_le (Nat.le_max_right _ _))⟩

section Open

variable (scope : Scope) (ask : Expr → Verdict Ty)

/-- A run of subscripts, with what is found of its base and of each of them. -/
def chainBy : Expr → Chain Verdict
  | index pos base subscript =>
    base.chainBy.extend (index pos base subscript) subscript.pos (ask subscript)
  | base => .single base (ask base)

def argumentsBy (func : String) : List Param → List Expr → Verdict Unit
  | _, [] => pure ()
  | [], arg :: rest => do
    discard (ask arg)
    argumentsBy func [] rest
  | param :: params, arg :: rest => do
    let found ← ask arg
    checkArgument func param arg.pos found
    argumentsBy func params rest

/-- One call of the check. -/
def typeBy : Expr → Verdict Ty
  | bad _ => pure .invalid
  | ident pos name => typeOfName scope pos name
  | lit pos kind text => Literal.check pos kind text
  | composite pos _ => reject pos .misplacedComposite
  | paren _ inner => ask inner
  | index pos base subscript => (chainBy ask (index pos base subscript)).type pos
  | call pos (ident calleePos name) args =>
    match scope.func? name with
    | none => do
      report calleePos (.undefinedFunction name)
      argumentsBy ask name [] args
      pure .invalid
    | some known => do
      let params := known.decl.params.params
      if args.length ≠ params.length then
        report pos (.argumentCount name args.length params.length)
        argumentsBy ask name [] args
      else argumentsBy ask name params args
      pure known.decl.returns
  | call _ callee args => do
    discard (ask callee)
    report callee.pos .callOfNonFunction
    argumentsBy ask "" [] args
    pure .invalid
  | unary _ sign operand => do
    let found ← ask operand
    requireInt operand.pos sign.symbol found
  | binary pos op left right =>
    if op.isRelational then do
      report pos (.misplacedRelational op)
      discard (ask left)
      discard (ask right)
      pure .invalid
    else do
      let leftFound ← ask left
      let rightFound ← ask right
      let leftType ← requireInt left.pos op.symbol leftFound
      let rightType ← requireInt right.pos op.symbol rightFound
      pure (if leftType.isInvalid || rightType.isInvalid then .invalid else leftType)

end Open

section Closed

variable (scope : Scope)

theorem chain_eq_chainBy : (e : Expr) → e.chain scope = e.chainBy (·.type scope)
  | index pos base subscript =>
    congrArg (Chain.extend · (index pos base subscript) subscript.pos (subscript.type scope))
      (chain_eq_chainBy base)
  | bad _ | ident _ _ | lit _ _ _ | composite _ _ | paren _ _ | call _ _ _ | unary _ _ _
  | binary _ _ _ _ => rfl

theorem checkArguments_eq (func : String) (params : List Param) (args : List Expr) :
    checkArguments scope func params args = argumentsBy (·.type scope) func params args := by
  induction args generalizing params with
  | nil => cases params <;> rfl
  | cons arg rest ih =>
    cases params with
    | nil => exact congrArg (discard (arg.type scope) >>= fun _ => ·) (ih [])
    | cons param params =>
      simp only [checkArguments, argumentsBy, ih params]
      rfl

/-- The check is the call that asks the check. -/
theorem type_eq_typeBy (e : Expr) : e.type scope = e.typeBy scope (·.type scope) := by
  cases e with
  | bad | ident | lit | composite | paren | unary | binary => rfl
  | index pos base subscript => exact congrArg (Chain.type · pos) (chain_eq_chainBy scope _)
  | call pos callee args =>
    cases callee with
    | ident calleePos name =>
      simp only [typeBy, ← checkArguments_eq]
      rfl
    | _ =>
      simp only [typeBy, ← checkArguments_eq]
      rfl

end Closed

section Congruence

variable {scope : Scope} {ask other : Expr → Verdict Ty}

theorem chainBy_congr : (e : Expr) → ask e.indexBase = other e.indexBase →
    (∀ i ∈ e.subscripts, ask i = other i) → e.chainBy ask = e.chainBy other
  | index _ base subscript, onBase, onSubscripts => by
    obtain ⟨sooner, last⟩ := List.forall_mem_append.mp onSubscripts
    rw [chainBy, chainBy, chainBy_congr base onBase sooner, List.forall_mem_singleton.mp last]
  | bad _, same, _ | ident _ _, same, _ | lit _ _ _, same, _ | composite _ _, same, _
  | paren _ _, same, _ | call _ _ _, same, _ | unary _ _ _, same, _ | binary _ _ _ _, same, _ =>
    congrArg (Chain.single _) same

theorem argumentsBy_congr (func : String) (params : List Param) {args : List Expr}
    (same : ∀ arg ∈ args, ask arg = other arg) :
    argumentsBy ask func params args = argumentsBy other func params args := by
  induction args generalizing params with
  | nil => cases params <;> rfl
  | cons arg rest ih =>
    obtain ⟨here, later⟩ := List.forall_mem_cons.mp same
    cases params <;> simp only [argumentsBy, here, ih _ later]

/-- A call makes use of nothing that it has not asked for. -/
theorem typeBy_congr (e : Expr) (same : ∀ part ∈ e.asked, ask part = other part) :
    e.typeBy scope ask = e.typeBy scope other := by
  cases e with
  | bad | ident | lit | composite => rfl
  | paren pos inner => exact same inner List.mem_cons_self
  | index pos base subscript =>
    obtain ⟨onBase, onSubscripts⟩ := List.forall_mem_cons.mp same
    exact congrArg (Chain.type · pos) (chainBy_congr _ onBase onSubscripts)
  | unary pos sign operand => simp only [typeBy, same operand List.mem_cons_self]
  | binary pos op left right =>
    obtain ⟨onLeft, onRight⟩ := List.forall_mem_cons.mp same
    simp only [typeBy, onLeft, List.forall_mem_singleton.mp onRight]
  | call pos callee args =>
    obtain ⟨onCallee, onArgs⟩ := List.forall_mem_cons.mp same
    have arguments (func : String) (params : List Param) := argumentsBy_congr func params onArgs
    cases callee with
    | ident calleePos name => simp only [typeBy, arguments]
    | _ => simp only [typeBy, arguments, onCallee]

end Congruence

/-- The check where calls may go only so deep; behind that nothing is found. -/
def typeWithin (scope : Scope) : (frames : Nat) → (e : Expr) → Verdict Ty
  | 0, _ => pure .invalid
  | frames + 1, e => e.typeBy scope (typeWithin scope frames)

theorem typeWithin_eq {scope : Scope} {frames : Nat} {e : Expr} (enough : e.checkHeight < frames) :
    e.typeWithin scope frames = e.type scope := by
  induction frames generalizing e with
  | zero => exact absurd enough (Nat.not_lt_zero _)
  | succ frames ih =>
    rw [typeWithin, type_eq_typeBy]
    apply typeBy_congr
    intro part isAsked
    exact ih (Nat.lt_of_lt_of_le (e.asked_lower part isAsked) (Nat.le_of_lt_succ enough))

end Expr

end MiniC
