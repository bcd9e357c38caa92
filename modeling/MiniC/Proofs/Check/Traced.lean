import MiniC.Stmt.Check

/-!
The checks that are made in one scope, with an account of the nodes they go to: those
that are checked as expressions, and those that the check at hand looks into itself, as
a run of subscripts does with the links of the run, a call with the name of its
function, a condition with its parentheses, and the check of a target, a format or an
initial value with some of these. The account does not change what a check says.
-/

namespace MiniC

open Visiting (visit)

/-- A verdict, and the nodes that the check went to, in order. -/
structure Traced (α : Type) where
  verdict : Verdict α
  visited : List Expr

namespace Traced

variable {α β : Type}

protected def pure (a : α) : Traced α := ⟨.pure a, []⟩

protected def bind (first : Traced α) (next : α → Traced β) : Traced β where
  verdict := first.verdict.bind fun a => (next a).verdict
  visited := first.visited ++ (next first.verdict.value).visited

instance : Monad Traced where
  pure := Traced.pure
  bind := Traced.bind

/-- What is found without going to a node. -/
instance : MonadLift Verdict Traced where
  monadLift verdict := ⟨verdict, []⟩

instance : Visiting Traced where
  visit nodes check := ⟨check.verdict, nodes ++ check.visited⟩

@[simp]
theorem verdict_pure (a : α) : (pure a : Traced α).verdict = pure a := rfl

@[simp]
theorem verdict_bind (first : Traced α) (next : α → Traced β) :
    (first >>= next).verdict = first.verdict >>= fun a => (next a).verdict :=
  rfl

@[simp]
theorem verdict_discard (traced : Traced α) :
    (discard traced).verdict = discard traced.verdict :=
  rfl

@[simp]
theorem verdict_lift (verdict : Verdict α) : (liftM verdict : Traced α).verdict = verdict := rfl

@[simp]
theorem verdict_visit (nodes : List Expr) (check : Traced α) :
    (visit nodes check).verdict = check.verdict :=
  rfl

@[simp]
theorem verdict_ite {p : Prop} [Decidable p] (yes no : Traced α) :
    (if p then yes else no).verdict = if p then yes.verdict else no.verdict :=
  apply_ite _ _ _ _

end Traced

namespace Chain

/-- The chain without the account. -/
def verdict (chain : Chain Traced) : Chain Verdict :=
  ⟨chain.base, chain.baseType.verdict, chain.subscripts.verdict, chain.links⟩

@[simp]
theorem verdict_single (base : Expr) (baseType : Traced Ty) :
    (single base baseType).verdict = single base baseType.verdict :=
  rfl

@[simp]
theorem verdict_checkSubscript (pos : Position) (subscript : Traced Ty) :
    (checkSubscript pos subscript).verdict = checkSubscript pos subscript.verdict := by
  unfold checkSubscript
  rw [Traced.verdict_bind]
  apply congrArg
  funext found
  cases found <;> rfl

@[simp]
theorem verdict_extend (chain : Chain Traced) (link : Expr) (pos : Position)
    (subscript : Traced Ty) : (chain.extend link pos subscript).verdict =
      chain.verdict.extend link pos subscript.verdict := by
  simp [extend, verdict]

/-- What becomes of a chain is said without the account. -/
@[simp]
theorem verdict_type (chain : Chain Traced) (pos : Position) :
    (chain.type pos).verdict = chain.verdict.type pos := by
  obtain ⟨base, baseType, subscripts, links⟩ := chain
  cases links with
  | nil => rfl
  | cons link further =>
    cases base with
    | ident => rfl
    | _ => simp [type, verdict, count]

end Chain

variable {scope : Scope}

mutual

theorem Expr.verdict_chain : (e : Expr) → (e.chain scope : Chain Traced).verdict = e.chain scope
  | .bad _ | .ident _ _ | .lit _ _ _ | .composite _ _ => rfl
  | .paren _ inner => by simp [Expr.chain, Expr.verdict_chain inner]
  | .index _ base subscript => by
    simp [Expr.chain, Expr.verdict_chain base, Expr.verdict_chain subscript]
  | .call pos callee args => by
    have onCallee := Expr.verdict_chain callee
    have onArgs (func : String) (params : List Param) :=
      Expr.verdict_checkArguments args func params
    refine (Chain.verdict_single _ _).trans (congrArg (Chain.single _) ?_)
    cases callee with
    | ident calleePos name =>
      dsimp only
      cases scope.func? name <;> simp [onArgs]
    | _ => simp [onCallee, onArgs]
  | .unary _ _ operand => by simp [Expr.chain, Expr.verdict_chain operand]
  | .binary _ op left right => by
    simp [Expr.chain, Expr.verdict_chain left, Expr.verdict_chain right]

theorem Expr.verdict_checkArguments : (args : List Expr) → (func : String) →
    (params : List Param) → (Expr.checkArguments scope func params args : Traced Unit).verdict =
      Expr.checkArguments scope func params args
  | [], _, [] | [], _, _ :: _ => rfl
  | arg :: rest, func, [] => by
    simp [Expr.checkArguments, Expr.verdict_chain arg, Expr.verdict_checkArguments rest func []]
  | arg :: rest, func, _ :: params => by
    simp [Expr.checkArguments, Expr.verdict_chain arg, Expr.verdict_checkArguments rest func params]

end

namespace Expr

@[simp]
theorem verdict_type (e : Expr) : (e.type scope : Traced Ty).verdict = e.type scope := by
  simp [type, verdict_chain e]

@[simp]
theorem verdict_check (e : Expr) : (e.check scope : Traced Unit).verdict = e.check scope := by
  simp [check]

@[simp]
theorem verdict_checkCondition (cond : Expr) :
    (cond.checkCondition scope : Traced Unit).verdict = cond.checkCondition scope := by
  unfold checkCondition
  cases cond.unparen <;> simp

end Expr

namespace Shape

theorem verdict_addElements (sofar : Elements) (level : List Expr) :
    (addElements scope sofar level : Traced Elements).verdict = addElements scope sofar level := by
  induction level generalizing sofar with
  | nil => rfl
  | cons e rest ih => simp [addElements, ih]

theorem verdict_ofElements (sizes : List Nat) (level : List Expr) :
    (ofElements scope sizes level : Traced Ty).verdict = ofElements scope sizes level := by
  unfold ofElements
  rw [Traced.verdict_bind, verdict_addElements]
  apply congrArg
  funext elements
  cases elements.leaf <;> rfl

/-- The levels of a literal are gone through alike. -/
theorem verdict_ofLevel (pos : Position) (sizes : List Nat) (level : List Expr) :
    (ofLevel scope pos sizes level : Traced Ty).verdict = ofLevel scope pos sizes level := by
  fun_induction (ofLevel scope pos sizes level : Verdict Ty) with
  | case1 sizes level rows =>
    rw [ofLevel_nil scope pos sizes rows, verdict_ofElements]
  | case2 sizes level first others rows ih =>
    rw [ofLevel_cons scope pos sizes rows]
    simp only [Traced.verdict_visit, Traced.verdict_ite, Traced.verdict_lift, ih]
    rfl

end Shape

@[simp]
theorem Expr.verdict_compositeType (literal : Expr) :
    (literal.compositeType scope : Traced Ty).verdict = literal.compositeType scope :=
  Shape.verdict_ofLevel literal.pos [] [literal]

@[simp]
theorem verdict_checkInit (declared : Ty) (init : Expr) :
    (checkInit declared init scope : Traced Unit).verdict = checkInit declared init scope := by
  cases init <;> simp [checkInit, checkArrayInit, checkScalarInit]

@[simp]
theorem verdict_checkTarget (target : Expr) :
    (checkTarget scope target : Traced Unit).verdict = checkTarget scope target := by
  cases target with
  | ident pos name =>
    simp only [checkTarget, checkTargetName]
    cases scope.var? name <;> simp
  | index pos base subscript =>
    simp only [checkTarget, Traced.verdict_bind, Expr.verdict_type]
    cases (Expr.index pos base subscript).indexBase <;> simp
  | _ => simp [checkTarget]

@[simp]
theorem Simple.verdict_check (s : Simple) :
    (s.check scope : Traced Unit).verdict = s.check scope := by
  cases s <;> simp [check]

@[simp]
theorem Simple.verdict_checkCondition (s : Simple) :
    (s.checkCondition scope : Traced Unit).verdict = s.checkCondition scope := by
  cases s <;> simp [checkCondition]

@[simp]
theorem verdict_checkScan (target : Expr) :
    (checkScan target scope : Traced Unit).verdict = checkScan target scope := by
  cases target <;> simp [checkScan]

@[simp]
theorem verdict_checkPrinted (count index : Nat) (arg : Expr) :
    (checkPrinted scope count index arg : Traced Unit).verdict =
      checkPrinted scope count index arg := by
  unfold checkPrinted
  split <;> simp

@[simp]
theorem verdict_checkPrint (pos : Position) (args : List Expr) :
    (checkPrint pos args scope : Traced Unit).verdict = checkPrint pos args scope := by
  have each (count index : Nat) :
      (checkPrintedFrom scope count index args : Traced Unit).verdict =
        checkPrintedFrom scope count index args := by
    induction args generalizing index with
    | nil => rfl
    | cons arg rest ih => simp [checkPrintedFrom, ih]
  simp [checkPrint, each]

@[simp]
theorem verdict_checkSubject (subject : Expr) :
    (checkSubject subject scope : Traced Ty).verdict = checkSubject subject scope := by
  simp [checkSubject]

@[simp]
theorem verdict_checkLabel (subject : Ty) (label : Expr) :
    (checkLabel subject label scope : Traced Unit).verdict = checkLabel subject label scope := by
  simp [checkLabel]

@[simp]
theorem FunctionContext.verdict_checkReturned (context : FunctionContext) (value : Expr) :
    (context.checkReturned value scope : Traced Unit).verdict =
      context.checkReturned value scope := by
  simp [checkReturned]

end MiniC
