import MiniC.Stmt.Check
import MiniC.Proofs.Layout.Moves

/-!
Judging expressions on moved places. The types are the same and the problems are
moved; in the scope the functions that are known are moved with the tree.
-/

namespace MiniC

variable {α β : Type} {move : Position → Position}

theorem relocateAll_append (sooner later : List Diagnostic) :
    relocateAll move (sooner ++ later) = relocateAll move sooner ++ relocateAll move later :=
  List.map_append

namespace Verdict

def relocate (move : Position → Position) (verdict : Verdict α) : Verdict α :=
  ⟨verdict.value, relocateAll move verdict.problems⟩

@[simp] theorem relocate_value (verdict : Verdict α) :
    (verdict.relocate move).value = verdict.value := rfl

@[simp] theorem relocate_pure (a : α) : (pure a : Verdict α).relocate move = pure a := rfl

@[simp] theorem relocate_bind (first : Verdict α) (next : α → Verdict β) :
    (first >>= next).relocate move = first.relocate move >>= fun a => (next a).relocate move :=
  congrArg (Verdict.mk _) (relocateAll_append _ _)

@[simp] theorem relocate_report (pos : Position) (problem : Problem) :
    (report pos problem).relocate move = report (move pos) problem := rfl

@[simp] theorem relocate_reject (pos : Position) (problem : Problem) :
    (reject pos problem).relocate move = reject (move pos) problem := rfl

@[simp] theorem relocate_discard (verdict : Verdict α) :
    (discard verdict).relocate move = discard (verdict.relocate move) :=
  congrArg (Verdict.mk _) (relocateAll_append _ _)

@[simp] theorem relocate_ite {c : Prop} [Decidable c] (yes no : Verdict α) :
    (if c then yes else no).relocate move = if c then yes.relocate move else no.relocate move :=
  apply_ite _ _ _ _

end Verdict

def KnownFunction.relocate (move : Position → Position) (known : KnownFunction) : KnownFunction :=
  ⟨known.number, known.decl.relocate move⟩

namespace SymbolTable

def relocate (move : Position → Position) (scope : Scope) : Scope :=
  { scope with funcs := scope.funcs.map fun entry => (entry.1, entry.2.relocate move) }

variable (scope : Scope)

@[simp] theorem relocate_var? (name : String) :
    (relocate move scope).var? name = scope.var? name := rfl

@[simp] theorem relocate_func? (name : String) :
    (relocate move scope).func? name = (scope.func? name).map (KnownFunction.relocate move) := by
  unfold func? relocate
  dsimp only
  induction scope.funcs with
  | nil => rfl
  | cons entry rest ih =>
    rw [List.map_cons, List.lookup_cons, List.lookup_cons, ih]
    cases name == entry.1 with
    | true => rfl
    | false => rfl

end SymbolTable

namespace Chain

def relocate (move : Position → Position) (chain : Chain Verdict) : Chain Verdict :=
  ⟨chain.base.relocate move, chain.baseType.relocate move, chain.subscripts.relocate move,
    chain.links.map (Expr.relocate move)⟩

theorem relocate_count (chain : Chain Verdict) : (chain.relocate move).count = chain.count :=
  List.length_map _

theorem relocate_checkSubscript (pos : Position) (found : Verdict Ty) :
    checkSubscript (move pos) (found.relocate move) = (checkSubscript pos found).relocate move := by
  simp only [checkSubscript, Verdict.relocate_bind]
  congr 1
  funext ty
  cases ty <;> simp

theorem relocate_extend (chain : Chain Verdict) (link : Expr) (pos : Position)
    (subscript : Verdict Ty) :
    (chain.relocate move).extend (link.relocate move) (move pos) (subscript.relocate move) =
      (chain.extend link pos subscript).relocate move := by
  simp [extend, relocate, relocate_checkSubscript]

theorem relocate_elementType (chain : Chain Verdict) (pos : Position) (areNumbers : Bool)
    (array : Ty) :
    (chain.relocate move).elementType (move pos) areNumbers array =
      (chain.elementType pos areNumbers array).relocate move := by
  simp only [elementType, relocate_count, Verdict.relocate_ite, Verdict.relocate_pure,
    Verdict.relocate_reject]
  rw [relocate, Expr.relocate_pos]

theorem relocate_type (chain : Chain Verdict) (pos : Position) :
    (chain.relocate move).type (move pos) = (chain.type pos).relocate move := by
  have element (areNumbers : Bool) (array : Ty) :=
    (chain.relocate_elementType pos areNumbers array : _ = Verdict.relocate move _)
  unfold type
  rw [Verdict.relocate_ite, relocate_count]
  apply ite_congr rfl
  · exact fun _ => rfl
  · intro _
    simp only [Verdict.visit_eq, Verdict.lift_self, Verdict.relocate_bind]
    congr 1
    funext areNumbers
    congr 1
    funext array
    obtain ⟨base, baseType, subscripts, count⟩ := chain
    -- an element is looked for in a name only
    cases base with
    | ident => exact element areNumbers array
    | _ =>
      simp only [relocate, Expr.relocate, Expr.pos, Verdict.relocate_ite, Verdict.relocate_pure,
        Verdict.relocate_reject]

end Chain

theorem relocate_typeOfName (scope : Scope) (pos : Position) (name : String) :
    typeOfName (SymbolTable.relocate move scope) (move pos) name =
      (typeOfName scope pos name).relocate move := by
  unfold typeOfName
  rw [SymbolTable.relocate_var?]
  cases scope.var? name <;> rfl

theorem Literal.relocate_check (pos : Position) (kind : LitKind) (text : String) :
    Literal.check (move pos) kind text = (Literal.check pos kind text).relocate move := by
  have content (quoted : QuotedKind) (ty : Ty) (content : List UInt8) (forbidden : Option UInt8) :
      checkContent (move pos) quoted ty content forbidden =
        (checkContent pos quoted ty content forbidden).relocate move := by
    unfold checkContent
    rw [Verdict.relocate_ite]
    cases forbidden <;> rfl
  cases kind with
  | int => rfl
  | char => exact content _ _ _ _
  | string => exact content _ _ _ _

theorem relocate_requireInt (pos : Position) (operator : String) (ty : Ty) :
    requireInt (move pos) operator ty = (requireInt pos operator ty).relocate move := by
  cases ty <;> rfl

theorem relocate_checkArgument (func : String) (param : Param) (pos : Position) (found : Ty) :
    checkArgument func (param.relocate move) (move pos) found =
      (checkArgument func param pos found).relocate move := by
  simp only [checkArgument, Verdict.relocate_ite, Verdict.relocate_pure, Verdict.relocate_report]
  rfl

theorem Chain.relocate_single (base : Expr) (baseType : Verdict Ty) :
    Chain.single (base.relocate move) (baseType.relocate move) =
      (Chain.single base baseType).relocate move := rfl

/-- What a call of something that is no name comes to. -/
theorem Expr.chain_call_of_not_ident {scope : Scope} {pos : Position} {callee : Expr}
    {args : List Expr} (noName : ∀ pos name, callee ≠ .ident pos name) :
    (Expr.call pos callee args).chain scope = .single (.call pos callee args) (do
      discard ((callee.chain scope).type callee.pos)
      Verdict.report callee.pos .callOfNonFunction
      Expr.checkArguments scope "" [] args
      pure .invalid) := by
  conv_lhs =>
    rw [Expr.chain]
    · skip
    · exact noName
  rfl

section Expr

variable (scope : Scope)

/-- A call moves with its parts. -/
theorem Expr.relocate_chain_call {pos : Position} {callee : Expr} {args : List Expr}
    (ofCallee : (callee.relocate move).chain (SymbolTable.relocate move scope) =
      (callee.chain scope).relocate move)
    (ofArgs : ∀ func params, Expr.checkArguments (SymbolTable.relocate move scope) func
        (params.map (Param.relocate move)) (Expr.relocateAll move args) =
      (Expr.checkArguments scope func params args).relocate move) :
    ((Expr.call pos callee args).relocate move).chain (SymbolTable.relocate move scope) =
      ((Expr.call pos callee args).chain scope).relocate move := by
  -- arguments of what is no function of as many parameters meet no parameter
  have ofArgsAlone (func : String) : Expr.checkArguments (SymbolTable.relocate move scope) func []
      (Expr.relocateAll move args) = (Expr.checkArguments scope func [] args).relocate move :=
    ofArgs func []
  by_cases isName : ∃ pos name, callee = .ident pos name
  · obtain ⟨calleePos, name, rfl⟩ := isName
    simp only [Expr.relocate, Expr.chain, SymbolTable.relocate_func?]
    -- the function that is found has moved, its parameters and its type have not
    cases scope.func? name with
    | none =>
      simp only [Option.map_none, ← Chain.relocate_single, Expr.relocate, ofArgsAlone,
        Verdict.visit_eq, Verdict.lift_self, Verdict.relocate_bind, Verdict.relocate_report,
        Verdict.relocate_pure]
    | some known =>
      have count : (known.relocate move).decl.params.params.length =
          known.decl.params.params.length := List.length_map _
      have given : (Expr.relocateAll move args).length = args.length := by
        rw [Expr.relocateAll_eq_map, List.length_map]
      have each : Expr.checkArguments (SymbolTable.relocate move scope) name
          (known.relocate move).decl.params.params (Expr.relocateAll move args) = _ :=
        ofArgs name known.decl.params.params
      have returns : (known.relocate move).decl.returns = known.decl.returns := rfl
      simp only [Option.map_some, ← Chain.relocate_single, Expr.relocate, count, given,
        ofArgsAlone, each, returns, Verdict.visit_eq, Verdict.lift_self, Verdict.relocate_ite,
        Verdict.relocate_bind, Verdict.relocate_report, Verdict.relocate_pure]
  · have noName (pos : Position) (name : String) : callee ≠ .ident pos name :=
      fun same => isName ⟨pos, name, same⟩
    have moved (pos : Position) (name : String) : callee.relocate move ≠ .ident pos name := by
      cases callee with
      | ident => exact absurd rfl (noName _ _)
      | _ => simp [Expr.relocate]
    rw [Expr.relocate, Expr.chain_call_of_not_ident noName, Expr.chain_call_of_not_ident moved,
      ← Chain.relocate_single]
    simp only [Expr.relocate, ofCallee, ofArgsAlone, Chain.relocate_type, Expr.relocate_pos,
      Verdict.relocate_bind, Verdict.relocate_discard, Verdict.relocate_report,
      Verdict.relocate_pure]

mutual

theorem Expr.relocate_chain : (e : Expr) →
    (e.relocate move).chain (SymbolTable.relocate move scope) = (e.chain scope).relocate move
  | .bad _ => by
    simp only [Expr.relocate, Expr.chain]
    rfl
  | .ident pos name => by
    simp only [Expr.relocate, Expr.chain, Verdict.lift_self, relocate_typeOfName]
    rfl
  | .lit pos kind text => by
    simp only [Expr.relocate, Expr.chain, Verdict.lift_self, Literal.relocate_check]
    rfl
  | .composite _ items => by
    simp only [Expr.relocate, Expr.chain]
    rfl
  | .paren pos inner => by
    simp only [Expr.relocate, Expr.chain, Expr.relocate_pos, inner.relocate_chain,
      Chain.relocate_type]
    rfl
  | .index _ base subscript => by
    simp only [Expr.relocate, Expr.chain, Expr.relocate_pos, base.relocate_chain,
      subscript.relocate_chain, Chain.relocate_type, ← Chain.relocate_extend]
  | .call _ callee args =>
    Expr.relocate_chain_call scope callee.relocate_chain fun func params =>
      Expr.relocate_checkArguments func params args
  | .unary pos sign operand => by
    simp only [Expr.relocate, Expr.chain, Expr.relocate_pos, operand.relocate_chain,
      Chain.relocate_type, Verdict.lift_self, relocate_requireInt, ← Chain.relocate_single,
      Verdict.relocate_bind]
  | .binary pos op left right => by
    simp only [Expr.relocate, Expr.chain, Expr.relocate_pos, left.relocate_chain,
      right.relocate_chain, Chain.relocate_type, Verdict.lift_self, relocate_requireInt,
      ← Chain.relocate_single, Verdict.relocate_ite, Verdict.relocate_bind, Verdict.relocate_report,
      Verdict.relocate_discard, Verdict.relocate_pure]

theorem Expr.relocate_checkArguments (func : String) : (params : List Param) → (args : List Expr) →
    Expr.checkArguments (SymbolTable.relocate move scope) func (params.map (Param.relocate move))
      (Expr.relocateAll move args) =
        (Expr.checkArguments scope func params args).relocate move
  | _, [] => by
    simp only [Expr.relocateAll, Expr.checkArguments]
    rfl
  | [], arg :: rest => by
    have later : Expr.checkArguments _ func [] _ = Verdict.relocate move _ :=
      Expr.relocate_checkArguments func [] rest
    simp only [List.map_nil, Expr.relocateAll, Expr.checkArguments, Expr.relocate_pos,
      arg.relocate_chain, Chain.relocate_type, Verdict.relocate_bind, Verdict.relocate_discard,
      later]
  | param :: params, arg :: rest => by
    simp only [List.map_cons, Expr.relocateAll, Expr.checkArguments, Expr.relocate_pos,
      arg.relocate_chain, Chain.relocate_type, Verdict.lift_self, Verdict.relocate_bind,
      relocate_checkArgument, Expr.relocate_checkArguments func params rest]

end

theorem Expr.relocate_type (e : Expr) :
    (e.relocate move).type (SymbolTable.relocate move scope) = (e.type scope).relocate move := by
  unfold type
  rw [e.relocate_chain, Expr.relocate_pos, Chain.relocate_type]

theorem Expr.relocate_check (e : Expr) :
    (e.relocate move).check (SymbolTable.relocate move scope) = (e.check scope).relocate move := by
  unfold check
  rw [e.relocate_type, Verdict.relocate_discard]

/-- An expression is judged, and whatever is found in it, `place` is rejected. -/
theorem relocate_refuse (e place : Expr) (problem : Problem) :
    (do
      (e.relocate move).check (SymbolTable.relocate move scope)
      Verdict.report (place.relocate move).pos problem : Verdict Unit) =
      (do
        e.check scope
        Verdict.report place.pos problem : Verdict Unit).relocate move := by
  rw [e.relocate_check, Expr.relocate_pos, Verdict.relocate_bind, Verdict.relocate_report]

theorem Expr.relocate_unparen : (e : Expr) →
    (e.relocate move).unparen = e.unparen.relocate move
  | .paren _ inner => by simp only [relocate, unparen, inner.relocate_unparen]
  | .bad _ | .ident _ _ | .lit _ _ _ | .composite _ _ | .index _ _ _ | .call _ _ _
  | .unary _ _ _ | .binary _ _ _ _ => by simp only [relocate, unparen]

theorem Expr.relocate_checkCondition (cond : Expr) :
    (cond.relocate move).checkCondition (SymbolTable.relocate move scope) =
      (cond.checkCondition scope).relocate move := by
  unfold checkCondition
  rw [cond.relocate_unparen, Verdict.visit_eq, Verdict.visit_eq]
  generalize cond.unparen = inner
  have refused : _ = Verdict.relocate move _ :=
    relocate_refuse scope inner cond .conditionNotRelational
  cases inner with
  | bad pos => simp only [Expr.relocate, Verdict.visit_eq, Verdict.relocate_pure]
  | binary pos op left right =>
    simp only [Expr.relocate] at refused
    simp only [Expr.relocate, Verdict.visit_eq, Verdict.lift_self, Verdict.relocate_ite, refused,
      left.relocate_check, right.relocate_check, Verdict.relocate_bind]
  | _ => exact refused

namespace Shape

theorem relocate_addElement (sofar : Elements) (pos : Position) (found : Ty) :
    addElement sofar (move pos) found = (addElement sofar pos found).relocate move := by
  unfold addElement
  simp only [Verdict.relocate_ite, Verdict.relocate_pure, Verdict.relocate_bind,
    Verdict.relocate_report]
  cases sofar.leaf with
  | none => rfl
  | some first =>
    simp only [Verdict.relocate_ite, Verdict.relocate_pure, Verdict.relocate_bind,
      Verdict.relocate_report]

theorem relocate_addElements (sofar : Elements) (level : List Expr) :
    addElements (SymbolTable.relocate move scope) sofar (level.map (Expr.relocate move)) =
      (addElements scope sofar level).relocate move := by
  induction level generalizing sofar with
  | nil => rfl
  | cons e rest ih =>
    simp only [List.map_cons, addElements, e.relocate_type, Expr.relocate_pos, Verdict.lift_self,
      relocate_addElement, ih, Verdict.relocate_bind]

theorem relocate_ofElements (sizes : List Nat) (level : List Expr) :
    ofElements (SymbolTable.relocate move scope) sizes (level.map (Expr.relocate move)) =
      (ofElements scope sizes level).relocate move := by
  unfold ofElements
  rw [relocate_addElements, Verdict.relocate_bind]
  congr 1
  funext elements
  cases elements.leaf <;> rfl

theorem relocate_rows (level : List Expr) :
    (level.map (Expr.relocate move)).filterMap Expr.items? =
      (level.filterMap Expr.items?).map (List.map (Expr.relocate move)) := by
  have each (e : Expr) :
      (e.relocate move).items? = e.items?.map (List.map (Expr.relocate move)) := by
    cases e with
    | composite pos items =>
      simp only [Expr.relocate, Expr.items?, Expr.relocateAll_eq_map, Option.map_some]
    | _ => simp only [Expr.relocate, Expr.items?, Option.map_none]
  rw [List.filterMap_map, List.map_filterMap]
  exact List.filterMap_congr fun e _ => each e

/-- A level of nested literals elsewhere: all lengths are the same. -/
theorem ofLevel_relocate_cons (pos : Position) (sizes : List Nat) {level first : List Expr}
    {others : List (List Expr)} (rows : level.filterMap Expr.items? = first :: others) :
    ofLevel (SymbolTable.relocate move scope) (move pos) sizes (level.map (Expr.relocate move)) =
      if others.length + 1 < level.length then
        Verdict.reject (move pos) (.mixedLevel (sizes.length + 1))
      else if others.any (·.length ≠ first.length) then
        Verdict.reject (move pos) (.unevenRows (sizes.length + 1))
      else if first.isEmpty then Verdict.reject (move pos) .emptyComposite
      else ofLevel (SymbolTable.relocate move scope) (move pos) (sizes ++ [first.length])
        ((first :: others).flatten.map (Expr.relocate move)) := by
  have movedRows := (relocate_rows level).trans
    (congrArg (List.map (List.map (Expr.relocate move))) rows)
  have uneven : ((others.map (List.map (Expr.relocate move))).any
      (·.length ≠ (first.map (Expr.relocate move)).length)) =
        others.any (·.length ≠ first.length) := by
    simp only [List.any_map, List.length_map, Function.comp_def]
  have flat : (first.map (Expr.relocate move) ::
      others.map (List.map (Expr.relocate move))).flatten =
        (first :: others).flatten.map (Expr.relocate move) := by
    rw [List.map_flatten, List.map_cons]
  rw [ofLevel_cons _ _ _ movedRows, uneven, flat, List.length_map, List.length_map, List.length_map,
    List.isEmpty_map]
  rfl

theorem relocate_ofLevel (pos : Position) (sizes : List Nat) (level : List Expr) :
    ofLevel (SymbolTable.relocate move scope) (move pos) sizes (level.map (Expr.relocate move)) =
      (ofLevel scope pos sizes level).relocate move := by
  fun_induction ofLevel scope pos sizes level with
  | case1 sizes level rows =>
    rw [ofLevel_nil _ _ _ ((relocate_rows level).trans (congrArg _ rows))]
    exact relocate_ofElements scope sizes level
  | case2 sizes level first others rows ih =>
    rw [ofLevel_relocate_cons scope pos sizes rows, ih]
    simp only [Verdict.visit_eq, Verdict.lift_self, Verdict.relocate_ite, Verdict.relocate_reject]

end Shape

theorem Expr.relocate_compositeType (literal : Expr) :
    Expr.compositeType (SymbolTable.relocate move scope) (literal.relocate move) =
      (Expr.compositeType scope literal).relocate move := by
  unfold compositeType
  rw [Expr.relocate_pos]
  exact Shape.relocate_ofLevel scope literal.pos [] [literal]

theorem relocate_checkScalarInit (declared : Ty) (init : Expr) :
    checkScalarInit (SymbolTable.relocate move scope) declared (init.relocate move) =
      (checkScalarInit scope declared init).relocate move := by
  have plain : (do
      let found ← (init.relocate move).type (SymbolTable.relocate move scope)
      if !found.isInvalid && found ≠ declared then
        Verdict.report (init.relocate move).pos (.initMismatch found declared) : Verdict Unit) =
      (do
        let found ← init.type scope
        if !found.isInvalid && found ≠ declared then
          Verdict.report init.pos (.initMismatch found declared) : Verdict Unit).relocate move := by
    simp only [init.relocate_type, Expr.relocate_pos, Verdict.relocate_bind, Verdict.relocate_ite,
      Verdict.relocate_report, Verdict.relocate_pure]
  cases init with
  | composite pos items => rfl
  | _ => exact plain

theorem relocate_checkArrayInit (declared : Ty) (init : Expr) :
    checkArrayInit (SymbolTable.relocate move scope) declared (init.relocate move) =
      (checkArrayInit scope declared init).relocate move := by
  have plain : _ = Verdict.relocate move _ :=
    relocate_refuse scope init init (.plainForArray declared)
  cases init with
  | composite pos items =>
    have found : _ = Verdict.relocate move _ :=
      Expr.relocate_compositeType scope (.composite pos items)
    simp only [Expr.relocate] at found
    simp only [Expr.relocate, checkArrayInit, found, Verdict.lift_self, Verdict.relocate_bind,
      Verdict.relocate_ite, Verdict.relocate_report, Verdict.relocate_pure]
  | _ => exact plain

theorem relocate_checkInit (declared : Ty) (init : Expr) :
    checkInit declared (init.relocate move) (SymbolTable.relocate move scope) =
      (checkInit declared init scope).relocate move := by
  simp only [checkInit, relocate_checkScalarInit, relocate_checkArrayInit, Verdict.relocate_ite]

theorem relocate_indexBase (e : Expr) :
    (e.relocate move).indexBase = e.indexBase.relocate move := by
  fun_induction Expr.indexBase e with
  | case1 pos base subscript ih => simpa only [Expr.relocate, Expr.indexBase] using ih
  | case2 e noIndex =>
    cases e with
    | index pos base subscript => exact absurd rfl (noIndex pos base subscript)
    | _ => simp only [Expr.relocate, Expr.indexBase]

theorem relocate_checkTargetName (pos : Position) (name : String) :
    checkTargetName (SymbolTable.relocate move scope) (move pos) name =
      (checkTargetName scope pos name).relocate move := by
  unfold checkTargetName
  rw [SymbolTable.relocate_var?]
  cases scope.var? name with
  | none => exact Expr.relocate_check scope (.ident pos name)
  | some symbol =>
    simp only [Verdict.visit_eq, Verdict.lift_self, Verdict.relocate_ite, Verdict.relocate_report,
      Verdict.relocate_pure]

theorem relocate_checkTarget (target : Expr) :
    checkTarget (SymbolTable.relocate move scope) (target.relocate move) =
      (checkTarget scope target).relocate move := by
  have refused : _ = Verdict.relocate move _ :=
    relocate_refuse scope target target .assignToExpression
  cases target with
  | ident pos name => exact relocate_checkTargetName scope pos name
  | index pos base subscript =>
    have element : _ = Verdict.relocate move _ :=
      Expr.relocate_type scope (.index pos base subscript)
    have array : _ = Expr.relocate move _ := relocate_indexBase (.index pos base subscript)
    simp only [Expr.relocate] at element array
    simp only [Expr.relocate, checkTarget, element, array, Verdict.relocate_bind]
    congr 1
    funext found
    cases (Expr.index pos base subscript).indexBase with
    | ident namePos name =>
      simp only [Expr.relocate, Verdict.lift_self, Verdict.relocate_ite]
      rfl
    | _ => rfl
  | _ => exact refused

theorem Simple.relocate_check (s : Simple) :
    Simple.check (SymbolTable.relocate move scope) (s.relocate move) =
      (Simple.check scope s).relocate move := by
  cases s with
  | expr pos e => exact e.relocate_check scope
  | assign pos target value =>
    simp only [Simple.relocate, check, relocate_checkTarget, value.relocate_check,
      Verdict.relocate_bind]

theorem Simple.relocate_checkCondition (s : Simple) :
    Simple.checkCondition (SymbolTable.relocate move scope) (s.relocate move) =
      (Simple.checkCondition scope s).relocate move := by
  cases s with
  | expr pos e => exact e.relocate_checkCondition scope
  | assign pos target value =>
    have whole : _ = Verdict.relocate move _ :=
      Simple.relocate_check scope (.assign pos target value)
    simp only [Simple.relocate] at whole
    simp only [Simple.relocate, checkCondition, whole, Verdict.lift_self, Verdict.relocate_bind,
      Verdict.relocate_report]

theorem relocate_checkScan (target : Expr) :
    checkScan (target.relocate move) (SymbolTable.relocate move scope) =
      (checkScan target scope).relocate move := by
  have refused : _ = Verdict.relocate move _ :=
    relocate_refuse scope target target .scanIntoExpression
  cases target with
  | ident pos name =>
    have found : _ = Verdict.relocate move _ := Expr.relocate_type scope (.ident pos name)
    simp only [Expr.relocate] at found
    simp only [Expr.relocate, checkScan, found, Verdict.lift_self, Verdict.relocate_bind,
      Verdict.relocate_ite, Verdict.relocate_report, Verdict.relocate_pure]
    rfl
  | _ => exact refused

theorem relocate_checkPrinted (count index : Nat) (arg : Expr) :
    checkPrinted (SymbolTable.relocate move scope) count index (arg.relocate move) =
      (checkPrinted scope count index arg).relocate move := by
  have plain : (do
      if index = 0 && count = 2 then
        Verdict.report (arg.relocate move).pos .printWithoutFormat
      let found ← (arg.relocate move).type (SymbolTable.relocate move scope)
      if !found.isInvalid && !found.isBasic then
        Verdict.report (arg.relocate move).pos (.printValue found) : Verdict Unit) =
      (do
        if index = 0 && count = 2 then Verdict.report arg.pos .printWithoutFormat
        let found ← arg.type scope
        if !found.isInvalid && !found.isBasic then
          Verdict.report arg.pos (.printValue found) : Verdict Unit).relocate move := by
    simp only [arg.relocate_type, Expr.relocate_pos, Verdict.relocate_bind, Verdict.relocate_ite,
      Verdict.relocate_report, Verdict.relocate_pure]
  cases arg with
  | lit pos kind text =>
    cases kind with
    | string =>
      simp only [Expr.relocate, checkPrinted, Literal.relocate_check, Verdict.visit_eq,
        Verdict.lift_self, Verdict.relocate_bind, Verdict.relocate_discard, Verdict.relocate_ite,
        Verdict.relocate_report, Verdict.relocate_pure]
    | _ => exact plain
  | _ => exact plain

theorem relocate_checkPrint (pos : Position) (args : List Expr) :
    checkPrint (move pos) (args.map (Expr.relocate move)) (SymbolTable.relocate move scope) =
      (checkPrint pos args scope).relocate move := by
  have each (count index : Nat) : checkPrintedFrom (SymbolTable.relocate move scope) count index
      (args.map (Expr.relocate move)) =
        (checkPrintedFrom scope count index args).relocate move := by
    induction args generalizing index with
    | nil => rfl
    | cons arg rest ih =>
      simp only [List.map_cons, checkPrintedFrom, relocate_checkPrinted, ih, Verdict.relocate_bind]
  simp only [checkPrint, List.length_map, each, Verdict.lift_self, Verdict.relocate_bind,
    Verdict.relocate_ite, Verdict.relocate_report]

theorem relocate_checkSubject (subject : Expr) :
    checkSubject (subject.relocate move) (SymbolTable.relocate move scope) =
      (checkSubject subject scope).relocate move := by
  simp only [checkSubject, subject.relocate_type, Expr.relocate_pos, Verdict.lift_self,
    Verdict.relocate_bind, Verdict.relocate_ite, Verdict.relocate_report, Verdict.relocate_pure]

theorem relocate_checkLabel (subject : Ty) (label : Expr) :
    checkLabel subject (label.relocate move) (SymbolTable.relocate move scope) =
      (checkLabel subject label scope).relocate move := by
  simp only [checkLabel, label.relocate_type, Expr.relocate_pos, Verdict.lift_self,
    Verdict.relocate_bind, Verdict.relocate_ite, Verdict.relocate_report, Verdict.relocate_pure]

theorem FunctionContext.relocate_checkReturned (context : FunctionContext) (value : Expr) :
    context.checkReturned (value.relocate move) (SymbolTable.relocate move scope) =
      (context.checkReturned value scope).relocate move := by
  simp only [checkReturned, value.relocate_type, Expr.relocate_pos, Verdict.lift_self,
    Verdict.relocate_bind, Verdict.relocate_ite, Verdict.relocate_report, Verdict.relocate_pure]

end Expr

end MiniC
