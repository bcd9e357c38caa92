import MiniC.Proofs.Check.Decides
import MiniC.Proofs.Expr.HasType

/-!
The types that are found are those that expressions have. Problems and types
go together on the whole expression only: a wrong argument is reported and the
call keeps its type, while an unknown name has no type and is reported where
it stands. The induction therefore is on what is silent, not on what is found.
-/

namespace MiniC

open Verdict

namespace Ty

theorem ne_invalid_of_leaf {ty : Ty} (valid : ty.leaf ≠ .invalid) : ty ≠ .invalid := by
  rintro rfl
  exact valid rfl

end Ty

/-- The scope finds what the view shows, and all of it is valid. -/
structure Shows (scope : Scope) (view : View) : Prop where
  var (name : String) (ty : Ty) :
    view.var name ty ↔ ∃ symbol, scope.var? name = some symbol ∧ symbol.ty = ty
  func (name : String) (f : FuncDecl) :
    view.func name f ↔ ∃ known, scope.func? name = some known ∧ known.decl = f
  leaf (name : String) (ty : Ty) : view.var name ty → ty.leaf ≠ .invalid
  returns (name : String) (f : FuncDecl) : view.func name f → f.returns ≠ .invalid

/-- The verdict on a literal with quotes. -/
theorem checkContent_decides {pos : Position} {kind : QuotedKind} (ty : Ty) {content : List UInt8}
    {forbidden : Option UInt8} {P : Ty → Prop} (valid : ty ≠ .invalid)
    (typed : ∀ other, P other ↔ other = ty ∧ content ≠ [] ∧ forbidden = none) :
    (Literal.checkContent pos kind ty content forbidden).Decides P := by
  unfold Literal.checkContent
  by_cases isEmpty : content = []
  · rw [if_pos (by rw [isEmpty]; rfl)]
    apply decides_of_not_silent (not_isSilent_reject _ _)
    intro other holds
    exact ((typed other).mp holds).2.1 isEmpty
  · rw [if_neg (by simpa using isEmpty)]
    cases forbidden with
    | some b =>
      apply decides_of_not_silent (not_isSilent_reject _ _)
      intro other holds
      exact nomatch ((typed other).mp holds).2.2
    | none =>
      apply decides_of_silent ty (isSilent_pure ty) rfl valid
      intro other
      rw [typed other]
      exact ⟨fun holds => holds.1, fun same => ⟨same, isEmpty, rfl⟩⟩

theorem literal_decides (view : View) (pos : Position) (kind : LitKind) (text : String) :
    (Literal.check pos kind text).Decides (HasType view (.lit pos kind text)) := by
  cases kind with
  | int =>
    apply decides_of_silent .int (isSilent_pure .int) rfl nofun
    intro other
    constructor
    · rintro (_ | _)
      rfl
    · rintro rfl
      exact .int pos text
  | char =>
    apply checkContent_decides .char nofun
    intro other
    rw [Literal.forbiddenInChar?_eq_none]
    constructor
    · rintro (_ | _)
      exact ⟨rfl, by assumption, by assumption⟩
    · rintro ⟨rfl, nonempty, allowed⟩
      exact .char pos nonempty allowed
  | string =>
    apply checkContent_decides .string nofun
    intro other
    rw [Literal.forbiddenInString?_eq_none]
    constructor
    · rintro (_ | _)
      exact ⟨rfl, by assumption, by assumption⟩
    · rintro ⟨rfl, nonempty, allowed⟩
      exact .string pos nonempty allowed

/-- Operands that have to be numbers. -/
theorem requireInt_decides (pos : Position) (operator : String) {found : Ty}
    (valid : found ≠ .invalid) :
    (requireInt pos operator found).Decides fun ty => found = .int ∧ ty = .int := by
  cases found with
  | invalid => exact (valid rfl).elim
  | int =>
    apply decides_of_silent .int (isSilent_pure .int) rfl nofun
    intro other
    exact ⟨fun same => same.2, fun same => ⟨rfl, same⟩⟩
  | _ =>
    apply decides_of_not_silent (not_isSilent_reject _ _)
    exact fun _ same => nomatch same.1

/-- What a chain comes to, against the expression that it was made from. -/
structure Chain.Judges (chain : Chain Verdict) (view : View) (e : Expr) : Prop where
  base : chain.base = e.indexBase
  count : chain.count = e.subscripts.length
  numbers : chain.subscripts.IsSilent ↔ ∀ i ∈ e.subscripts, HasType view i .int
  areNumbers : chain.subscripts.IsSilent → chain.subscripts.value = true
  baseType : chain.baseType.Decides (HasType view e.indexBase)

/-- Expressions that are no subscripting are their own base. -/
theorem Chain.single_judges {view : View} {e : Expr} {found : Verdict Ty}
    (isBase : e.indexBase = e) (none : e.subscripts = [])
    (decides : found.Decides (HasType view e)) : (Chain.single e found).Judges view e where
  base := isBase.symm
  count := by rw [none]; rfl
  numbers := by simp [none, Chain.single, isSilent_pure]
  areNumbers _ := rfl
  baseType := by rwa [isBase]

theorem checkSubscript_spec (pos : Position) {v : Verdict Ty} {P : Ty → Prop}
    (decides : v.Decides P) :
    ((Chain.checkSubscript pos v).IsSilent ↔ P .int) ∧
      ((Chain.checkSubscript pos v).IsSilent → (Chain.checkSubscript pos v).value = true) := by
  unfold Chain.checkSubscript
  rw [Verdict.isSilent_bind_iff, decides.found_iff]
  by_cases silent : v.IsSilent
  · have valid : v.value ≠ .invalid := fun isInvalid => decides.not_isSilent isInvalid silent
    rw [value_bind]
    cases found : v.value with
    | invalid => exact (valid found).elim
    | int => simp [silent, isSilent_pure]; rfl
    | _ => simp [Verdict.isSilent_bind_iff, not_isSilent_report]
  · simp [silent]

/-- One more subscript. -/
theorem Chain.Judges.extend {chain : Chain Verdict} {view : View} {base subscript : Expr}
    {found : Verdict Ty} (judges : chain.Judges view base)
    (decides : found.Decides (HasType view subscript)) (link : Expr) (pos place : Position) :
    (chain.extend link place found).Judges view (.index pos base subscript) := by
  obtain ⟨here, isNumber⟩ := checkSubscript_spec place decides
  have parts : (chain.extend link place found).subscripts.IsSilent ↔
      chain.subscripts.IsSilent ∧ (Chain.checkSubscript place found).IsSilent := by
    change (chain.subscripts.problems ++ (_ ++ [])) = [] ↔ _
    rw [List.append_nil, List.append_eq_nil_iff]
    rfl
  constructor
  · exact judges.base
  · rw [Expr.subscripts, List.length_append, ← judges.count]
    rfl
  · rw [parts, judges.numbers, here, Expr.subscripts, List.forall_mem_append,
      List.forall_mem_singleton]
  · intro silent
    obtain ⟨before, last⟩ := parts.mp silent
    change (chain.subscripts.value && (Chain.checkSubscript place found).value) = true
    rw [judges.areNumbers before, isNumber last]
    rfl
  · exact judges.baseType

section Scope

variable {scope : Scope} {view : View} (shows : Shows scope view)

include shows

theorem name_decides (pos : Position) (name : String) :
    (typeOfName scope pos name).Decides (HasType view (.ident pos name)) := by
  unfold typeOfName
  cases found : scope.var? name with
  | none =>
    apply decides_of_not_silent (not_isSilent_reject _ _)
    intro ty typed
    obtain ⟨symbol, isVar, _⟩ := (shows.var name ty).mp (HasType.ident_iff.mp typed)
    simp [found] at isVar
  | some symbol =>
    have isVar : view.var name symbol.ty := (shows.var name _).mpr ⟨symbol, found, rfl⟩
    apply decides_of_silent symbol.ty (isSilent_pure _) rfl
      (Ty.ne_invalid_of_leaf (shows.leaf name _ isVar))
    intro other
    rw [HasType.ident_iff, shows.var]
    constructor
    · rintro ⟨found', same, rfl⟩
      rw [found, Option.some.injEq] at same
      rw [same]
    · rintro rfl
      exact ⟨symbol, found, rfl⟩

/-- The type of a chain with subscripts, once the base and the subscripts are
found. -/
theorem elementType_decides (chain : Chain Verdict) (pos : Position) {name : String} {array : Ty}
    (isVar : view.var name array) :
    (chain.elementType pos true array).Decides fun ty =>
      array.isArray = true ∧ chain.count ≤ array.sizes.length ∧ ty = array.leaf := by
  unfold Chain.elementType
  have valid := shows.leaf name array isVar
  rw [if_neg (by rw [Ty.isInvalid_iff]; exact Ty.ne_invalid_of_leaf valid)]
  by_cases isArray : array.isArray = true
  · rw [if_neg (by simp [isArray])]
    by_cases within : chain.count ≤ array.sizes.length
    · rw [if_neg (Nat.not_lt.mpr within)]
      apply decides_of_silent array.leaf (isSilent_pure _) rfl valid
      intro other
      exact ⟨fun found => found.2.2, fun same => ⟨isArray, within, same⟩⟩
    · rw [if_pos (Nat.lt_of_not_le within)]
      apply decides_of_not_silent (not_isSilent_reject _ _)
      exact fun _ found => within found.2.1
  · rw [if_pos (by simpa using isArray)]
    apply decides_of_not_silent (not_isSilent_reject _ _)
    exact fun _ found => isArray found.1

/-- A base that is a name may be an array; any other base may not. -/
theorem Chain.Judges.base_decides {chain : Chain Verdict} {e : Expr} (judges : chain.Judges view e)
    (pos : Position) {array : Ty} (typed : HasType view e.indexBase array) :
    Verdict.Decides
      (match chain.base with
      | .ident _ _ => chain.elementType pos true array
      | base => if array.isInvalid then pure .invalid else reject base.pos .subscriptOfNonVariable)
      fun ty => (∃ place name, e.indexBase = .ident place name) ∧ array.isArray = true ∧
        e.subscripts.length ≤ array.sizes.length ∧ ty = array.leaf := by
  rw [judges.base, ← judges.count]
  split
  · next place name isName =>
    rw [isName, HasType.ident_iff] at typed
    apply (elementType_decides shows chain pos typed).congr
    intro ty
    exact ⟨fun found => found.2, fun found => ⟨⟨place, name, isName⟩, found⟩⟩
  · next notName =>
    rw [if_neg (by rw [Ty.isInvalid_iff]; exact judges.baseType.ne_invalid typed)]
    apply decides_of_not_silent (not_isSilent_reject _ _)
    rintro _ ⟨⟨place, name, isName⟩, _⟩
    exact notName place name isName

/-- The verdict on the whole chain is the verdict on its expression. -/
theorem Chain.Judges.type_decides {chain : Chain Verdict} {e : Expr} (judges : chain.Judges view e)
    (pos : Position) : (chain.type pos).Decides (HasType view e) := by
  -- only subscripts make a chain, any other expression is judged as it is
  by_cases isIndex : ∃ place base subscript, e = .index place base subscript
  · obtain ⟨place, base, subscript, rfl⟩ := isIndex
    have several : chain.count ≠ 0 := by simp [judges.count, Expr.subscripts]
    unfold Chain.type
    rw [if_neg several]
    apply Decides.congr
    · apply Decides.after judges.numbers
      intro silent
      rw [judges.areNumbers silent]
      exact judges.baseType.bind fun array typed => judges.base_decides shows pos typed
    · intro ty
      rw [HasType.index_iff]
      constructor
      · rintro ⟨placed, name, array, isName, isVar, isArray, within, numbers, rfl⟩
        have typed : HasType view (Expr.index place base subscript).indexBase array := by
          rw [Expr.indexBase, isName]
          exact .ident placed isVar
        refine ⟨numbers, array, typed, ⟨placed, name, isName⟩, isArray, ?_, rfl⟩
        simpa [Expr.subscripts] using within
      · rintro ⟨numbers, array, typed, ⟨placed, name, isName⟩, isArray, within, rfl⟩
        rw [isName, HasType.ident_iff] at typed
        refine ⟨placed, name, array, isName, typed, isArray, ?_, numbers, rfl⟩
        simpa [Expr.subscripts] using within
  · have none : e.subscripts = [] ∧ e.indexBase = e := by
      cases e with
      | index place base subscript => exact (isIndex ⟨place, base, subscript, rfl⟩).elim
      | _ => exact ⟨rfl, rfl⟩
    unfold Chain.type
    rw [if_pos (by rw [judges.count, none.1]; rfl)]
    simpa only [none.2] using judges.baseType

omit shows in
theorem checkArgument_isSilent_iff (func : String) (param : Param) (pos : Position) {found : Ty}
    (valid : found ≠ .invalid) :
    (checkArgument func param pos found).IsSilent ↔ found = param.ty ∨ param.ty = .invalid := by
  unfold checkArgument
  have notInvalid := Ty.isInvalid_eq_false valid
  by_cases allowed : found = param.ty ∨ param.ty = .invalid
  · rw [if_pos (by simpa [notInvalid, Ty.isInvalid_iff, or_comm] using allowed)]
    exact iff_of_true (isSilent_pure ()) allowed
  · rw [if_neg (by simpa [notInvalid, Ty.isInvalid_iff, or_comm] using allowed)]
    exact iff_of_false (not_isSilent_report _ _) allowed

/-- A call of a function in scope has the type that is returned, when its arguments fit. -/
theorem HasType.call_known_iff {pos place : Position} {name : String} {args : List Expr}
    {known : KnownFunction} (found : scope.func? name = some known) {ty : Ty} :
    HasType view (.call pos (.ident place name) args) ty ↔
      Fits view known.decl.params.params args ∧ ty = known.decl.returns := by
  rw [HasType.call_iff]
  constructor
  · rintro ⟨_, _, f, same, isFunc, fitting, rfl⟩
    cases same
    obtain ⟨other, isKnown, rfl⟩ := (shows.func name f).mp isFunc
    rw [found, Option.some.injEq] at isKnown
    subst isKnown
    exact ⟨fitting, rfl⟩
  · rintro ⟨fitting, rfl⟩
    have isFunc : view.func name known.decl := (shows.func name _).mpr ⟨known, found, rfl⟩
    exact ⟨place, name, known.decl, rfl, isFunc, fitting, rfl⟩

/-- A call, once its arguments are decided. A call of what is no name, or of a
name that is no function, has no type whatever its arguments are. -/
theorem call_decides (pos : Position) (callee : Expr) (args : List Expr)
    (fits : ∀ func params, params.length = args.length →
      ((Expr.checkArguments scope func params args).IsSilent ↔ Fits view params args)) :
    ((Expr.call pos callee args).chain scope).baseType.Decides
      (HasType view (.call pos callee args)) := by
  cases callee with
  | ident place name =>
    simp only [Expr.chain, Chain.single]
    cases found : scope.func? name with
    | none =>
      apply decides_of_not_silent
      · exact fun silent => not_isSilent_report _ _ (isSilent_bind_iff.mp silent).1
      · intro ty typed
        obtain ⟨_, _, f, same, isFunc, _⟩ := HasType.call_iff.mp typed
        cases same
        obtain ⟨known, isKnown, _⟩ := (shows.func name f).mp isFunc
        simp [found] at isKnown
    | some known =>
      have isFunc : view.func name known.decl := (shows.func name _).mpr ⟨known, found, rfl⟩
      refine Decides.congr ?_ fun ty => HasType.call_known_iff shows found
      dsimp only
      -- arguments are checked also where there are too many or too few of them
      by_cases count : args.length = known.decl.params.params.length
      · rw [if_neg (not_not_intro count)]
        apply Decides.after (fits name _ count.symm)
        intro _
        apply decides_of_silent known.decl.returns (isSilent_pure _) rfl
          (shows.returns name _ isFunc)
        exact fun _ => Iff.rfl
      · rw [if_pos count]
        apply decides_of_not_silent
        · exact fun silent => not_isSilent_report _ _ (isSilent_bind_iff.mp silent).1
        · exact fun _ fitting => count fitting.1.length_eq.symm
  | _ =>
    simp only [Expr.chain, Chain.single]
    apply decides_of_not_silent
    · intro silent
      exact not_isSilent_report _ _ (isSilent_bind_iff.mp (isSilent_bind_iff.mp silent).2).1
    · intro ty typed
      obtain ⟨_, _, _, same, _⟩ := HasType.call_iff.mp typed
      cases same

omit shows in
theorem binary_decides (pos : Position) (op : BinOp) {left right : Expr}
    (decidesLeft : (left.type scope).Decides (HasType view left))
    (decidesRight : (right.type scope).Decides (HasType view right)) :
    ((Expr.binary pos op left right).chain scope).baseType.Decides
      (HasType view (.binary pos op left right)) := by
  simp only [Expr.chain, Chain.single]
  by_cases relational : op.isRelational = true
  · rw [if_pos relational]
    apply decides_of_not_silent
    · exact fun silent => not_isSilent_report _ _ (isSilent_bind_iff.mp silent).1
    · intro ty typed
      simp [(HasType.binary_iff.mp typed).2.1] at relational
  · rw [if_neg relational]
    apply Decides.congr
    · apply decidesLeft.bind
      intro leftFound typedLeft
      apply decidesRight.bind
      intro rightFound typedRight
      apply (requireInt_decides left.pos op.symbol (decidesLeft.ne_invalid typedLeft)).bind
      intro leftType isInt
      have isNumber :=
        requireInt_decides right.pos op.symbol (decidesRight.ne_invalid typedRight)
      apply Decides.bind (R := fun _ ty => ty = .int) isNumber
      intro rightType isIntToo
      rw [isInt.2, isIntToo.2]
      have valid : Ty.int ≠ .invalid := by decide
      exact decides_of_silent .int (isSilent_pure _) rfl valid fun _ => Iff.rfl
    · intro ty
      rw [HasType.binary_iff]
      constructor
      · rintro ⟨rfl, _, typedLeft, typedRight⟩
        exact ⟨.int, typedLeft, .int, typedRight, .int, ⟨rfl, rfl⟩, .int, ⟨rfl, rfl⟩, rfl⟩
      · rintro ⟨_, typedLeft, _, typedRight, _, ⟨rfl, _⟩, _, ⟨rfl, _⟩, rfl⟩
        exact ⟨rfl, by simpa using relational, typedLeft, typedRight⟩

mutual

theorem chain_judges : (e : Expr) → e.NoBad → (e.chain scope).Judges view e
  | .ident pos name, _ => by
    rw [Expr.chain]
    exact Chain.single_judges rfl rfl (name_decides shows pos name)
  | .lit pos kind text, _ => by
    rw [Expr.chain]
    exact Chain.single_judges rfl rfl (literal_decides view pos kind text)
  | .composite pos items, _ => by
    rw [Expr.chain]
    apply Chain.single_judges rfl rfl
    exact decides_of_not_silent (not_isSilent_reject _ _) fun _ typed => nomatch typed
  | .paren pos inner, noBad => by
    have decides := (chain_judges inner noBad).type_decides shows inner.pos
    rw [Expr.chain]
    exact Chain.single_judges rfl rfl (decides.congr fun _ => HasType.paren_iff)
  | .index pos base subscript, ⟨goodBase, good⟩ => by
    have decides := (chain_judges subscript good).type_decides shows subscript.pos
    rw [Expr.chain]
    exact (chain_judges base goodBase).extend decides _ pos subscript.pos
  | .call pos callee args, ⟨_, good⟩ => by
    change (Chain.single _ ((Expr.call pos callee args).chain scope).baseType).Judges view _
    apply Chain.single_judges rfl rfl
    exact call_decides shows pos callee args (arguments_isSilent_iff args good)
  | .unary pos sign operand, good => by
    have decides := (chain_judges operand good).type_decides shows operand.pos
    rw [Expr.chain]
    apply Chain.single_judges rfl rfl
    apply (decides.bind fun found typed =>
      requireInt_decides operand.pos sign.symbol (decides.ne_invalid typed)).congr
    intro ty
    rw [HasType.unary_iff]
    constructor
    · rintro ⟨rfl, typed⟩
      exact ⟨.int, typed, rfl, rfl⟩
    · rintro ⟨_, typed, rfl, rfl⟩
      exact ⟨rfl, typed⟩
  | .binary pos op left right, ⟨goodLeft, good⟩ => by
    change (Chain.single _ ((Expr.binary pos op left right).chain scope).baseType).Judges view _
    apply Chain.single_judges rfl rfl
    exact binary_decides pos op ((chain_judges left goodLeft).type_decides shows left.pos)
      ((chain_judges right good).type_decides shows right.pos)

/-- As many arguments as parameters are silent just when they fit. -/
theorem arguments_isSilent_iff : (args : List Expr) → Expr.AllNoBad args →
    ∀ (func : String) (params : List Param), params.length = args.length →
      ((Expr.checkArguments scope func params args).IsSilent ↔ Fits view params args)
  | [], _, func, params, count => by
    rw [List.length_eq_zero_iff.mp count, Expr.checkArguments]
    exact iff_of_true (isSilent_pure ()) .nil
  | arg :: rest, ⟨goodArg, good⟩, func, params, count => by
    obtain ⟨param, later, rfl⟩ := List.exists_cons_of_length_eq_add_one count
    have decides := (chain_judges arg goodArg).type_decides shows arg.pos
    have others := arguments_isSilent_iff rest good func later (Nat.succ.inj count)
    rw [Expr.checkArguments, decides.isSilent_bind_iff, Fits.cons_iff]
    constructor
    · rintro ⟨ty, typed, silent⟩
      obtain ⟨here, silentLater⟩ := isSilent_bind_iff.mp silent
      have allowed := (checkArgument_isSilent_iff func param arg.pos (decides.ne_invalid typed)).mp here
      exact ⟨⟨ty, typed, allowed⟩, others.mp silentLater⟩
    · rintro ⟨⟨ty, typed, allowed⟩, fits⟩
      have here := (checkArgument_isSilent_iff func param arg.pos (decides.ne_invalid typed)).mpr
        allowed
      exact ⟨ty, typed, isSilent_bind_iff.mpr ⟨here, others.mpr fits⟩⟩

end

/-- What is found for an expression without bad parts is its type, and nothing
is found in silence if it has none. -/
theorem type_decides {e : Expr} (noBad : e.NoBad) : (e.type scope).Decides (HasType view e) :=
  (chain_judges shows e noBad).type_decides shows e.pos

end Scope

end MiniC
