import MiniC.Proofs.Check.Decides
import MiniC.Proofs.Syntax.Sites

/-!
What is reported of an expression, and where: at a site that permits it. An
expression that has a type may be spoken of at its place, for what stands there is
not bad.
-/

namespace MiniC

namespace Problem

/-- Problems of a function or a file as a whole. -/
def isOverall : Problem → Bool
  | duplicateParameter _ | neverReturns _ _ | missingMain _ => true
  | _ => false

/-- Problems of a statement. -/
def IsOfStmt (problem : Problem) : Prop := problem.isOverall = false

/-- Problems of a statement that any site permits where something may be said. -/
def isPlain : Problem → Bool
  | misplacedComposite => false
  | problem => !problem.isOverall

end Problem

/-- A remark on one of these problems, at a place that it may have. -/
def Diagnostic.IsOn (allowed : Position → Problem → Prop) (d : Diagnostic) : Prop :=
  ∃ pos problem, allowed pos problem ∧ d = problem.diagnose pos

/-- A problem of a statement, at a site that permits it. -/
def Voiced (sites : List Site) (pos : Position) (problem : Problem) : Prop :=
  problem.IsOfStmt ∧ Permitted sites pos problem

/-- Any plain problem may be reported at the place. -/
def Speaks (allowed : Position → Problem → Prop) (pos : Position) : Prop :=
  ∀ problem : Problem, problem.isPlain = true → allowed pos problem

section Voiced

variable {left right sites : List Site} {pos : Position} {problem : Problem}

theorem Problem.isOfStmt_of_isPlain (isPlain : problem.isPlain = true) :
    problem.IsOfStmt ∧ problem ≠ .misplacedComposite := by
  cases problem <;> simp_all [Problem.isPlain, Problem.isOverall, Problem.IsOfStmt]

theorem Voiced.mono (within : left ⊆ right) (voiced : Voiced left pos problem) :
    Voiced right pos problem :=
  ⟨voiced.1, voiced.2.mono within⟩

theorem Speaks.at_site (member : ⟨pos, .plain⟩ ∈ sites) : Speaks (Voiced sites) pos := by
  intro problem isPlain
  obtain ⟨ofStmt, other⟩ := Problem.isOfStmt_of_isPlain isPlain
  exact ⟨ofStmt, ⟨pos, .plain⟩, member, rfl, other⟩

theorem Speaks.first : Speaks (Voiced (⟨pos, .plain⟩ :: sites)) pos := .at_site List.mem_cons_self

theorem Speaks.mono {allowed wider : Position → Problem → Prop} (speaks : Speaks allowed pos)
    (implies : ∀ problem, allowed pos problem → wider pos problem) : Speaks wider pos :=
  fun problem isPlain => implies problem (speaks problem isPlain)

theorem Speaks.before (speaks : Speaks (Voiced left) pos) : Speaks (Voiced (left ++ right)) pos :=
  speaks.mono fun _ => .mono (List.subset_append_left left right)

theorem Speaks.behind (speaks : Speaks (Voiced right) pos) : Speaks (Voiced (left ++ right)) pos :=
  speaks.mono fun _ => .mono (List.subset_append_right left right)

theorem Expr.speaks_spoken {e : Expr} (rooted : e.IsRooted) :
    Speaks (Voiced (e.sites true)) e.pos := by
  intro problem isPlain
  obtain ⟨ofStmt, other⟩ := Problem.isOfStmt_of_isPlain isPlain
  exact ⟨ofStmt, Expr.permitted_root other e rooted⟩

theorem Voiced.spoken {e : Expr} {isSpoken : Bool} (voiced : Voiced (e.sites false) pos problem) :
    Voiced (e.sites isSpoken) pos problem := by
  cases isSpoken with
  | false => exact voiced
  | true => exact ⟨voiced.1, Expr.permitted_spoken e voiced.2⟩

end Voiced

namespace Verdict

variable {α β : Type} {allowed : Position → Problem → Prop}

def Reports (allowed : Position → Problem → Prop) (v : Verdict α) : Prop :=
  ∀ d ∈ v.problems, d.IsOn allowed

namespace Reports

theorem pure (a : α) : Reports allowed (pure a) := nofun

theorem report {pos : Position} {problem : Problem} (isAllowed : allowed pos problem) :
    Reports allowed (report pos problem) :=
  List.forall_mem_singleton.mpr ⟨pos, problem, isAllowed, rfl⟩

theorem bind {v : Verdict α} {f : α → Verdict β} (first : v.Reports allowed)
    (next : (f v.value).Reports allowed) : Reports allowed (v >>= f) :=
  List.forall_mem_append.mpr ⟨first, next⟩

theorem reject {pos : Position} {problem : Problem} (isAllowed : allowed pos problem) :
    Reports allowed (reject pos problem) :=
  bind (report isAllowed) (pure _)

theorem discard {v : Verdict α} (reports : v.Reports allowed) : Reports allowed (discard v) :=
  bind reports (pure _)

theorem ite {p : Prop} [Decidable p] {yes no : Verdict α} (isYes : p → yes.Reports allowed)
    (isNo : ¬ p → no.Reports allowed) : Reports allowed (if p then yes else no) := by
  by_cases holds : p
  · rw [if_pos holds]
    exact isYes holds
  · rw [if_neg holds]
    exact isNo holds

theorem reportIf {p : Prop} [Decidable p] {pos : Position} {problem : Problem}
    (isAllowed : p → allowed pos problem) :
    Reports allowed (if p then Verdict.report pos problem else Pure.pure ()) :=
  ite (fun holds => report (isAllowed holds)) fun _ => pure ()

theorem mono {v : Verdict α} {wider : Position → Problem → Prop} (reports : v.Reports allowed)
    (implies : ∀ pos problem, allowed pos problem → wider pos problem) : v.Reports wider := by
  intro d member
  obtain ⟨pos, problem, isAllowed, same⟩ := reports d member
  exact ⟨pos, problem, implies pos problem isAllowed, same⟩

variable {v : Verdict α} {left right : List Site}

theorem within (reports : v.Reports (Voiced left)) (sub : left ⊆ right) :
    v.Reports (Voiced right) :=
  reports.mono fun _ _ => .mono sub

theorem before (reports : v.Reports (Voiced left)) : v.Reports (Voiced (left ++ right)) :=
  reports.within (List.subset_append_left left right)

theorem behind (reports : v.Reports (Voiced right)) : v.Reports (Voiced (left ++ right)) :=
  reports.within (List.subset_append_right left right)

theorem after {site : Site} (reports : v.Reports (Voiced right)) :
    v.Reports (Voiced (site :: right)) :=
  reports.within (List.subset_cons_self site right)

theorem some {a : β} {sites : β → List Site} (reports : v.Reports (Voiced (sites a))) :
    v.Reports (Voiced ((some a).toList.flatMap sites)) := by
  rwa [Option.toList_some, List.flatMap_singleton]

theorem spoken {e : Expr} {isSpoken : Bool} (reports : v.Reports (Voiced (e.sites false))) :
    v.Reports (Voiced (e.sites isSpoken)) :=
  reports.mono fun _ _ => .spoken

end Reports

end Verdict

open Verdict (Reports)

theorem Ty.ne_invalid_of_and {ty : Ty} {b : Bool} (holds : (!ty.isInvalid && b) = true) :
    ty ≠ .invalid := by
  rintro rfl
  cases holds

section Expressions

variable {scope : Scope} {allowed : Position → Problem → Prop}

/-- Problems of a literal that may be said at its place. -/
theorem Literal.check_reports {pos : Position} (kind : LitKind) (text : String)
    (empty : ∀ quoted, allowed pos (.emptyLiteral quoted))
    (forbidden : ∀ quoted b, allowed pos (.forbiddenByte quoted b)) :
    (Literal.check pos kind text).Reports allowed := by
  have content (quoted : QuotedKind) (ty : Ty) (content : List UInt8) (found : Option UInt8) :
      (Literal.checkContent pos quoted ty content found).Reports allowed := by
    apply Reports.ite
    · exact fun _ => Reports.reject (empty quoted)
    intro nonempty
    cases found with
    | none => exact Reports.pure _
    | some b => exact Reports.reject (forbidden quoted b)
  cases kind with
  | int => exact Reports.pure _
  | char | string => exact content _ _ _ _

theorem requireInt_reports {pos : Position} {operator : String} {found : Ty}
    (notInt : found ≠ .invalid → allowed pos (.operandNotInt operator found)) :
    (requireInt pos operator found).Reports allowed := by
  cases found with
  | invalid | int => exact Reports.pure _
  | _ => exact Reports.reject (notInt nofun)

theorem typeOfName_reports {pos : Position} {name : String}
    (undefined : allowed pos (.undefinedVariable name)) :
    (typeOfName scope pos name).Reports allowed := by
  unfold typeOfName
  cases scope.var? name with
  | none => exact Reports.reject undefined
  | some symbol => exact Reports.pure _

theorem checkArgument_reports {func : String} {param : Param} {pos : Position} {found : Ty}
    (mismatch : found ≠ .invalid → found ≠ param.ty →
      allowed pos (.argumentType found param.ty param.name.text func)) :
    (checkArgument func param pos found).Reports allowed := by
  apply Reports.ite
  · exact fun _ => Reports.pure ()
  intro differ
  rw [Bool.or_eq_true, Bool.or_eq_true, not_or, not_or, Ty.isInvalid_iff, decide_eq_true_iff] at differ
  exact Reports.report (mismatch differ.1.1 differ.2)

namespace Chain

theorem checkSubscript_reports {pos : Position} {found : Verdict Ty} (reports : found.Reports allowed)
    (notInt : found.value ≠ .invalid → allowed pos (.subscriptNotInt found.value)) :
    (checkSubscript pos found).Reports allowed := by
  apply Reports.bind reports
  generalize found.value = ty at notInt
  cases ty with
  | invalid | int => exact Reports.pure _
  | _ =>
    apply Reports.bind (Reports.report (notInt nofun))
    exact Reports.pure _

theorem elementType_reports {v : Type → Type} {chain : Chain v} {pos : Position}
    {areNumbers : Bool} {array : Ty}
    (notArray : array ≠ .invalid → allowed chain.base.pos (.subscriptOfNonArray array))
    (tooMany : array ≠ .invalid → allowed pos (.tooManySubscripts array)) :
    (chain.elementType pos areNumbers array).Reports allowed := by
  apply Reports.ite
  · exact fun _ => Reports.pure _
  intro valid
  apply Reports.ite
  · exact fun _ => Reports.reject (notArray (mt Ty.isInvalid_iff.mpr valid))
  intro isArray
  apply Reports.ite
  · exact fun _ => Reports.reject (tooMany (mt Ty.isInvalid_iff.mpr valid))
  · exact fun _ => Reports.pure _

/-- What is said of a chain as a whole is said of a base that has a type. -/
theorem type_reports {chain : Chain Verdict} {pos : Position}
    (base : chain.baseType.Reports allowed) (subscripts : chain.subscripts.Reports allowed)
    (notArray : chain.baseType.value ≠ .invalid →
      allowed chain.base.pos (.subscriptOfNonArray chain.baseType.value))
    (tooMany : chain.baseType.value ≠ .invalid →
      allowed pos (.tooManySubscripts chain.baseType.value))
    (notVariable : chain.baseType.value ≠ .invalid →
      allowed chain.base.pos .subscriptOfNonVariable) :
    (chain.type pos).Reports allowed := by
  apply Reports.ite
  · exact fun _ => base
  intro subscripted
  apply Reports.bind subscripts
  apply Reports.bind base
  split
  · exact elementType_reports notArray tooMany
  · apply Reports.ite
    · exact fun _ => Reports.pure _
    · exact fun valid => Reports.reject (notVariable (mt Ty.isInvalid_iff.mpr valid))

end Chain

/-- What is reported of a chain that an expression is taken apart to. -/
structure Chain.ReportsOf (e : Expr) (chain : Chain Verdict) : Prop where
  base : chain.baseType.Reports (Voiced (e.sites false))
  subscripts : chain.subscripts.Reports (Voiced (e.sites false))
  place : chain.base.pos = e.pos
  speaks : chain.baseType.value ≠ .invalid → Speaks (Voiced (e.sites false)) e.pos

namespace Chain.ReportsOf

variable {e : Expr} {chain : Chain Verdict}

theorem single {found : Verdict Ty} (reports : found.Reports (Voiced (e.sites false)))
    (speaks : found.value ≠ .invalid → Speaks (Voiced (e.sites false)) e.pos) :
    (single e found).ReportsOf e :=
  ⟨reports, .pure true, rfl, speaks⟩

/-- An expression that has a type is one that may be spoken of. -/
theorem type_speaks (reports : chain.ReportsOf e) (typed : (chain.type e.pos).value ≠ .invalid) :
    Speaks (Voiced (e.sites false)) e.pos := by
  apply reports.speaks
  intro invalid
  apply typed
  unfold Chain.type
  split
  · exact invalid
  · dsimp only [Bind.bind, Verdict.bind]
    rw [invalid]
    split <;> rfl

theorem type (reports : chain.ReportsOf e) :
    (chain.type e.pos).Reports (Voiced (e.sites false)) := by
  have speaks (typed : chain.baseType.value ≠ .invalid) :
      Speaks (Voiced (e.sites false)) chain.base.pos :=
    reports.place ▸ reports.speaks typed
  exact type_reports reports.base reports.subscripts (fun typed => speaks typed _ rfl)
    (fun typed => reports.speaks typed _ rfl) fun typed => speaks typed _ rfl

theorem extend {base subscript : Expr} {pos : Position} {found : Verdict Ty}
    (reports : chain.ReportsOf base) (root : pos = base.pos)
    (onSubscript : found.Reports (Voiced (subscript.sites false)))
    (speaks : found.value ≠ .invalid → Speaks (Voiced (subscript.sites false)) subscript.pos) :
    (chain.extend (.index pos base subscript) subscript.pos found).ReportsOf
      (.index pos base subscript) where
  base := reports.base.before
  subscripts := by
    have here := checkSubscript_reports onSubscript fun typed => speaks typed _ rfl
    apply Reports.bind reports.subscripts.before
    apply Reports.bind here.behind
    exact Reports.pure _
  place := reports.place.trans root.symm
  speaks typed := root ▸ (reports.speaks typed).before

end Chain.ReportsOf

section Operators

variable {pos : Position} {callee left right : Expr} {args : List Expr} {op : BinOp}

/-- A call, when what is reported of its parts is reported at their sites. -/
theorem Expr.call_reports (root : pos = callee.pos) (rooted : callee.IsRooted)
    (judged : (callee.chain scope).ReportsOf callee)
    (onArgs : ∀ func params,
      (Expr.checkArguments scope func params args).Reports (Voiced (Expr.sitesOfAll args))) :
    ((Expr.call pos callee args).chain scope).ReportsOf (.call pos callee args) := by
  have speaks : Speaks (Voiced ((Expr.call pos callee args).sites false)) pos :=
    root ▸ (Expr.speaks_spoken rooted).before
  have arguments (func : String) (params : List Param) :
      (Expr.checkArguments scope func params args).Reports
        (Voiced ((Expr.call pos callee args).sites false)) :=
    (onArgs func params).behind
  have onCallee : ((callee.chain scope).type callee.pos).Reports
      (Voiced (callee.sites true ++ Expr.sitesOfAll args)) :=
    judged.type.spoken.before
  -- whatever is found, the type of the call is said last
  have returned (func : String) (params : List Param) (ty : Ty) :
      Reports (Voiced ((Expr.call pos callee args).sites false)) (do
        Expr.checkArguments scope func params args
        pure ty) := by
    apply Reports.bind (arguments func params)
    exact Reports.pure ty
  apply Chain.ReportsOf.single _ fun _ => speaks
  cases callee with
  | ident calleePos name =>
    have here : Speaks (Voiced ((Expr.call pos (.ident calleePos name) args).sites false))
        calleePos := .first
    dsimp only
    cases scope.func? name with
    | none =>
      apply Reports.bind (Reports.report (here _ rfl))
      exact returned name [] .invalid
    | some known =>
      apply Reports.ite
      · intro differ
        apply Reports.bind (Reports.report (speaks _ rfl))
        exact returned name [] known.decl.returns
      · exact fun _ => returned name known.decl.params.params known.decl.returns
  | _ =>
    apply Reports.bind (Reports.discard onCallee)
    apply Reports.bind (Reports.report (root ▸ speaks _ rfl))
    exact returned "" [] .invalid

/-- A comparison is reported at the place of its left side, and its sides are judged. -/
theorem Expr.comparison_reports (isRelational : op.isRelational = true) (root : pos = left.pos)
    (rooted : left.IsRooted) (judgedLeft : (left.chain scope).ReportsOf left)
    (judgedRight : (right.chain scope).ReportsOf right) :
    ((Expr.binary pos op left right).chain scope).ReportsOf (.binary pos op left right) := by
  have sites : (Expr.binary pos op left right).sites false =
      left.sites true ++ right.sites false := by
    rw [Expr.sites, isRelational, Bool.false_or]
  have speaks : Speaks (Voiced ((Expr.binary pos op left right).sites false)) pos :=
    sites ▸ root ▸ (Expr.speaks_spoken rooted).before
  rw [Expr.chain, if_pos isRelational]
  apply Chain.ReportsOf.single _ fun _ => speaks
  apply Reports.bind (Reports.report (speaks _ rfl))
  rw [sites]
  apply Reports.bind (Reports.discard judgedLeft.type.spoken.before)
  apply Reports.bind (Reports.discard judgedRight.type.behind)
  exact Reports.pure _

/-- Arithmetic has a type only if its left side has one. -/
theorem Expr.arithmetic_reports (isArithmetic : op.isRelational = false) (root : pos = left.pos)
    (judgedLeft : (left.chain scope).ReportsOf left)
    (judgedRight : (right.chain scope).ReportsOf right) :
    ((Expr.binary pos op left right).chain scope).ReportsOf (.binary pos op left right) := by
  have sites : (Expr.binary pos op left right).sites false =
      left.sites false ++ right.sites false := by
    rw [Expr.sites, isArithmetic, Bool.false_or]
  rw [Expr.chain, if_neg (by rw [isArithmetic]; nofun)]
  apply Chain.ReportsOf.single
  · have speaksLeft := judgedLeft.type_speaks
    have speaksRight := judgedRight.type_speaks
    rw [sites]
    apply Reports.bind judgedLeft.type.before
    apply Reports.bind judgedRight.type.behind
    apply Reports.bind (requireInt_reports fun typed => (speaksLeft typed).before _ rfl)
    apply Reports.bind (requireInt_reports fun typed => (speaksRight typed).behind _ rfl)
    exact Reports.pure _
  · intro typed
    rw [sites, root]
    refine (judgedLeft.type_speaks fun invalid => typed ?_).before
    simp only [Verdict.value_bind, invalid]
    rfl

end Operators

mutual

theorem Expr.chain_reports : (e : Expr) → e.IsRooted → (e.chain scope).ReportsOf e
  | .bad _, _ => .single (.pure _) fun typed => (typed rfl).elim
  | .ident _ _, _ => .single (typeOfName_reports (Speaks.first _ rfl)) fun _ => .first
  | .lit pos kind text, _ => by
    have speaks : Speaks (Voiced ((Expr.lit pos kind text).sites false)) pos := .first
    apply Chain.ReportsOf.single _ fun _ => speaks
    exact Literal.check_reports kind text (fun _ => speaks _ rfl) fun _ _ => speaks _ rfl
  | .composite pos _, _ =>
    .single (.reject ⟨rfl, ⟨pos, .braced⟩, List.mem_cons_self, rfl, trivial⟩) fun typed =>
      (typed rfl).elim
  | .paren _ inner, rooted => .single (Expr.chain_reports inner rooted).type.after fun _ => .first
  | .index _ base subscript, ⟨root, onBase, onSubscript⟩ =>
    have judged := Expr.chain_reports subscript onSubscript
    (Expr.chain_reports base onBase).extend root judged.type judged.type_speaks
  | .call _ callee args, ⟨root, onCallee, onArgs⟩ =>
    Expr.call_reports root onCallee (Expr.chain_reports callee onCallee)
      (Expr.checkArguments_reports args onArgs)
  | .unary _ sign operand, rooted => by
    have judged := Expr.chain_reports operand rooted
    refine Chain.ReportsOf.single ?_ fun _ => Speaks.first
    apply Reports.bind judged.type.after
    apply requireInt_reports
    intro typed
    exact (judged.type_speaks typed _ rfl).mono (List.subset_cons_self _ _)
  | .binary _ op left right, ⟨root, onLeft, onRight⟩ => by
    have judgedLeft := Expr.chain_reports left onLeft
    have judgedRight := Expr.chain_reports right onRight
    cases kind : op.isRelational with
    | true => exact Expr.comparison_reports kind root onLeft judgedLeft judgedRight
    | false => exact Expr.arithmetic_reports kind root judgedLeft judgedRight

theorem Expr.checkArguments_reports : (args : List Expr) → Expr.AllRooted args → (func : String) →
    (params : List Param) →
    (Expr.checkArguments scope func params args).Reports (Voiced (Expr.sitesOfAll args))
  | [], _, _, [] | [], _, _, _ :: _ => .pure ()
  | arg :: rest, ⟨rooted, others⟩, func, [] => by
    apply Reports.bind (Reports.discard (Expr.chain_reports arg rooted).type.before)
    exact (Expr.checkArguments_reports rest others func []).behind
  | arg :: rest, ⟨rooted, others⟩, func, param :: params => by
    have judged := Expr.chain_reports arg rooted
    apply Reports.bind judged.type.before
    apply Reports.bind (checkArgument_reports fun typed _ => (judged.type_speaks typed).before _ rfl)
    exact (Expr.checkArguments_reports rest others func params).behind

end

variable {e : Expr} (rooted : e.IsRooted)

include rooted

theorem Expr.type_reports : (e.type scope).Reports (Voiced (e.sites false)) :=
  (Expr.chain_reports e rooted).type

/-- An expression with a type is one that may be spoken of. -/
theorem Expr.type_speaks (typed : (e.type scope).value ≠ .invalid) :
    Speaks (Voiced (e.sites false)) e.pos :=
  (Expr.chain_reports e rooted).type_speaks typed

theorem Expr.check_reports : (e.check scope).Reports (Voiced (e.sites false)) :=
  .discard (e.type_reports rooted)

theorem Expr.checkCondition_reports :
    (e.checkCondition scope).Reports (Voiced (e.conditionSites true)) := by
  obtain ⟨isBare, within, bare⟩ := e.conditionSites_unparen true
  have inside := Expr.IsRooted.unparen e rooted
  -- what compares nothing is judged as it is, and is spoken of at the place of the whole
  have other (own : e.unparen.conditionSites isBare = e.unparen.sites isBare) :
      Reports (Voiced (e.conditionSites true)) (do
        e.unparen.check scope
        Verdict.report e.pos .conditionNotRelational) := by
    have speaks : Speaks (Voiced (e.conditionSites true)) e.pos := by
      rcases bare with ⟨same, rfl⟩ | member
      · have spoken := Expr.speaks_spoken inside
        rw [← own, same] at spoken
        exact spoken
      · exact .at_site member
    rw [own] at within
    apply Reports.bind ((Expr.check_reports inside).spoken.within within)
    exact Reports.report (speaks _ rfl)
  unfold Expr.checkCondition
  cases same : e.unparen with
  | bad => exact .pure ()
  | paren pos inner => exact (Expr.unparen_ne_paren e same).elim
  | binary pos op left right =>
    rw [same] at within inside other
    apply Reports.ite
    · intro isRelational
      rw [Expr.conditionSites, if_pos isRelational] at within
      obtain ⟨_, onLeft, onRight⟩ := inside
      apply Reports.bind ((Expr.check_reports onLeft).before.within within)
      exact (Expr.check_reports onRight).behind.within within
    · intro isArithmetic
      exact other (by rw [Expr.conditionSites, if_neg isArithmetic])
  | _ =>
    rw [same] at other
    exact other rfl

end Expressions

end MiniC
