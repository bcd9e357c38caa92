import Mathlib.Data.List.Perm.Subperm
import MiniC.Proofs.Check.Reports
import MiniC.Proofs.Check.Traced
import MiniC.Proofs.Stmt.Nodes

/-!
Which nodes the checks made in one scope go to: all nodes of the expressions they are
given, and each once, whatever is in scope and whatever is wrong. Only of a composite
literal that is no array some nodes may be left out. Only at the node of a name it is
reported that the name is not defined, so that is said of every name at most once.
-/

namespace MiniC

open Verdict (Reports)
open Visiting (visit)

/-- Where names are reported that are not defined. -/
def undefinedPlaces (raised : List Diagnostic) : List Position :=
  (raised.filter (·.kind = .undefine)).map (·.pos)

/-- Any problem but that a name is not defined. -/
def IsOfDefined (_ : Position) (problem : Problem) : Prop := problem.kind ≠ .undefine

theorem IsOfDefined.byKind {pos : Position} {problem : Problem}
    (other : decide (problem.kind = .undefine) = false) : IsOfDefined pos problem :=
  of_decide_eq_false other

theorem undefinedPlaces_append (left right : List Diagnostic) :
    undefinedPlaces (left ++ right) = undefinedPlaces left ++ undefinedPlaces right := by
  rw [undefinedPlaces, List.filter_append, List.map_append, undefinedPlaces, undefinedPlaces]

theorem undefinedPlaces_eq_nil {raised : List Diagnostic}
    (defined : ∀ d ∈ raised, d.IsOn IsOfDefined) : undefinedPlaces raised = [] := by
  apply List.map_eq_nil_iff.mpr
  apply List.filter_eq_nil_iff.mpr
  intro d member
  obtain ⟨pos, problem, other, rfl⟩ := defined d member
  exact mt of_decide_eq_true other

/-- The nodes that a check goes to, and that it says of no other name that it is not
defined. -/
structure Traced.Visits {α : Type} (traced : Traced α) (nodes : List Expr) : Prop where
  each : traced.visited.Perm nodes
  undefined : (undefinedPlaces traced.verdict.problems).Subperm (nodes.filterMap Expr.namePlace?)

namespace Traced.Visits

variable {α β : Type} {traced yes no : Traced α} {next : α → Traced β} {left right : List Expr}

theorem perm (visits : traced.Visits left) (same : left.Perm right) : traced.Visits right :=
  ⟨visits.each.trans same, visits.undefined.trans (same.filterMap _).subperm⟩

theorem lift {verdict : Verdict α} (defined : verdict.Reports IsOfDefined) :
    (liftM verdict : Traced α).Visits [] where
  each := .refl []
  undefined := (undefinedPlaces_eq_nil defined).symm ▸ List.nil_subperm

theorem report {pos : Position} {problem : Problem}
    (other : decide (problem.kind = .undefine) = false) :
    (liftM (Verdict.report pos problem) : Traced Unit).Visits [] :=
  lift (.report (.byKind other))

theorem pure (a : α) : (pure a : Traced α).Visits [] := lift (.pure a)

theorem visit (nodes : List Expr) (inside : traced.Visits left) :
    (visit nodes traced).Visits (nodes ++ left) where
  each := inside.each.append_left nodes
  undefined := inside.undefined.trans ((List.sublist_append_right nodes left).filterMap _).subperm

theorem bind (first : traced.Visits left) (further : ∀ a, (next a).Visits right) :
    (traced >>= next).Visits (left ++ right) where
  each := first.each.append (further _).each
  undefined := by
    change (undefinedPlaces (_ ++ _)).Subperm _
    rw [undefinedPlaces_append, List.filterMap_append]
    exact first.undefined.append (further _).undefined

theorem onward (first : traced.Visits []) (further : ∀ a, (next a).Visits right) :
    (traced >>= next).Visits right :=
  first.bind further

theorem ended (first : traced.Visits left) (further : ∀ a, (next a).Visits []) :
    (traced >>= next).Visits left :=
  (first.bind further).perm (.of_eq (List.append_nil left))

theorem discard (visits : traced.Visits left) : (discard traced).Visits left :=
  visits.ended fun _ => pure ()

theorem ite {p : Prop} [Decidable p] (isYes : yes.Visits left) (isNo : no.Visits left) :
    (if p then yes else no).Visits left := by
  by_cases holds : p
  · rwa [if_pos holds]
  · rwa [if_neg holds]

theorem reportIf {p : Prop} [Decidable p] {pos : Position} {problem : Problem}
    (other : decide (problem.kind = .undefine) = false) :
    Visits (if p then Verdict.report pos problem else Pure.pure ()) [] := by
  apply ite
  · exact report other
  · exact pure ()

/-- What follows a report that is not always made. -/
theorem onwardIf {p : Prop} [Decidable p] {pos : Position} {problem : Problem}
    {next : Unit → Traced β} (other : decide (problem.kind = .undefine) = false)
    (further : (next ()).Visits right) :
    Visits (if p then Verdict.report pos problem >>= next else next ()) right := by
  apply ite
  · exact (report other).onward fun _ => further
  · exact further

/-- A name may be reported where it stands. -/
theorem name {pos : Position} {name : String} {verdict : Verdict α}
    (own : (undefinedPlaces verdict.problems).Subperm [pos]) :
    (Visiting.visit [.ident pos name] (liftM verdict : Traced α)).Visits [.ident pos name] where
  each := .refl _
  undefined := own

end Traced.Visits

theorem Literal.check_defined (pos : Position) (kind : LitKind) (text : String) :
    (Literal.check pos kind text).Reports IsOfDefined :=
  Literal.check_reports kind text (fun _ => .byKind rfl) fun _ _ => .byKind rfl

theorem typeOfName_undefined (scope : Scope) (pos : Position) (name : String) :
    (undefinedPlaces (typeOfName scope pos name).problems).Subperm [pos] := by
  unfold typeOfName
  cases scope.var? name with
  | none => exact List.Subperm.refl [pos]
  | some symbol => exact List.nil_subperm

namespace Chain

theorem checkSubscript_visits {subscript : Traced Ty} {nodes : List Expr}
    (visits : subscript.Visits nodes) (pos : Position) :
    (checkSubscript pos subscript).Visits nodes := by
  apply visits.ended
  intro found
  cases found with
  | invalid | int => exact Traced.Visits.pure true
  | _ =>
    apply (Traced.Visits.report rfl).onward
    intro _
    exact Traced.Visits.pure false

/-- What a chain goes to: its subscripts, its base and the links between them. -/
def Visits (chain : Chain Traced) (nodes : List Expr) : Prop :=
  ∃ onBase onSubscripts, chain.baseType.Visits onBase ∧ chain.subscripts.Visits onSubscripts ∧
    (chain.links = [] → onSubscripts = []) ∧
    (chain.links ++ (onSubscripts ++ onBase)).Perm nodes

namespace Visits

variable {chain : Chain Traced} {nodes further : List Expr} {base : Expr}

theorem ofBase {baseType : Traced Ty} (visits : (visit [base] baseType).Visits nodes) :
    (single base baseType).Visits nodes :=
  ⟨nodes, [], visits, .pure true, fun _ => rfl, .refl nodes⟩

theorem single {baseType : Traced Ty} (inside : baseType.Visits nodes) :
    (single base baseType).Visits (base :: nodes) :=
  ofBase (.visit [base] inside)

theorem extend {subscript : Traced Ty} (visits : chain.Visits nodes)
    (onSubscript : subscript.Visits further) (link : Expr) (pos : Position) :
    (chain.extend link pos subscript).Visits (link :: (nodes ++ further)) := by
  obtain ⟨onBase, onSubscripts, ofBase, ofSubscripts, _, whole⟩ := visits
  have here := checkSubscript_visits onSubscript pos
  refine ⟨onBase, onSubscripts ++ further, ofBase, ?_, nofun, ?_⟩
  · apply ofSubscripts.bind
    intro before
    apply here.ended
    intro isNumber
    exact Traced.Visits.pure _
  · refine List.Perm.cons link ?_
    calc chain.links ++ (onSubscripts ++ further ++ onBase)
      _ = chain.links ++ (onSubscripts ++ (further ++ onBase)) := by rw [List.append_assoc]
      _ |>.Perm (chain.links ++ (onSubscripts ++ (onBase ++ further))) :=
        (List.perm_append_comm.append_left _).append_left _
      _ = chain.links ++ (onSubscripts ++ onBase) ++ further := by
        rw [List.append_assoc, List.append_assoc]
      _ |>.Perm (nodes ++ further) := whole.append_right further

theorem type (visits : chain.Visits nodes) (pos : Position) : (chain.type pos).Visits nodes := by
  obtain ⟨onBase, onSubscripts, ofBase, ofSubscripts, bare, whole⟩ := visits
  obtain ⟨base, baseType, subscripts, links⟩ := chain
  cases links with
  | nil =>
    rw [bare rfl] at whole
    exact ofBase.perm whole
  | cons link rest =>
    apply Traced.Visits.perm _ whole
    apply Traced.Visits.visit
    apply ofSubscripts.bind
    intro areNumbers
    apply ofBase.ended
    intro array
    cases base with
    | ident =>
      apply Traced.Visits.lift
      exact elementType_reports (fun _ => .byKind rfl) fun _ => .byKind rfl
    | _ =>
      apply Traced.Visits.ite
      · exact Traced.Visits.pure _
      · exact Traced.Visits.lift (Reports.reject (IsOfDefined.byKind rfl))

end Visits

end Chain

variable {scope : Scope}

/-- What is said of the operand of an operator. -/
theorem requireInt_visits (pos : Position) (operator : String) (found : Ty) :
    (liftM (requireInt pos operator found) : Traced Ty).Visits [] :=
  Traced.Visits.lift (requireInt_reports fun _ => .byKind rfl)

/-- What is said of an argument. -/
theorem checkArgument_visits (func : String) (param : Param) (pos : Position) (found : Ty) :
    (liftM (checkArgument func param pos found) : Traced Unit).Visits [] :=
  Traced.Visits.lift (checkArgument_reports fun _ _ => .byKind rfl)

/-- A call goes to its callee first, by name or as an expression, and to its arguments. -/
theorem Expr.call_visits {pos : Position} {callee : Expr} {args : List Expr}
    (inCallee : ((callee.chain scope : Chain Traced).type callee.pos).Visits callee.parts)
    (inArgs : ∀ func params, (Expr.checkArguments scope func params args : Traced Unit).Visits
      (partsOfAll args)) :
    (Expr.chain scope (.call pos callee args)).Visits (Expr.call pos callee args).parts := by
  -- whatever is found, the type of the call is said last
  have returned (func : String) (params : List Param) (ty : Ty) :
      Traced.Visits (do
        Expr.checkArguments scope func params args
        pure ty) (partsOfAll args) := by
    apply (inArgs func params).ended
    intro _
    exact Traced.Visits.pure ty
  apply Chain.Visits.single
  cases callee with
  | ident calleePos name =>
    dsimp only
    cases scope.func? name with
    | none =>
      apply (Traced.Visits.name (List.Subperm.refl _)).bind
      intro _
      exact returned name [] .invalid
    | some known =>
      apply Traced.Visits.visit [.ident calleePos name]
      apply Traced.Visits.ite
      · apply (Traced.Visits.report rfl).onward
        intro _
        exact returned name [] known.decl.returns
      · exact returned name known.decl.params.params known.decl.returns
  | _ =>
    apply inCallee.discard.bind
    intro _
    apply (Traced.Visits.report rfl).onward
    intro _
    exact returned "" [] .invalid

/-- A comparison where none can stand, and arithmetic, go to both sides. -/
theorem Expr.binary_visits {pos : Position} {op : BinOp} {left right : Expr}
    (inLeft : ((left.chain scope : Chain Traced).type left.pos).Visits left.parts)
    (inRight : ((right.chain scope : Chain Traced).type right.pos).Visits right.parts) :
    (Expr.chain scope (.binary pos op left right)).Visits
      (Expr.binary pos op left right).parts := by
  apply Chain.Visits.single
  apply Traced.Visits.ite
  · apply (Traced.Visits.report rfl).onward
    intro _
    apply inLeft.discard.bind
    intro _
    apply inRight.discard.ended
    intro _
    exact Traced.Visits.pure _
  · apply inLeft.bind
    intro leftFound
    apply inRight.ended
    intro rightFound
    apply (requireInt_visits left.pos op.symbol leftFound).onward
    intro leftType
    apply (requireInt_visits right.pos op.symbol rightFound).onward
    intro rightType
    exact Traced.Visits.pure _

mutual

theorem Expr.chain_visits : (e : Expr) → e.IsUnbraced → (e.chain scope).Visits e.parts
  | .bad _, _ => .single (.pure _)
  | .ident pos name, _ => .ofBase (.name (typeOfName_undefined scope pos name))
  | .lit pos kind text, _ => .single (.lift (Literal.check_defined pos kind text))
  | .paren _ inner, unbraced => .single ((Expr.chain_visits inner unbraced).type _)
  | .index _ base subscript, ⟨onBase, onSubscript⟩ =>
    (Expr.chain_visits base onBase).extend ((Expr.chain_visits subscript onSubscript).type _) _ _
  | .call _ callee args, ⟨onCallee, onArgs⟩ =>
    Expr.call_visits ((Expr.chain_visits callee onCallee).type _)
      (Expr.checkArguments_visits args onArgs)
  | .unary _ sign operand, unbraced => by
    apply Chain.Visits.single
    apply ((Expr.chain_visits operand unbraced).type _).ended
    intro found
    exact requireInt_visits operand.pos sign.symbol found
  | .binary _ _ left right, ⟨onLeft, onRight⟩ =>
    Expr.binary_visits ((Expr.chain_visits left onLeft).type _)
      ((Expr.chain_visits right onRight).type _)

theorem Expr.checkArguments_visits : (args : List Expr) → Expr.AllUnbraced args →
    (func : String) → (params : List Param) →
    (Expr.checkArguments scope func params args : Traced Unit).Visits (Expr.partsOfAll args)
  | [], _, _, [] | [], _, _, _ :: _ => .pure ()
  | arg :: rest, ⟨here, later⟩, func, [] => by
    apply ((Expr.chain_visits arg here).type arg.pos).discard.bind
    intro _
    exact Expr.checkArguments_visits rest later func []
  | arg :: rest, ⟨here, later⟩, func, param :: params => by
    apply ((Expr.chain_visits arg here).type arg.pos).bind
    intro found
    apply (checkArgument_visits func param arg.pos found).onward
    intro _
    exact Expr.checkArguments_visits rest later func params

end

namespace Expr

/-- The parentheses around an expression are gone through one by one. -/
theorem parts_unparen : (e : Expr) → e.parts = e.parens ++ e.unparen.parts
  | paren pos inner => congrArg (paren pos inner :: ·) (parts_unparen inner)
  | bad _ | ident _ _ | lit _ _ _ | composite _ _ | index _ _ _ | call _ _ _ | unary _ _ _
  | binary _ _ _ _ => rfl

theorem IsUnbraced.unparen : (e : Expr) → e.IsUnbraced → e.unparen.IsUnbraced
  | paren _ inner, unbraced => IsUnbraced.unparen inner unbraced
  | bad _, unbraced | ident _ _, unbraced | lit _ _ _, unbraced | composite _ _, unbraced
  | index _ _ _, unbraced | call _ _ _, unbraced | unary _ _ _, unbraced
  | binary _ _ _ _, unbraced => unbraced

variable {e : Expr} (unbraced : e.IsUnbraced)

include unbraced

theorem type_visits : (e.type scope : Traced Ty).Visits e.parts :=
  (chain_visits e unbraced).type e.pos

theorem check_visits : (e.check scope : Traced Unit).Visits e.parts :=
  (type_visits unbraced).discard

theorem checkCondition_visits : (e.checkCondition scope : Traced Unit).Visits e.parts := by
  have inside := IsUnbraced.unparen e unbraced
  -- what compares nothing is checked as an expression, and then spoken of
  have other : Traced.Visits (do
      e.unparen.check scope
      Verdict.report e.pos .conditionNotRelational) e.unparen.parts := by
    apply (check_visits inside).ended
    intro _
    exact Traced.Visits.report rfl
  rw [parts_unparen]
  apply Traced.Visits.visit
  cases same : e.unparen with
  | bad pos => exact Traced.Visits.visit [bad pos] (Traced.Visits.pure ())
  | binary pos op left right =>
    rw [same] at inside other
    obtain ⟨onLeft, onRight⟩ := inside
    apply Traced.Visits.ite
    · apply Traced.Visits.visit [binary pos op left right]
      apply (check_visits onLeft).bind
      intro _
      exact check_visits onRight
    · exact other
  | _ =>
    rw [same] at other
    exact other

end Expr

open Traced (Visits)
open MiniC.Expr (type_visits check_visits partsOfAll)

/-- The check goes to no node of these expressions twice, nor to any other node; it leaves
out only what stands in braces. It says of no name but one it went to that it is not
defined. -/
structure Traced.Traverses {α : Type} (traced : Traced α) (exprs : List Expr) : Prop where
  once : traced.visited.Subperm (partsOfAll exprs)
  whole : ∀ e ∈ exprs, e.IsUnbraced → e.parts ⊆ traced.visited
  undefined : (undefinedPlaces traced.verdict.problems).Subperm
    (traced.visited.filterMap Expr.namePlace?)

theorem Traced.Visits.undefined_visited {α : Type} {traced : Traced α} {nodes : List Expr}
    (visits : traced.Visits nodes) : (undefinedPlaces traced.verdict.problems).Subperm
      (traced.visited.filterMap Expr.namePlace?) :=
  visits.undefined.trans (visits.each.symm.filterMap _).subperm

/-- One expression alone. -/
theorem Traced.Visits.one {α : Type} {traced : Traced α} {e : Expr}
    (visits : traced.Visits e.parts) : traced.Visits (partsOfAll [e]) :=
  visits.perm (.of_eq (List.append_nil e.parts).symm)

theorem Traced.Traverses.ofVisits {α : Type} {traced : Traced α} {exprs : List Expr}
    (visits : traced.Visits (partsOfAll exprs)) : traced.Traverses exprs where
  once := visits.each.subperm
  whole e member _ := by
    have inAll : e.parts ⊆ partsOfAll exprs := by
      rw [Expr.partsOfAll_eq]
      exact fun part inside => List.mem_flatMap.mpr ⟨e, member, inside⟩
    exact List.Subset.trans inAll visits.each.symm.subset
  undefined := visits.undefined_visited

/-- The check goes to some of these nodes, and to each of those once. -/
def Traced.VisitsSome {α : Type} (traced : Traced α) (nodes : List Expr) : Prop :=
  ∃ some, some.Subperm nodes ∧ traced.Visits some

namespace Traced.VisitsSome

variable {α β : Type} {traced yes no : Traced α} {left right : List Expr}

theorem ofVisits (visits : traced.Visits left) : traced.VisitsSome left :=
  ⟨left, .refl left, visits⟩

theorem mono (visits : traced.VisitsSome left) (within : left.Subperm right) :
    traced.VisitsSome right := by
  obtain ⟨nodes, inLeft, exactly⟩ := visits
  exact ⟨nodes, inLeft.trans within, exactly⟩

theorem none (visits : traced.Visits []) : traced.VisitsSome left :=
  (ofVisits visits).mono List.nil_subperm

theorem visit (nodes : List Expr) (inside : traced.VisitsSome left) :
    (visit nodes traced).VisitsSome (nodes ++ left) := by
  obtain ⟨below, within, visits⟩ := inside
  exact ⟨nodes ++ below, (List.Subperm.refl nodes).append within, .visit nodes visits⟩

theorem ended {next : α → Traced β} (first : traced.VisitsSome left)
    (further : ∀ a, (next a).Visits []) : (traced >>= next).VisitsSome left := by
  obtain ⟨nodes, within, visits⟩ := first
  exact ⟨nodes, within, visits.ended further⟩

theorem ite {p : Prop} [Decidable p] (isYes : yes.VisitsSome left) (isNo : no.VisitsSome left) :
    (if p then yes else no).VisitsSome left := by
  by_cases holds : p
  · rwa [if_pos holds]
  · rwa [if_neg holds]

end Traced.VisitsSome

namespace Shape

theorem addElement_defined (sofar : Elements) (pos : Position) (found : Ty) :
    (addElement sofar pos found).Reports IsOfDefined :=
  addElement_reports (fun _ => .byKind rfl) fun _ _ _ => .byKind rfl

theorem addElements_visits (sofar : Elements) {level : List Expr}
    (unbraced : ∀ e ∈ level, e.IsUnbraced) :
    Visits (addElements scope sofar level) (partsOfAll level) := by
  induction level generalizing sofar with
  | nil => exact Visits.pure _
  | cons e rest ih =>
    obtain ⟨here, later⟩ := List.forall_mem_cons.mp unbraced
    apply (type_visits here).bind
    intro found
    apply (Visits.lift (addElement_defined sofar e.pos found)).onward
    intro next
    exact ih next later

theorem ofElements_visits (sizes : List Nat) {level : List Expr}
    (unbraced : ∀ e ∈ level, e.IsUnbraced) :
    Visits (ofElements scope sizes level) (partsOfAll level) := by
  apply (addElements_visits ⟨none, true⟩ unbraced).ended
  intro elements
  cases elements.leaf with
  | none => exact Visits.pure _
  | some leaf => exact Visits.pure _

/-- The literals of a level and what stands below them are some of its nodes. -/
theorem literals_below (level : List Expr) :
    (level.filter (·.items?.isSome) ++ partsOfAll (level.filterMap Expr.items?).flatten).Subperm
      (partsOfAll level) := by
  induction level with
  | nil => exact List.Subperm.refl _
  | cons e rest ih =>
    cases e with
    | composite pos items =>
      have parts (rows : List (List Expr)) : partsOfAll (items :: rows).flatten =
          partsOfAll items ++ partsOfAll rows.flatten := by
        rw [List.flatten_cons, Expr.partsOfAll_eq, List.flatMap_append, ← Expr.partsOfAll_eq,
          ← Expr.partsOfAll_eq]
      change (Expr.composite pos items :: (_ ++ partsOfAll (items :: _).flatten)).Subperm
        (Expr.composite pos items :: (partsOfAll items ++ partsOfAll rest))
      rw [parts]
      refine (List.subperm_cons _).mpr ?_
      exact (List.perm_append_comm_assoc _ _ _).subperm.trans ((List.Subperm.refl _).append ih)
    | _ => exact ih.trans (List.sublist_append_right _ _).subperm

theorem isUnbraced_of_single {e : Expr} (item : e.IsBracedItem) (single : e.items? = none) :
    e.IsUnbraced := by
  cases e with
  | composite => cases single
  | unary pos sign operand =>
    cases operand with
    | bad | ident | lit => trivial
    | _ => exact item.elim
  | bad | ident | lit => trivial
  | _ => exact item.elim

/-- As far down as the levels are gone through, their literals are gone to. -/
theorem ofLevel_visits (pos : Position) (sizes : List Nat) {level : List Expr}
    (items : ∀ e ∈ level, e.IsBracedItem) :
    Traced.VisitsSome (ofLevel scope pos sizes level) (partsOfAll level) := by
  fun_induction (ofLevel scope pos sizes level : Traced Ty) with
  | case1 sizes level rows =>
    have unbraced (e : Expr) (member : e ∈ level) : e.IsUnbraced :=
      isUnbraced_of_single (items e member) (List.filterMap_eq_nil_iff.mp rows e member)
    exact Traced.VisitsSome.ofVisits (ofElements_visits sizes unbraced)
  | case2 sizes level first others rows ih =>
    rw [← rows] at ih ⊢
    have below (e : Expr) (isBelow : e ∈ (level.filterMap Expr.items?).flatten) :
        e.IsBracedItem := by
      obtain ⟨place, inside, inLevel, isItem⟩ := Expr.mem_below.mp isBelow
      exact (Expr.allBracedItems_iff inside).mp (items _ inLevel) e isItem
    have fault (problem : Problem) (other : decide (problem.kind = .undefine) = false) :
        Traced.VisitsSome (Verdict.reject pos problem)
          (partsOfAll (level.filterMap Expr.items?).flatten) :=
      Traced.VisitsSome.none (Visits.lift (Reports.reject (IsOfDefined.byKind other)))
    apply Traced.VisitsSome.mono _ (literals_below level)
    apply Traced.VisitsSome.visit
    apply Traced.VisitsSome.ite (fault _ rfl)
    apply Traced.VisitsSome.ite (fault _ rfl)
    apply Traced.VisitsSome.ite (fault _ rfl)
    exact ih below

end Shape

/-- An initial value without braces is gone to as a whole. -/
theorem checkInit_traverses {e : Expr} (initial : e.IsInitial) (declared : Ty) :
    Traced.Traverses (checkInit declared e scope) [e] := by
  have literal {traced : Traced Unit} {pos : Position} {items : List Expr}
      (visits : traced.VisitsSome (partsOfAll [.composite pos items])) :
      traced.Traverses [.composite pos items] := by
    obtain ⟨nodes, within, exactly⟩ := visits
    refine ⟨exactly.each.subperm.trans within, ?_, exactly.undefined_visited⟩
    exact List.forall_mem_singleton.mpr fun unbraced => unbraced.elim
  unfold checkInit
  split
  · cases e with
    | composite pos items =>
      have items : ∀ item ∈ [Expr.composite pos items], item.IsBracedItem :=
        List.forall_mem_singleton.mpr initial
      apply literal
      apply (Shape.ofLevel_visits pos [] items).ended
      intro found
      exact Visits.reportIf rfl
    | _ =>
      apply Traced.Traverses.ofVisits
      apply Visits.one
      apply (check_visits initial).ended
      intro _
      exact Visits.report rfl
  · cases e with
    | composite pos items =>
      apply literal
      apply Traced.VisitsSome.visit [.composite pos items]
      exact Traced.VisitsSome.none (Visits.report rfl)
    | _ =>
      apply Traced.Traverses.ofVisits
      apply Visits.one
      apply (type_visits initial).ended
      intro found
      exact Visits.reportIf rfl

section Unbraced

variable {e : Expr} (unbraced : e.IsUnbraced)

include unbraced

theorem checkTarget_visits : Visits (checkTarget scope e) e.parts := by
  cases e with
  | ident pos name =>
    change Visits (checkTargetName scope pos name) [.ident pos name]
    unfold checkTargetName
    cases scope.var? name with
    | none => exact check_visits unbraced
    | some symbol =>
      apply Visits.visit [.ident pos name]
      apply Visits.ite
      · exact Visits.report rfl
      · exact Visits.reportIf rfl
  | index pos base subscript =>
    apply (type_visits unbraced).ended
    intro element
    split
    · exact Visits.reportIf rfl
    · exact Visits.pure ()
  | _ =>
    apply (check_visits unbraced).ended
    intro _
    exact Visits.report rfl

theorem checkScan_visits : Visits (checkScan e scope) e.parts := by
  cases e with
  | ident pos name =>
    apply (type_visits unbraced).ended
    intro found
    apply Visits.ite
    · apply Visits.ite
      · exact Visits.report rfl
      · exact Visits.reportIf rfl
    · exact Visits.pure ()
  | _ =>
    apply (check_visits unbraced).ended
    intro _
    exact Visits.report rfl

theorem checkPrinted_visits (count index : Nat) :
    Visits (checkPrinted scope count index e) e.parts := by
  unfold checkPrinted
  split
  · next pos text =>
    have defined := Literal.check_defined pos .string text
    apply Visits.visit [.lit pos .string text]
    apply (Visits.lift (Reports.discard defined)).onward
    intro _
    exact Visits.reportIf rfl
  · apply Visits.onwardIf rfl
    apply (type_visits unbraced).ended
    intro found
    exact Visits.reportIf rfl

theorem checkSubject_visits : Visits (checkSubject e scope) e.parts := by
  apply (type_visits unbraced).ended
  intro found
  apply Visits.onwardIf rfl
  exact Visits.pure found

theorem checkLabel_visits (subject : Ty) : Visits (checkLabel subject e scope) e.parts := by
  apply (type_visits unbraced).ended
  intro found
  exact Visits.reportIf rfl

theorem checkReturned_visits (context : FunctionContext) :
    Visits (context.checkReturned e scope) e.parts := by
  apply (type_visits unbraced).ended
  intro found
  exact Visits.reportIf rfl

end Unbraced

theorem checkPrint_visits (pos : Position) {args : List Expr}
    (unbraced : ∀ e ∈ args, e.IsUnbraced) :
    Visits (checkPrint pos args scope) (partsOfAll args) := by
  have each (count index : Nat) :
      Visits (checkPrintedFrom scope count index args) (partsOfAll args) := by
    induction args generalizing index with
    | nil => exact Visits.pure ()
    | cons arg rest ih =>
      obtain ⟨here, later⟩ := List.forall_mem_cons.mp unbraced
      apply (checkPrinted_visits here count index).bind
      intro _
      exact ih later (index + 1)
  unfold checkPrint
  apply Visits.onwardIf rfl
  exact each args.length 0

namespace Simple

variable {s : Simple} (shaped : s.IsShaped Expr.IsUnbraced)

include shaped

theorem check_visits : Visits (s.check scope) (partsOfAll s.exprs) := by
  cases s with
  | expr pos e => exact (Expr.check_visits shaped.2).one
  | assign pos target value =>
    obtain ⟨_, onTarget, onValue⟩ := shaped
    apply (checkTarget_visits onTarget).bind
    intro _
    exact (Expr.check_visits onValue).one

theorem checkCondition_visits : Visits (s.checkCondition scope) (partsOfAll s.exprs) := by
  cases s with
  | expr pos e => exact (Expr.checkCondition_visits shaped.2).one
  | assign pos target value =>
    apply (check_visits shaped).ended
    intro _
    exact Visits.report rfl

end Simple

end MiniC
