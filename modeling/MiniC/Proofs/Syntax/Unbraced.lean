import MiniC.Proofs.Syntax.Sites

/-!
In a tree that has its shape no composite literal is out of place, and so no site
permits to say that one is.
-/

namespace MiniC

/-- At none of the sites a composite literal may be said to be out of place. -/
def AreUnbraced (sites : List Site) : Prop := ∀ site ∈ sites, site.voice ≠ .braced

namespace AreUnbraced

variable {left right : List Site}

theorem first {pos : Position} (later : AreUnbraced right) :
    AreUnbraced (⟨pos, .plain⟩ :: right) :=
  List.forall_mem_cons.mpr ⟨nofun, later⟩

theorem append (before : AreUnbraced left) (behind : AreUnbraced right) :
    AreUnbraced (left ++ right) :=
  List.forall_mem_append.mpr ⟨before, behind⟩

theorem flatMap {α : Type} {as : List α} {sites : α → List Site}
    (each : ∀ a ∈ as, AreUnbraced (sites a)) : AreUnbraced (as.flatMap sites) :=
  List.forall_mem_flatMap.mpr each

theorem toList {α : Type} {value : Option α} {sites : α → List Site}
    (each : ∀ a ∈ value, AreUnbraced (sites a)) : AreUnbraced (value.toList.flatMap sites) :=
  flatMap fun a member => each a (Option.mem_toList.mp member)

theorem not_permitted (unbraced : AreUnbraced left) {pos : Position} {problem : Problem}
    (permitted : Permitted left pos problem) : problem ≠ .misplacedComposite := by
  rintro rfl
  obtain ⟨⟨_, voice⟩, member, _, permits⟩ := permitted
  cases voice with
  | silent => exact permits
  | plain => exact permits rfl
  | braced => exact unbraced _ member rfl

end AreUnbraced

namespace Expr

mutual

theorem IsUnbraced.sites {isSpoken : Bool} :
    (e : Expr) → e.IsUnbraced → AreUnbraced (e.sites isSpoken)
  | bad _, _ => by cases isSpoken <;> exact List.forall_mem_singleton.mpr nofun
  | ident _ _, _ | lit _ _ _, _ => .first nofun
  | paren _ inner, unbraced => .first (IsUnbraced.sites inner unbraced)
  | index _ base subscript, ⟨onBase, onSubscript⟩ =>
    .append (IsUnbraced.sites base onBase) (IsUnbraced.sites subscript onSubscript)
  | call _ callee args, ⟨onCallee, onArgs⟩ =>
    .append (IsUnbraced.sites callee onCallee) (AllUnbraced.sites args onArgs)
  | unary _ _ operand, unbraced => .first (IsUnbraced.sites operand unbraced)
  | binary _ _ left right, ⟨onLeft, onRight⟩ =>
    .append (IsUnbraced.sites left onLeft) (IsUnbraced.sites right onRight)

theorem AllUnbraced.sites : (es : List Expr) → AllUnbraced es → AreUnbraced (sitesOfAll es)
  | [], _ => nofun
  | e :: rest, ⟨here, later⟩ => .append (IsUnbraced.sites e here) (AllUnbraced.sites rest later)

end

mutual

theorem IsBracedItem.sites : (e : Expr) → e.IsBracedItem → AreUnbraced e.itemSites
  | composite _ items, onItems => .first (AllBracedItems.sites items onItems)
  | bad _, _ => IsUnbraced.sites (bad _) trivial
  | ident _ _, _ | lit _ _ _, _ => .first nofun
  | unary _ _ operand, isSigned => by
    refine .first (IsUnbraced.sites operand ?_)
    cases operand with
    | bad | ident | lit => trivial
    | _ => exact isSigned.elim

theorem AllBracedItems.sites : (es : List Expr) → AllBracedItems es → AreUnbraced (itemSitesOfAll es)
  | [], _ => nofun
  | e :: rest, ⟨here, later⟩ => .append (IsBracedItem.sites e here) (AllBracedItems.sites rest later)

end

theorem IsInitial.sites {e : Expr} (initial : e.IsInitial) (forArray : Bool) :
    AreUnbraced (e.initialSites forArray) := by
  cases e with
  | composite pos items => exact .first (AllBracedItems.sites items initial)
  | _ => exact IsUnbraced.sites _ initial

theorem IsUnbraced.targetSites {e : Expr} (unbraced : e.IsUnbraced) : AreUnbraced e.targetSites := by
  cases e <;> exact IsUnbraced.sites _ unbraced

theorem IsUnbraced.conditionSites {isBare : Bool} :
    (e : Expr) → e.IsUnbraced → AreUnbraced (e.conditionSites isBare)
  | bad _, _ => List.forall_mem_singleton.mpr nofun
  | paren _ inner, unbraced => .first (IsUnbraced.conditionSites inner unbraced)
  | binary pos op left right, unbraced => by
    rw [Expr.conditionSites]
    split
    · exact .append (IsUnbraced.sites left unbraced.1) (IsUnbraced.sites right unbraced.2)
    · exact IsUnbraced.sites (.binary pos op left right) unbraced
  | ident _ _, unbraced | lit _ _ _, unbraced | index _ _ _, unbraced | call _ _ _, unbraced
  | unary _ _ _, unbraced => IsUnbraced.sites _ unbraced

theorem printedSites_unbraced {es : List Expr} (unbraced : ∀ e ∈ es, e.IsUnbraced) (count before : Nat) :
    AreUnbraced (printedSites count before es) := by
  induction es generalizing before with
  | nil => exact nofun
  | cons e rest ih =>
    obtain ⟨here, later⟩ := List.forall_mem_cons.mp unbraced
    exact .append (IsUnbraced.sites e here) (ih later _)

end Expr

theorem VarDecl.IsShaped.sites {v : VarDecl} (shaped : v.IsShaped Expr.IsInitial) :
    AreUnbraced v.sites :=
  .flatMap fun d isDeclarator => .first <|
    .toList fun e isInit => (shaped.initials d isDeclarator e isInit).sites _

namespace Simple

variable {s : Simple} (shaped : s.IsShaped Expr.IsUnbraced)

include shaped

theorem IsShaped.sites : AreUnbraced s.sites := by
  cases s with
  | expr pos e => exact Expr.IsUnbraced.sites e shaped.2
  | assign pos target value =>
    obtain ⟨_, onTarget, onValue⟩ := shaped
    exact .append onTarget.targetSites (Expr.IsUnbraced.sites value onValue)

theorem IsShaped.conditionSites : AreUnbraced s.conditionSites := by
  cases s with
  | expr pos e => exact Expr.IsUnbraced.conditionSites e shaped.2
  | assign pos target value =>
    obtain ⟨_, onTarget, onValue⟩ := shaped
    exact .append (Expr.IsUnbraced.sites target onTarget) (Expr.IsUnbraced.sites value onValue)

end Simple

namespace Stmt

mutual

theorem IsShaped.sites :
    (s : Stmt) → s.IsShaped Expr.IsUnbraced Expr.IsInitial → AreUnbraced s.sites
  | bad _, _ | empty _, _ | decl _ none, _ => nofun
  | decl _ (some _), shaped => VarDecl.IsShaped.sites shaped
  | simple _, shaped => Simple.IsShaped.sites shaped
  | ret _ _, unbraced => .first (.toList fun e isValue => Expr.IsUnbraced.sites e (unbraced e isValue))
  | block _ body, shaped => AllShaped.sites body shaped
  | branch _ cond yes none, ⟨onCond, onYes⟩ =>
    .append (Expr.IsUnbraced.conditionSites cond onCond) (IsShaped.sites yes onYes)
  | branch _ cond yes (some no), ⟨onCond, onYes, onNo⟩ =>
    .append (Expr.IsUnbraced.conditionSites cond onCond)
      (.append (IsShaped.sites yes onYes) (IsShaped.sites no onNo))
  | switch _ subject clauses, ⟨onSubject, onClauses⟩ =>
    .first (.append (Expr.IsUnbraced.sites subject onSubject) (AreShapedClauses.sites clauses onClauses))
  | forLoop _ _ _ _ body, ⟨onInit, onCond, onNext, onBody⟩ =>
    .append (.toList fun s isInit => (onInit s isInit).sites)
      (.append (.toList fun s isCond => (onCond s isCond).conditionSites)
        (.append (.toList fun s isNext => (onNext s isNext).sites) (IsShaped.sites body onBody)))
  | whileLoop _ cond body, ⟨onCond, onBody⟩ =>
    .append (Expr.IsUnbraced.conditionSites cond onCond) (IsShaped.sites body onBody)
  | scan _ target, unbraced => Expr.IsUnbraced.sites target unbraced
  | print _ _, unbraced => .first (Expr.printedSites_unbraced unbraced _ _)

theorem AllShaped.sites : (stmts : List Stmt) →
    AllShaped Expr.IsUnbraced Expr.IsInitial stmts → AreUnbraced (sitesOfAll stmts)
  | [], _ => nofun
  | s :: rest, ⟨here, later⟩ => .append (IsShaped.sites s here) (AllShaped.sites rest later)

theorem AreShapedClauses.sites : (clauses : List Stmt) →
    AreShapedClauses Expr.IsUnbraced Expr.IsInitial clauses → AreUnbraced (sitesOfAll clauses)
  | [], _ => nofun
  | clause _ _ body :: rest, ⟨onLabel, onBody, later⟩ =>
    .append (.first (.append (.toList fun e isLabel => Expr.IsUnbraced.sites e (onLabel e isLabel))
      (AllShaped.sites body onBody))) (AreShapedClauses.sites rest later)

end

end Stmt

theorem File.IsShaped.sites {file : File} (shaped : file.IsShaped Expr.IsUnbraced Expr.IsInitial) :
    AreUnbraced file.sites := by
  refine .flatMap fun decl isDecl => ?_
  have here := shaped decl isDecl
  cases decl with
  | bad => exact nofun
  | func pos f =>
    have params : AreUnbraced (f.params.params.map fun param => ⟨param.name.pos, .plain⟩) := by
      simp [AreUnbraced]
    exact .first (.append params (Stmt.AllShaped.sites f.body here.body))
  | vars pos v => exact VarDecl.IsShaped.sites here

end MiniC
