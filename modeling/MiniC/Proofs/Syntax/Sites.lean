import MiniC.Check.Basic
import MiniC.Expr.Typing
import MiniC.Proofs.Syntax.Shaped

/-!
The sites of a tree: the places at which its check may say something, in the order
of the source, and what it may say there. What is bad was reported when it was
read, and the check is silent about it. But where a kind of expression is wanted,
the check tells that another stands there, bad or not: so it does of what is
called, of what is assigned to or scanned into, of a value for an array, of the
first of two printed arguments and of a condition that compares nothing. An
operation stands where its first operand does and has no site of its own.
-/

namespace MiniC

inductive Voice where
  /-- Nothing is said. -/
  | silent
  | plain
  /-- It may be said that a composite literal is out of place, too. -/
  | braced
deriving DecidableEq

def Voice.Permits : Voice → Problem → Prop
  | silent, _ => False
  | plain, problem => problem ≠ .misplacedComposite
  | braced, _ => True

structure Site where
  pos : Position
  voice : Voice
deriving DecidableEq

def Permitted (sites : List Site) (pos : Position) (problem : Problem) : Prop :=
  ∃ site ∈ sites, site.pos = pos ∧ site.voice.Permits problem

namespace Expr

mutual

/-- The sites of an expression, given whether something may be said at its place even
if it is bad. -/
def sites (isSpoken : Bool) : Expr → List Site
  | bad pos => [⟨pos, if isSpoken then .plain else .silent⟩]
  | ident pos _ | lit pos _ _ => [⟨pos, .plain⟩]
  | composite pos _ => [⟨pos, .braced⟩]
  | paren pos inner => ⟨pos, .plain⟩ :: inner.sites false
  | index _ base subscript => base.sites isSpoken ++ subscript.sites false
  | call _ callee args => callee.sites true ++ sitesOfAll args
  | unary pos _ operand => ⟨pos, .plain⟩ :: operand.sites false
  | binary _ op left right => left.sites (isSpoken || op.isRelational) ++ right.sites false

def sitesOfAll : List Expr → List Site
  | [] => []
  | e :: rest => e.sites false ++ sitesOfAll rest

end

mutual

/-- The sites of an item of a composite literal. -/
def itemSites : Expr → List Site
  | composite pos items => ⟨pos, .plain⟩ :: itemSitesOfAll items
  | e => e.sites false

def itemSitesOfAll : List Expr → List Site
  | [] => []
  | e :: rest => e.itemSites ++ itemSitesOfAll rest

end

/-- The sites of an initial value. -/
def initialSites (forArray : Bool) : Expr → List Site
  | composite pos items => (composite pos items).itemSites
  | e => e.sites forArray

def targetSites : Expr → List Site
  | index pos base subscript => (index pos base subscript).sites false
  | e => e.sites true

/-- The sites of a condition, given whether it has had no parentheses so far. -/
def conditionSites (isBare : Bool) : Expr → List Site
  | bad pos => [⟨pos, .silent⟩]
  | paren pos inner => ⟨pos, .plain⟩ :: inner.conditionSites false
  | binary pos op left right =>
    if op.isRelational then left.sites false ++ right.sites false
    else (binary pos op left right).sites isBare
  | e => e.sites isBare

/-- The sites of printed arguments, of which some have come before. -/
def printedSites (count : Nat) : Nat → List Expr → List Site
  | _, [] => []
  | before, arg :: rest =>
    arg.sites (before = 0 && count = 2) ++ printedSites count (before + 1) rest

end Expr

def Declarator.sites (d : Declarator) (forArray : Bool) : List Site :=
  ⟨d.name.pos, .plain⟩ :: d.init.toList.flatMap (Expr.initialSites forArray)

def VarDecl.sites (v : VarDecl) : List Site :=
  v.declarators.flatMap fun d => d.sites (v.typeOf d).isArray

namespace Simple

def sites : Simple → List Site
  | expr _ e => e.sites false
  | assign _ target value => target.targetSites ++ value.sites false

def conditionSites : Simple → List Site
  | expr _ e => e.conditionSites true
  | assign _ target value => target.sites true ++ value.sites false

end Simple

namespace Stmt

mutual

def sites : Stmt → List Site
  | bad _ | empty _ | decl _ none => []
  | decl _ (some vars) => vars.sites
  | simple s => s.sites
  | ret pos value => ⟨pos, .plain⟩ :: value.toList.flatMap (Expr.sites false)
  | block _ body => sitesOfAll body
  | branch _ cond yes none => cond.conditionSites true ++ yes.sites
  | branch _ cond yes (some no) => cond.conditionSites true ++ (yes.sites ++ no.sites)
  | switch pos subject clauses => ⟨pos, .plain⟩ :: (subject.sites false ++ sitesOfAll clauses)
  | clause pos label body =>
    ⟨pos, .plain⟩ :: (label.toList.flatMap (Expr.sites false) ++ sitesOfAll body)
  | forLoop _ init cond next body =>
    init.toList.flatMap Simple.sites ++ (cond.toList.flatMap Simple.conditionSites ++
      (next.toList.flatMap Simple.sites ++ body.sites))
  | whileLoop _ cond body => cond.conditionSites true ++ body.sites
  | scan _ target => target.sites true
  | print pos args => ⟨pos, .plain⟩ :: Expr.printedSites args.length 0 args

def sitesOfAll : List Stmt → List Site
  | [] => []
  | s :: rest => s.sites ++ sitesOfAll rest

end

end Stmt

def FuncDecl.sites (f : FuncDecl) : List Site :=
  ⟨f.name.pos, .plain⟩ ::
    (f.params.params.map (⟨·.name.pos, .plain⟩) ++ Stmt.sitesOfAll f.body)

def Decl.sites : Decl → List Site
  | .bad _ => []
  | .func _ f => f.sites
  | .vars _ v => v.sites

def File.sites (file : File) : List Site := file.decls.flatMap Decl.sites

namespace Permitted

variable {left right : List Site} {pos : Position} {problem : Problem}

theorem mono (within : left ⊆ right) (permitted : Permitted left pos problem) :
    Permitted right pos problem := by
  obtain ⟨site, member, here, permits⟩ := permitted
  exact ⟨site, within member, here, permits⟩

theorem before (permitted : Permitted left pos problem) : Permitted (left ++ right) pos problem :=
  permitted.mono (List.subset_append_left left right)

theorem behind (permitted : Permitted right pos problem) : Permitted (left ++ right) pos problem :=
  permitted.mono (List.subset_append_right left right)

theorem cases (permitted : Permitted (left ++ right) pos problem) :
    Permitted left pos problem ∨ Permitted right pos problem := by
  obtain ⟨site, member, holds⟩ := permitted
  exact (List.mem_append.mp member).imp (fun inLeft => ⟨site, inLeft, holds⟩)
    fun inRight => ⟨site, inRight, holds⟩

end Permitted

namespace Expr

theorem itemSitesOfAll_eq (es : List Expr) : itemSitesOfAll es = es.flatMap itemSites := by
  induction es with
  | nil => rfl
  | cons e rest ih => rw [itemSitesOfAll, ih, List.flatMap_cons]

theorem IsRooted.unparen : (e : Expr) → e.IsRooted → e.unparen.IsRooted
  | paren _ inner, rooted => IsRooted.unparen inner rooted
  | bad _, rooted | ident _ _, rooted | lit _ _ _, rooted | composite _ _, rooted
  | index _ _ _, rooted | call _ _ _, rooted | unary _ _ _, rooted | binary _ _ _ _, rooted => rooted

theorem unparen_ne_paren {pos : Position} {inner : Expr} : (e : Expr) → e.unparen ≠ paren pos inner
  | paren _ inside => unparen_ne_paren inside
  | bad _ | ident _ _ | lit _ _ _ | composite _ _ | index _ _ _ | call _ _ _ | unary _ _ _
  | binary _ _ _ _ => nofun

/-- The sites of a condition in parentheses are among its own, and so is its place. -/
theorem conditionSites_unparen (isBare : Bool) : (e : Expr) →
    ∃ isStillBare, e.unparen.conditionSites isStillBare ⊆ e.conditionSites isBare ∧
      (e.unparen = e ∧ isStillBare = isBare ∨ ⟨e.pos, .plain⟩ ∈ e.conditionSites isBare)
  | paren _ inner => by
    obtain ⟨isStillBare, within, _⟩ := conditionSites_unparen false inner
    exact ⟨isStillBare, List.Subset.trans within (List.subset_cons_self _ _), .inr List.mem_cons_self⟩
  | bad _ | ident _ _ | lit _ _ _ | composite _ _ | index _ _ _ | call _ _ _ | unary _ _ _
  | binary _ _ _ _ => ⟨isBare, List.Subset.refl _, .inl ⟨rfl, rfl⟩⟩

theorem itemSites_of_single {e : Expr} (single : e.items? = none) : e.itemSites = e.sites false := by
  cases e with
  | composite => cases single
  | _ => rfl

/-- What stands below a level are the items of its literals. -/
theorem mem_below {e : Expr} {level : List Expr} :
    e ∈ (level.filterMap items?).flatten ↔ ∃ pos items, composite pos items ∈ level ∧ e ∈ items := by
  constructor
  · intro isBelow
    obtain ⟨items, isRow, isItem⟩ := List.mem_flatten.mp isBelow
    obtain ⟨literal, inLevel, same⟩ := List.mem_filterMap.mp isRow
    cases literal with
    | composite pos row =>
      cases same
      exact ⟨pos, items, inLevel, isItem⟩
    | _ => cases same
  · rintro ⟨pos, items, inLevel, isItem⟩
    exact List.mem_flatten.mpr ⟨items, List.mem_filterMap.mpr ⟨_, inLevel, rfl⟩, isItem⟩

theorem itemSites_below {level : List Expr} :
    itemSitesOfAll (level.filterMap items?).flatten ⊆ itemSitesOfAll level := by
  simp only [itemSitesOfAll_eq]
  intro site member
  obtain ⟨e, isBelow, inItem⟩ := List.mem_flatMap.mp member
  obtain ⟨pos, items, inLevel, isItem⟩ := mem_below.mp isBelow
  apply List.mem_flatMap.mpr ⟨_, inLevel, ?_⟩
  rw [itemSites, itemSitesOfAll_eq]
  exact List.mem_cons_of_mem _ (List.mem_flatMap.mpr ⟨e, isItem, inItem⟩)

theorem AllRooted.below {level : List Expr} (rooted : AllRooted level) :
    AllRooted (level.filterMap items?).flatten := by
  rw [allRooted_iff] at rooted ⊢
  intro e isBelow
  obtain ⟨pos, items, inLevel, isItem⟩ := mem_below.mp isBelow
  exact (allRooted_iff items).mp (rooted _ inLevel) e isItem

variable {pos : Position} {problem : Problem}

/-- Where an expression is spoken of, no less may be said. -/
theorem permitted_spoken {isSpoken : Bool} : (e : Expr) →
    Permitted (e.sites isSpoken) pos problem → Permitted (e.sites true) pos problem
  | ident _ _, permitted | lit _ _ _, permitted | composite _ _, permitted
  | paren _ _, permitted | unary _ _ _, permitted | call _ _ _, permitted => permitted
  | bad place, permitted => by
    cases isSpoken with
    | true => exact permitted
    | false =>
      obtain ⟨site, member, _, permits⟩ := permitted
      rw [List.mem_singleton.mp member] at permits
      exact permits.elim
  | index _ base _, permitted =>
    permitted.cases.elim (fun inBase => (permitted_spoken base inBase).before) .behind
  | binary _ _ left _, permitted =>
    permitted.cases.elim (fun inLeft => (permitted_spoken left inLeft).before) .behind

/-- Something may be said at the place of an expression that is spoken of. -/
theorem permitted_root (other : problem ≠ .misplacedComposite) : (e : Expr) → e.IsRooted →
    Permitted (e.sites true) e.pos problem
  | bad pos, _ | ident pos _, _ | lit pos _ _, _ => ⟨⟨pos, .plain⟩, List.mem_cons_self, rfl, other⟩
  | paren pos _, _ | unary pos _ _, _ => ⟨⟨pos, .plain⟩, List.mem_cons_self, rfl, other⟩
  | composite pos _, _ => ⟨⟨pos, .braced⟩, List.mem_cons_self, rfl, trivial⟩
  | index _ base _, ⟨same, rooted, _⟩ => same ▸ (permitted_root other base rooted).before
  | call _ callee _, ⟨same, rooted, _⟩ => same ▸ (permitted_root other callee rooted).before
  | binary _ _ left _, ⟨same, rooted, _⟩ => same ▸ (permitted_root other left rooted).before

end Expr

end MiniC
