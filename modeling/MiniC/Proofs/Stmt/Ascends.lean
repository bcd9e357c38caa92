import MiniC.Compilation
import MiniC.Proofs.Expr.Ascends
import MiniC.Proofs.Expr.Shaped

/-!
The sites of a file ascend. Between two expressions of a statement, and behind
each of its keywords, a token is passed; so a statement is clear of what comes
next, unless the source has ended. There a function has no closing brace and is
dropped, and only a list of variables can end at the end itself.
-/

namespace MiniC

open MiniC.Parser

section Places

namespace Declarator

def places (d : Declarator) : List Position := d.name.pos :: d.init.toList.flatMap Expr.itemPlaces

theorem sites_pos (d : Declarator) (forArray : Bool) : (d.sites forArray).map (·.pos) = d.places := by
  rw [sites, places, List.map_cons, List.map_flatMap]
  simp only [Expr.initialSites_pos]

end Declarator

namespace VarDecl

def places (v : VarDecl) : List Position := v.declarators.flatMap Declarator.places

theorem sites_pos (v : VarDecl) : v.sites.map (·.pos) = v.places := by
  rw [sites, places, List.map_flatMap]
  simp only [Declarator.sites_pos]

end VarDecl

namespace Simple

def places : Simple → List Position
  | expr _ e => e.places
  | assign _ target value => target.places ++ value.places

theorem sites_pos (s : Simple) : s.sites.map (·.pos) = s.places := by
  cases s with
  | expr => rfl
  | assign pos target value =>
    rw [sites, places, List.map_append, Expr.targetSites_pos, Expr.sites_pos]

theorem conditionSites_pos (s : Simple) : s.conditionSites.map (·.pos) = s.places := by
  cases s with
  | expr pos e => exact e.conditionSites_pos true
  | assign pos target value =>
    rw [conditionSites, places, List.map_append, Expr.sites_pos, Expr.sites_pos]

end Simple

namespace Stmt

/-- Where the sites of a statement stand. -/
def places (s : Stmt) : List Position := s.sites.map (·.pos)

theorem sitesOfAll_pos (stmts : List Stmt) : (sitesOfAll stmts).map (·.pos) = stmts.flatMap places := by
  induction stmts with
  | nil => rfl
  | cons s rest ih => rw [sitesOfAll, List.map_append, ih, List.flatMap_cons, places]

theorem places_decl (pos : Position) (v : VarDecl) : (decl pos (some v)).places = v.places :=
  v.sites_pos

theorem places_simple (s : Simple) : (simple s).places = s.places := s.sites_pos

theorem places_ret (pos : Position) (value : Option Expr) :
    (ret pos value).places = pos :: value.toList.flatMap Expr.places :=
  congrArg (pos :: ·) (List.map_flatMap ..)

theorem places_block (pos : Position) (body : List Stmt) :
    (block pos body).places = body.flatMap places :=
  sitesOfAll_pos body

theorem places_branch (pos : Position) (cond : Expr) (yes : Stmt) (no : Option Stmt) :
    (branch pos cond yes no).places = cond.places ++ (yes.places ++ no.toList.flatMap places) := by
  have condition := cond.conditionSites_pos true
  cases no with
  | none =>
    refine List.map_append.trans (congrArg₂ (· ++ ·) condition ?_)
    exact (List.append_nil _).symm
  | some no =>
    refine List.map_append.trans (congrArg₂ (· ++ ·) condition ?_)
    refine List.map_append.trans (congrArg (yes.places ++ ·) ?_)
    exact (List.append_nil _).symm

theorem places_switch (pos : Position) (subject : Expr) (clauses : List Stmt) :
    (switch pos subject clauses).places = pos :: (subject.places ++ clauses.flatMap places) := by
  refine congrArg (pos :: ·) (List.map_append.trans ?_)
  exact congrArg (subject.places ++ ·) (sitesOfAll_pos clauses)

theorem places_clause (pos : Position) (label : Option Expr) (body : List Stmt) :
    (clause pos label body).places =
      pos :: (label.toList.flatMap Expr.places ++ body.flatMap places) := by
  refine congrArg (pos :: ·) (List.map_append.trans ?_)
  exact congrArg₂ (· ++ ·) (List.map_flatMap ..) (sitesOfAll_pos body)

theorem places_forLoop (pos : Position) (init cond next : Option Simple) (body : Stmt) :
    (forLoop pos init cond next body).places =
      init.toList.flatMap Simple.places ++ (cond.toList.flatMap Simple.places ++
        (next.toList.flatMap Simple.places ++ body.places)) := by
  have plain (header : Option Simple) : (header.toList.flatMap Simple.sites).map (·.pos) =
      header.toList.flatMap Simple.places := by
    rw [List.map_flatMap]
    simp only [Simple.sites_pos]
  have tested : (cond.toList.flatMap Simple.conditionSites).map (·.pos) =
      cond.toList.flatMap Simple.places := by
    rw [List.map_flatMap]
    simp only [Simple.conditionSites_pos]
  refine List.map_append.trans (congrArg₂ (· ++ ·) (plain init) ?_)
  refine List.map_append.trans (congrArg₂ (· ++ ·) tested ?_)
  exact List.map_append.trans (congrArg (· ++ body.places) (plain next))

theorem places_whileLoop (pos : Position) (cond : Expr) (body : Stmt) :
    (whileLoop pos cond body).places = cond.places ++ body.places := by
  exact List.map_append.trans (congrArg (· ++ body.places) (cond.conditionSites_pos true))

theorem places_scan (pos : Position) (target : Expr) : (scan pos target).places = target.places :=
  target.sites_pos true

theorem places_print (pos : Position) (args : List Expr) :
    (print pos args).places = pos :: args.flatMap Expr.places :=
  congrArg (pos :: ·) (Expr.printedSites_pos ..)

end Stmt

def FuncDecl.places (f : FuncDecl) : List Position :=
  f.name.pos :: (f.params.params.map (·.name.pos) ++ f.body.flatMap Stmt.places)

theorem FuncDecl.sites_pos (f : FuncDecl) : f.sites.map (·.pos) = f.places := by
  rw [sites, places, List.map_cons, List.map_append, List.map_map, Stmt.sitesOfAll_pos]
  rfl

def Decl.places (decl : Decl) : List Position := decl.sites.map (·.pos)

/-- Where the sites of a file stand. -/
def File.places (file : File) : List Position := file.sites.map (·.pos)

theorem File.places_eq (file : File) : file.places = file.decls.flatMap Decl.places :=
  List.map_flatMap ..

end Places

section Declarations

variable {expr : Parser Expr} {stmt : Parser Stmt}

theorem identifier_covers : Covers identifier fun name => [name.pos] := by
  intro s ascends
  refine Leads.peek (Leads.ite (fun _ => ?_) fun _ => ?_)
  · exact Leads.advance (Leads.pure (.here ascends s.passed_isRest))
  · exact Leads.missing (Leads.advance (Leads.pure (.here ascends s.passed_isRest)))

theorem parameter_covers : Covers parameter fun param => [param.name.pos] := by
  intro s ascends
  have stays : Leads parameterType s fun _ r => r = s := by
    refine Leads.peekKind ?_
    split
    · exact Leads.pure rfl
    · exact Leads.pure rfl
    · exact Leads.missing (Leads.pure rfl)
  refine Leads.peek (Leads.bind stays ?_)
  rintro ty _ - rfl
  refine Leads.ite (fun _ => Leads.pure (.here ascends (.refl _))) fun _ => Leads.advance ?_
  refine Leads.bind (identifier_covers _ (ascends.rest (Stream.passed_isRest _))) ?_
  exact fun name r _ touch => Leads.pure (touch.since ascends (Stream.passed_isRest _))

section Vars

variable (exprs : Covers expr Expr.places) (unbraced : Gives expr Expr.IsUnbraced)

include exprs unbraced

/-- What is left of a declaration behind its first name is read. -/
theorem declarator_extends (name : Name) :
    Extends (declarator expr name) [name.pos] Declarator.places := by
  intro low s ascends touch
  refine Leads.bind (P := fun _ _ => True) trivial fun sizes r isRest _ => ?_
  have further := ascends.rest isRest
  have before : Touch low [name.pos] r := touch.rest ascends isRest
  have init : Leads (initializer expr) r fun value later =>
      Touch low (name.pos :: value.toList.flatMap Expr.itemPlaces) later := by
    refine Leads.accept (fun isAssign => ?_) fun _ => Leads.pure before
    have behind := before.passes further (Stream.upcoming_of_kind (isAssign ▸ nofun))
    have next := further.rest r.passed_isRest
    refine Leads.peekKind (Leads.ite (fun opens => ?_) fun _ => ?_)
    · refine Leads.map ((Composite.literal_covers opens next).mono fun literal later own => ?_)
      rw [Option.toList_some, List.flatMap_singleton]
      exact behind.append own
    · refine Leads.map (((exprs _ next).gives unbraced).mono ?_)
      rintro e later ⟨own, isUnbraced⟩
      rw [Option.toList_some, List.flatMap_singleton, isUnbraced.itemPlaces]
      exact behind.append own
  exact Leads.bind init fun value later _ touches => Leads.pure touches

theorem declarators_touch (first : Name) {low : Nat} {s : Stream} (ascends : s.Ascends)
    (touch : Touch low [first.pos] s) :
    Leads (declarators expr first) s fun list r =>
      Touch low (list.flatMap Declarator.places) r ∧ Clear low (list.flatMap Declarator.places) r := by
  refine Leads.bind (declarator_extends exprs unbraced first low s ascends touch) fun head r isRest own => ?_
  have each : Covers (do let name ← identifier; declarator expr name) Declarator.places := by
    intro s ascends
    refine Leads.bind (identifier_covers s ascends) fun name r isRest touch => ?_
    exact declarator_extends exprs unbraced name _ r (ascends.rest isRest) touch
  refine Leads.bind (each.manyWhile (ascends.rest isRest) own) fun later r' isRest' whole => ?_
  have further := (ascends.rest isRest).rest isRest'
  exact Leads.require (Leads.pure ⟨whole.rest further r'.passed_isRest, whole.clears further⟩)

end Vars

section Function

variable (stmts : Clears stmt Stmt.places)

include stmts

/-- Statements in braces end behind the closing brace, or are none. -/
theorem braced_behind {low : Nat} {before : List Position} {s : Stream} (ascends : s.Ascends)
    (clear : Clear low before s) :
    Leads (braced stmt) s fun body r =>
      ∀ stmts ∈ body, Ascent low (before ++ stmts.flatMap Stmt.places) r.offset := by
  have further := ascends.rest s.passed_isRest
  refine Leads.require (Leads.bind (stmts.manyWhile _ _ further) fun body r isRest own => ?_)
  refine Leads.peekKind (Leads.ite (fun _ => Leads.missing (Leads.pure nofun)) fun goesOn => ?_)
  refine Leads.advance (Leads.pure ?_)
  rintro stmts ⟨⟩
  have whole := (clear.rest ascends s.passed_isRest).append own isRest
  exact (whole (Stream.upcoming_of_kind goesOn)).mono
    ((further.rest isRest).offset_le r.passed_isRest)

theorem function_behind {low : Nat} {s : Stream} (returns : Ty) (returnsPos : Position) (name : Name)
    (ascends : s.Ascends) (touch : Touch low [name.pos] s) :
    Leads (function stmt returns returnsPos name) s fun func r =>
      ∀ f ∈ func, Ascent low f.places r.offset := by
  have params : Leads parameterList s fun list r =>
      Clear low (name.pos :: list.params.map (·.name.pos)) r := by
    refine Leads.position (Leads.require ?_)
    have further := ascends.rest s.passed_isRest
    refine Leads.bind (parameter_covers.commaList _ _ further) fun list r isRest own => ?_
    refine Leads.require (Leads.pure ?_)
    rw [List.map_eq_flatMap]
    exact (touch.clears ascends).append_touch own isRest further
  refine Leads.bind params fun list r isRest before => Leads.position ?_
  refine Leads.bind (braced_behind stmts (ascends.rest isRest) before) fun body later _ closed => ?_
  refine Leads.remark (Leads.pure ?_)
  intro f isFunc
  obtain ⟨stmts, isBody, rfl⟩ := Option.map_eq_some_iff.mp isFunc
  exact closed stmts isBody

end Function

section Both

variable (exprs : Covers expr Expr.places) (unbraced : Gives expr Expr.IsUnbraced)
  (stmts : Clears stmt Stmt.places)

include exprs unbraced stmts

/-- A declaration touches what comes next only at the end of the source. -/
theorem declaration_covers (isTopLevel : Bool) {s : Stream} (ascends : s.Ascends) :
    Leads (declaration expr stmt isTopLevel) s fun decl r =>
      Touch s.offset decl.places r ∧ Clear s.offset decl.places r := by
  have bad (pos : Position) {r : Stream} (isRest : r.IsRest s) :
      Touch s.offset (Decl.bad pos).places r ∧ Clear s.offset (Decl.bad pos).places r :=
    ⟨.none ascends isRest, .none ascends isRest⟩
  refine Leads.position (Leads.bind (P := fun _ _ => True) trivial fun isConst r isRest _ => ?_)
  have further := ascends.rest isRest
  refine Leads.peek ?_
  cases isBase : r.token.kind.baseType? with
  | none => exact Leads.missing (Leads.advance (Leads.pure (bad _ (r.passed_isRest.trans isRest))))
  | some base =>
    have within := r.passed_isRest.trans isRest
    refine Leads.advance (Leads.bind (identifier_covers _ (ascends.rest within)) ?_)
    intro name later isRest' named
    have touch := named.since ascends within
    have onward := isRest'.trans within
    refine Leads.peekKind (Leads.ite (fun _ => ?_) fun _ => ?_)
    · refine Leads.bind (function_behind stmts base _ name (ascends.rest onward) touch) ?_
      intro func last isRest'' closed
      have ends := bad s.token.pos (isRest''.trans onward)
      refine Leads.ite (fun _ => Leads.report (Leads.pure ends)) fun _ => ?_
      refine Leads.ite (fun _ => Leads.report (Leads.pure ends)) fun _ => Leads.pure ?_
      cases func with
      | none => exact ends
      | some f =>
        have places : (Decl.func s.token.pos f).places = f.places := f.sites_pos
        have ascent := closed f rfl
        rw [Option.map_some, Option.getD_some, places]
        exact ⟨ascent.mono (Nat.le_succ _), fun _ => ascent⟩
    · refine Leads.bind (declarators_touch exprs unbraced name (ascends.rest onward) touch) ?_
      intro list last isRest'' both
      refine Leads.ite (fun _ => ?_) fun _ => Leads.pure ?_
      · exact Leads.report (Leads.pure (bad _ (isRest''.trans onward)))
      · have places : (Decl.vars s.token.pos ⟨isConst, base, r.token.pos, list⟩).places =
            list.flatMap Declarator.places := VarDecl.sites_pos _
        rwa [places]

end Both

end Declarations

namespace StmtContext

variable {inner : StmtContext Parser} (exprs : Covers inner.expr Expr.places)
  (unbraced : Gives inner.expr Expr.IsUnbraced) (stmts : Clears inner.stmt Stmt.places)

section Exprs

include exprs

theorem simple_covers : Covers inner.simple Simple.places := by
  intro s ascends
  refine Leads.position (Leads.bind (exprs s ascends) fun target r isRest touch => ?_)
  refine Leads.accept (fun isAssign => ?_) fun _ => Leads.pure touch
  have further := ascends.rest isRest
  have behind := touch.passes further (Stream.upcoming_of_kind (isAssign ▸ nofun))
  refine Leads.bind (exprs _ (further.rest r.passed_isRest)) fun value later _ own => ?_
  exact Leads.pure (behind.append own)

theorem header_covers (close : TokenKind) :
    Covers (inner.header close) (·.toList.flatMap Simple.places) := by
  intro s ascends
  refine Leads.peekKind (Leads.ite (fun _ => Leads.pure (.none ascends (.refl s))) fun _ => ?_)
  refine Leads.map ((simple_covers exprs s ascends).mono fun simple r touch => ?_)
  dsimp only
  rwa [Option.toList_some, List.flatMap_singleton]

theorem condition_clears : Clears inner.condition Expr.places := by
  intro s ascends
  have further := ascends.rest s.passed_isRest
  refine Leads.require (Leads.bind (exprs _ further) fun cond r isRest touch => ?_)
  exact Leads.require (Leads.pure (Clear.append_touch (.none ascends s.passed_isRest) touch isRest further))

theorem simpleStmt_clears : Clears inner.simpleStmt Stmt.places := by
  intro s ascends
  refine Leads.bind (simple_covers exprs s ascends) fun simple r isRest touch => ?_
  refine Leads.require (Leads.pure ?_)
  rw [Stmt.places_simple]
  exact touch.clears (ascends.rest isRest)

theorem scan_clears (pos : Position) : Clears (inner.scan pos) Stmt.places := by
  intro s ascends
  have further := ascends.rest s.passed_isRest
  refine Leads.require (Leads.bind (condition_clears exprs _ further) fun target r isRest clear => ?_)
  refine Leads.require (Leads.pure ?_)
  rw [Stmt.places_scan]
  exact (clear.since ascends s.passed_isRest).rest (further.rest isRest) r.passed_isRest

theorem print_clears {s : Stream} (ascends : s.Ascends) :
    Leads (inner.print s.token.pos) s fun stmt r => Clear s.offset stmt.places r := by
  have first := (Touch.here ascends (.refl s)).clears ascends
  have further := ascends.rest s.passed_isRest
  have inside := further.rest s.passed.passed_isRest
  refine Leads.require (Leads.require ?_)
  refine Leads.bind (exprs.commaList .rParen _ inside) fun args r isRest own => ?_
  refine Leads.require (Leads.require (Leads.pure ?_))
  rw [Stmt.places_print]
  have whole := (first.rest further s.passed.passed_isRest).append_touch own isRest inside
  exact whole.rest ((inside.rest isRest).rest r.passed_isRest) r.passed.passed_isRest

theorem ret_clears {s : Stream} (ascends : s.Ascends) :
    Leads (inner.ret s.token.pos) s fun stmt r => Clear s.offset stmt.places r := by
  have first := (Touch.here ascends (.refl s)).clears ascends
  have further := ascends.rest s.passed_isRest
  have ends (value : Option Expr) (r : Stream)
      (clear : Clear s.offset (s.token.pos :: value.toList.flatMap Expr.places) r.passed) :
      Leads (do require .semicolon; pure (Stmt.ret s.token.pos value)) r fun stmt later =>
        Clear s.offset stmt.places later := by
    refine Leads.require (Leads.pure ?_)
    rwa [Stmt.places_ret]
  refine Leads.require (Leads.peekKind (Leads.ite (fun _ => ?_) fun _ => ?_))
  · exact ends none _ (first.rest further s.passed.passed_isRest)
  · have value : Leads (some <$> inner.expr) s.passed fun value r =>
        Clear s.offset (s.token.pos :: value.toList.flatMap Expr.places) r.passed := by
      refine Leads.map ((exprs _ further).mono_rest fun e r isRest own => ?_)
      rw [Option.toList_some, List.flatMap_singleton]
      exact first.append_touch own isRest further
    exact Leads.bind value fun value r _ clear => ends value r clear

theorem label_clears {s : Stream} (ascends : s.Ascends) :
    Leads inner.label s fun label r =>
      Clear s.offset (s.token.pos :: label.toList.flatMap Expr.places) r.passed := by
  have first := (Touch.here ascends (.refl s)).clears ascends
  have further := ascends.rest s.passed_isRest
  refine Leads.accept (fun _ => Leads.pure (first.rest further s.passed.passed_isRest)) fun _ => ?_
  refine Leads.require ((Leads.map ((exprs _ further).mono_rest fun e r isRest own => ?_)))
  rw [Option.toList_some, List.flatMap_singleton]
  exact first.append_touch own isRest further

end Exprs

section Stmts

include stmts

theorem block_clears (pos : Position) : Clears (inner.block pos) Stmt.places := by
  intro s ascends
  refine Leads.bind (braced_behind stmts ascends (.none ascends (.refl s))) fun body r isRest own => ?_
  refine Leads.pure ?_
  cases body with
  | none => exact Clear.none ascends isRest
  | some body =>
    rw [Option.map_some, Option.getD_some, Stmt.places_block]
    exact fun _ => own body rfl

end Stmts

section Both

include exprs stmts

theorem branch_clears (pos : Position) : Clears (inner.branch pos) Stmt.places := by
  intro s ascends
  have further := ascends.rest s.passed_isRest
  refine Leads.require (Leads.bind (condition_clears exprs _ further) fun cond r isRest onCond => ?_)
  have behind := further.rest isRest
  refine Leads.bind (stmts r behind) fun yes r' isRest' onYes => ?_
  have start := onCond.since ascends s.passed_isRest
  refine Leads.accept (fun _ => ?_) fun _ => Leads.pure ?_
  · have inside := (behind.rest isRest')
    refine Leads.bind (stmts _ (inside.rest r'.passed_isRest)) fun no last isRest'' onNo => ?_
    refine Leads.pure ?_
    rw [Stmt.places_branch, Option.toList_some, List.flatMap_singleton]
    have both := (onYes.rest inside r'.passed_isRest).append onNo isRest''
    exact start.append both (isRest''.trans (r'.passed_isRest.trans isRest'))
  · rw [Stmt.places_branch, Option.toList_none, List.flatMap_nil, List.append_nil]
    exact start.append onYes isRest'

theorem whileLoop_clears (pos : Position) : Clears (inner.whileLoop pos) Stmt.places := by
  intro s ascends
  have further := ascends.rest s.passed_isRest
  refine Leads.require (Leads.bind (condition_clears exprs _ further) fun cond r isRest onCond => ?_)
  refine Leads.bind (stmts r (further.rest isRest)) fun body last isRest' onBody => Leads.pure ?_
  rw [Stmt.places_whileLoop]
  exact (onCond.since ascends s.passed_isRest).append onBody isRest'

theorem forLoop_clears (pos : Position) : Clears (inner.forLoop pos) Stmt.places := by
  intro s ascends
  have opened := ascends.rest s.passed_isRest
  have behind := opened.rest s.passed.passed_isRest
  refine Leads.require (Leads.require ?_)
  refine Leads.bind (header_covers exprs _ _ behind) fun init r isRest onInit => Leads.require ?_
  have start := Clear.append_touch
    (.none ascends (s.passed.passed_isRest.trans s.passed_isRest)) onInit isRest behind
  have inside := (behind.rest isRest).rest r.passed_isRest
  refine Leads.bind (header_covers exprs _ _ inside) fun cond r' isRest' onCond => Leads.require ?_
  have second := start.append_touch onCond isRest' inside
  have within := (inside.rest isRest').rest r'.passed_isRest
  refine Leads.bind (header_covers exprs _ _ within) fun next last isRest'' onNext => ?_
  have third := second.append_touch onNext isRest'' within
  have further := (within.rest isRest'').rest last.passed_isRest
  refine Leads.require (Leads.bind (stmts _ further) fun body _ isLast onBody => Leads.pure ?_)
  have whole := third.append onBody isLast
  rw [List.nil_append, List.append_assoc, List.append_assoc] at whole
  rwa [Stmt.places_forLoop]

theorem clause_clears : Clears inner.clause Stmt.places := by
  intro s ascends
  refine Leads.position (Leads.bind (label_clears exprs ascends) fun label r isRest onLabel => ?_)
  have further := (ascends.rest isRest).rest r.passed_isRest
  refine Leads.require (Leads.bind (stmts.manyWhile _ _ further) fun body last isRest' onBody => ?_)
  refine Leads.pure ?_
  rw [Stmt.places_clause]
  exact onLabel.append onBody isRest'

theorem clause?_clears : Clears inner.clause? (·.toList.flatMap Stmt.places) := by
  intro s ascends
  have clause : Leads (some <$> inner.clause) s fun found r =>
      Clear s.offset (found.toList.flatMap Stmt.places) r := by
    refine Leads.map ((clause_clears exprs stmts s ascends).mono fun clause r own => ?_)
    rwa [Option.toList_some, List.flatMap_singleton]
  refine Leads.peekKind ?_
  split
  · exact clause
  · exact clause
  · exact Leads.missing (Leads.advance (Leads.pure (.none ascends s.passed_isRest)))

theorem switch_clears {s : Stream} (ascends : s.Ascends) :
    Leads (inner.switch s.token.pos) s fun stmt r => Clear s.offset stmt.places r := by
  have first := (Touch.here ascends (.refl s)).clears ascends
  have further := ascends.rest s.passed_isRest
  refine Leads.require (Leads.bind (condition_clears exprs _ further) fun subject r isRest own => ?_)
  have inside := (further.rest isRest)
  have clauses := (clause?_clears exprs stmts).manyWhile (· ≠ .rBrace) _
    (inside.rest r.passed_isRest)
  refine Leads.require (Leads.bind clauses fun found last isRest' onClauses => ?_)
  refine Leads.require (Leads.pure ?_)
  have kept : (found.filterMap id).flatMap Stmt.places =
      found.flatMap (·.toList.flatMap Stmt.places) := by
    rw [List.filterMap_eq_flatMap_toList, List.flatMap_assoc]
    rfl
  rw [Stmt.places_switch, kept]
  have before := ((first.append own isRest).rest inside r.passed_isRest).append onClauses isRest'
  rw [List.append_assoc] at before
  exact before.rest ((inside.rest r.passed_isRest).rest isRest') last.passed_isRest

end Both

include exprs unbraced stmts

theorem declStmt_clears (pos : Position) : Clears (inner.declStmt pos) Stmt.places := by
  intro s ascends
  refine Leads.bind (declaration_covers exprs unbraced stmts false ascends) ?_
  intro decl r isRest both
  refine Leads.pure ?_
  cases decl with
  | vars _ v => exact both.2
  | _ => exact Clear.none ascends isRest

theorem any_clears : Clears inner.any Stmt.places := by
  intro s ascends
  refine Leads.peek ?_
  dsimp only
  split
  case h_1 | h_2 | h_3 | h_4 => exact declStmt_clears exprs unbraced stmts _ s ascends
  case h_5 | h_6 | h_7 | h_8 | h_9 | h_10 | h_11 | h_12 => exact simpleStmt_clears exprs s ascends
  case h_13 => exact branch_clears exprs stmts _ s ascends
  case h_14 => exact whileLoop_clears exprs stmts _ s ascends
  case h_15 => exact forLoop_clears exprs stmts _ s ascends
  case h_16 => exact switch_clears exprs stmts ascends
  case h_17 => exact block_clears stmts _ s ascends
  case h_18 => exact print_clears exprs ascends
  case h_19 => exact scan_clears exprs _ s ascends
  case h_20 => exact ret_clears exprs ascends
  case h_21 => exact Leads.advance (Leads.pure (.none ascends s.passed_isRest))
  case h_22 | h_23 => exact Leads.missing (Leads.pure (.none ascends (.refl s)))
  case h_24 => exact Leads.missing (Leads.advance (Leads.pure (.none ascends s.passed_isRest)))

end StmtContext

theorem statement_clears (levels : Nat) : Clears (statement levels) Stmt.places := by
  induction levels with
  | zero =>
    intro s ascends
    refine Leads.position (Leads.bind (P := fun _ _ => True) trivial fun _ r isRest _ => ?_)
    exact Leads.pure (.none ascends isRest)
  | succ levels ih =>
    exact StmtContext.any_clears (expression_covers levels) (expression_unbraced levels) ih

theorem fileParser_covers (name : String) (lineCount : Nat) :
    Covers (fileParser name lineCount) File.places := by
  intro s ascends
  have loop : Leads (manyWhile (fun _ => true) topLevelDecl) s fun decls r =>
      (r.Ascends ∧ Touch s.offset (decls.flatMap Decl.places) r ∧
        Clear s.offset (decls.flatMap Decl.places) r) ∧ takes (fun _ => true) r = false := by
    refine Leads.manyWhile (fun decls r kept taken => ?_)
      ⟨ascends, .none ascends (.refl s), .none ascends (.refl s)⟩
    obtain ⟨further, -, clear⟩ := kept
    have behind := clear (Stream.upcoming_of_remaining (remaining_pos_of_takes taken))
    have decl := declaration_covers (expression_covers maxNesting) (expression_unbraced maxNesting)
      (statement_clears maxNesting) true further
    have round : Leads topLevelDecl r fun decl later => later.Ascends ∧
        Touch s.offset ((decls ++ [decl]).flatMap Decl.places) later ∧
        Clear s.offset ((decls ++ [decl]).flatMap Decl.places) later := by
      refine Leads.mono_rest decl fun decl later isRest own => ⟨further.rest isRest, ?_⟩
      rw [List.flatMap_append, List.flatMap_singleton]
      exact ⟨behind.append own.1, clear.append own.2 isRest⟩
    refine Leads.moving round fun decl later kept => ?_
    have onward := later.passed_isRest
    exact ⟨kept.1.rest onward, kept.2.1.rest kept.1 onward, kept.2.2.rest kept.1 onward⟩
  refine Leads.bind loop fun decls r _ kept => Leads.remark (Leads.pure ?_)
  rw [File.places_eq]
  exact kept.1.2.1

end MiniC
