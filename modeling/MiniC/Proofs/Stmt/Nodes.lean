import Mathlib.Data.List.Flatten
import MiniC.Proofs.Expr.Ascends
import MiniC.Proofs.Stmt.Ascends
import MiniC.Proofs.Syntax.CheckHeight
import MiniC.Proofs.Syntax.Shaped

/-!
The nodes of a file are all different. Where operations stand their first operands do,
too, so nodes share places; but of two nodes at one place one is in the other, as long
as everything else has a place of its own. In a file that has its shape these places
are among the places of the file, in the same order and each once.
-/

namespace MiniC

namespace Expr

mutual

/-- The places of an expression and of all in it, but of no operation: that stands
where its first operand does. -/
def anchors : Expr → List Position
  | bad pos | ident pos _ | lit pos _ _ => [pos]
  | composite pos items => pos :: anchorsOfAll items
  | paren pos inner => pos :: inner.anchors
  | index _ base subscript => base.anchors ++ subscript.anchors
  | call _ callee args => callee.anchors ++ anchorsOfAll args
  | unary pos _ operand => pos :: operand.anchors
  | binary _ _ left right => left.anchors ++ right.anchors

def anchorsOfAll : List Expr → List Position
  | [] => []
  | e :: rest => e.anchors ++ anchorsOfAll rest

end

/-- Where a name stands. -/
def namePlace? : Expr → Option Position
  | ident pos _ => some pos
  | _ => none

theorem anchorsOfAll_eq (es : List Expr) : anchorsOfAll es = es.flatMap anchors := by
  induction es with
  | nil => rfl
  | cons e rest ih => rw [anchorsOfAll, ih, List.flatMap_cons]

section Places

mutual

theorem IsUnbraced.anchors : (e : Expr) → e.IsUnbraced → e.anchors = e.places
  | bad _, _ | ident _ _, _ | lit _ _ _, _ => rfl
  | paren pos inner, unbraced => congrArg (pos :: ·) (IsUnbraced.anchors inner unbraced)
  | unary pos _ operand, unbraced => congrArg (pos :: ·) (IsUnbraced.anchors operand unbraced)
  | index _ base subscript, ⟨onBase, onSubscript⟩ => by
    rw [Expr.anchors, places_index, IsUnbraced.anchors base onBase,
      IsUnbraced.anchors subscript onSubscript]
  | call _ callee args, ⟨onCallee, onArgs⟩ => by
    rw [Expr.anchors, places_call, IsUnbraced.anchors callee onCallee,
      AllUnbraced.anchors args onArgs]
  | binary _ _ left right, ⟨onLeft, onRight⟩ => by
    rw [Expr.anchors, places_binary, IsUnbraced.anchors left onLeft,
      IsUnbraced.anchors right onRight]

theorem AllUnbraced.anchors :
    (es : List Expr) → AllUnbraced es → anchorsOfAll es = es.flatMap places
  | [], _ => rfl
  | e :: rest, ⟨here, later⟩ => by
    rw [anchorsOfAll, List.flatMap_cons, IsUnbraced.anchors e here, AllUnbraced.anchors rest later]

end

mutual

theorem IsBracedItem.anchors : (e : Expr) → e.IsBracedItem → e.anchors = e.itemPlaces
  | composite pos items, onItems => congrArg (pos :: ·) (AllBracedItems.anchors items onItems)
  | bad _, _ | ident _ _, _ | lit _ _ _, _ => rfl
  | unary pos sign operand, isSigned => by
    refine IsUnbraced.anchors (unary pos sign operand) ?_
    cases operand with
    | bad | ident | lit => trivial
    | _ => exact isSigned.elim

theorem AllBracedItems.anchors : (es : List Expr) → AllBracedItems es →
    anchorsOfAll es = (itemSitesOfAll es).map (·.pos)
  | [], _ => rfl
  | e :: rest, ⟨here, later⟩ => by
    rw [anchorsOfAll, itemSitesOfAll, List.map_append, IsBracedItem.anchors e here,
      AllBracedItems.anchors rest later, itemPlaces]

end

theorem IsInitial.anchors {e : Expr} (initial : e.IsInitial) : e.anchors = e.itemPlaces := by
  cases e with
  | composite pos items => exact IsBracedItem.anchors (.composite pos items) initial
  | _ => exact IsUnbraced.anchors _ initial

end Places

section Parts

mutual

/-- Every part of an expression is at one of its anchors. -/
theorem pos_of_mem_parts : (e : Expr) → e.IsRooted → ∀ part ∈ e.parts, part.pos ∈ e.anchors
  | bad _, _ | ident _ _, _ | lit _ _ _, _ =>
    List.forall_mem_singleton.mpr List.mem_cons_self
  | composite _ items, rooted => List.forall_mem_cons.mpr
    ⟨List.mem_cons_self, fun part member =>
      List.mem_cons_of_mem _ (pos_of_mem_partsOfAll items rooted part member)⟩
  | paren _ inner, rooted => List.forall_mem_cons.mpr
    ⟨List.mem_cons_self, fun part member =>
      List.mem_cons_of_mem _ (pos_of_mem_parts inner rooted part member)⟩
  | unary _ _ operand, rooted => List.forall_mem_cons.mpr
    ⟨List.mem_cons_self, fun part member =>
      List.mem_cons_of_mem _ (pos_of_mem_parts operand rooted part member)⟩
  | index _ base subscript, ⟨root, onBase, onSubscript⟩ =>
    have inBase := pos_of_mem_parts base onBase
    List.forall_mem_cons.mpr ⟨root ▸ List.mem_append_left _ (inBase base base.mem_parts),
      List.forall_mem_append.mpr
        ⟨fun part member => List.mem_append_left _ (inBase part member), fun part member =>
          List.mem_append_right _ (pos_of_mem_parts subscript onSubscript part member)⟩⟩
  | call _ callee args, ⟨root, onCallee, onArgs⟩ =>
    have inCallee := pos_of_mem_parts callee onCallee
    List.forall_mem_cons.mpr ⟨root ▸ List.mem_append_left _ (inCallee callee callee.mem_parts),
      List.forall_mem_append.mpr
        ⟨fun part member => List.mem_append_left _ (inCallee part member), fun part member =>
          List.mem_append_right _ (pos_of_mem_partsOfAll args onArgs part member)⟩⟩
  | binary _ _ left right, ⟨root, onLeft, onRight⟩ =>
    have inLeft := pos_of_mem_parts left onLeft
    List.forall_mem_cons.mpr ⟨root ▸ List.mem_append_left _ (inLeft left left.mem_parts),
      List.forall_mem_append.mpr
        ⟨fun part member => List.mem_append_left _ (inLeft part member), fun part member =>
          List.mem_append_right _ (pos_of_mem_parts right onRight part member)⟩⟩

theorem pos_of_mem_partsOfAll :
    (es : List Expr) → AllRooted es → ∀ part ∈ partsOfAll es, part.pos ∈ anchorsOfAll es
  | [], _ => nofun
  | e :: rest, ⟨here, later⟩ => List.forall_mem_append.mpr
    ⟨fun part member => List.mem_append_left _ (pos_of_mem_parts e here part member),
      fun part member => List.mem_append_right _ (pos_of_mem_partsOfAll rest later part member)⟩

end

/-- With an expression stands all that is in it. -/
def AreClosed (es : List Expr) : Prop := ∀ part ∈ es, part.parts.Sublist es

namespace AreClosed

variable {whole : Expr} {inner left right : List Expr}

theorem append (before : AreClosed left) (behind : AreClosed right) : AreClosed (left ++ right) :=
  List.forall_mem_append.mpr
    ⟨fun part member => (before part member).trans (List.sublist_append_left _ _),
      fun part member => (behind part member).trans (List.sublist_append_right _ _)⟩

theorem withWhole (closed : AreClosed inner) (same : whole.parts = whole :: inner) :
    AreClosed (whole :: inner) :=
  List.forall_mem_cons.mpr
    ⟨same ▸ List.Sublist.refl _, fun part member => (closed part member).cons whole⟩

/-- Nothing is in itself. -/
theorem not_mem (closed : AreClosed inner) (same : whole.parts = whole :: inner) :
    whole ∉ inner := by
  intro member
  have within := (closed whole member).length_le
  rw [same, List.length_cons] at within
  omega

end AreClosed

mutual

theorem parts_closed : (e : Expr) → AreClosed e.parts
  | bad _ | ident _ _ | lit _ _ _ => .withWhole (List.forall_mem_nil _) rfl
  | composite _ items => .withWhole (partsOfAll_closed items) rfl
  | paren _ inner => .withWhole (parts_closed inner) rfl
  | unary _ _ operand => .withWhole (parts_closed operand) rfl
  | index _ base subscript => .withWhole (.append (parts_closed base) (parts_closed subscript)) rfl
  | call _ callee args => .withWhole (.append (parts_closed callee) (partsOfAll_closed args)) rfl
  | binary _ _ left right => .withWhole (.append (parts_closed left) (parts_closed right)) rfl

theorem partsOfAll_closed : (es : List Expr) → AreClosed (partsOfAll es)
  | [] => List.forall_mem_nil _
  | e :: rest => .append (parts_closed e) (partsOfAll_closed rest)

end

/-- Parts that stand apart are different. -/
theorem nodup_append {left right : List Expr} {before behind : List Position}
    (apart : (before ++ behind).Nodup) (onLeft : ∀ e ∈ left, e.pos ∈ before)
    (onRight : ∀ e ∈ right, e.pos ∈ behind) (isLeft : before.Nodup → left.Nodup)
    (isRight : behind.Nodup → right.Nodup) : (left ++ right).Nodup := by
  obtain ⟨ofBefore, ofBehind, others⟩ := List.nodup_append.mp apart
  refine List.nodup_append.mpr ⟨isLeft ofBefore, isRight ofBehind, ?_⟩
  rintro e inLeft _ inRight rfl
  exact others e.pos (onLeft e inLeft) e.pos (onRight e inRight) rfl

theorem nodup_whole {whole : Expr} {inner : List Expr} (closed : AreClosed inner)
    (same : whole.parts = whole :: inner) (nodup : inner.Nodup) : whole.parts.Nodup :=
  same ▸ List.nodup_cons.mpr ⟨closed.not_mem same, nodup⟩

mutual

/-- If the anchors of an expression are different, so are its parts. -/
theorem parts_nodup : (e : Expr) → e.IsRooted → e.anchors.Nodup → e.parts.Nodup
  | bad _, _, _ | ident _ _, _, _ | lit _ _ _, _, _ => List.nodup_singleton _
  | composite _ items, rooted, apart =>
    nodup_whole (partsOfAll_closed items) rfl (partsOfAll_nodup items rooted apart.of_cons)
  | paren _ inner, rooted, apart =>
    nodup_whole (parts_closed inner) rfl (parts_nodup inner rooted apart.of_cons)
  | unary _ _ operand, rooted, apart =>
    nodup_whole (parts_closed operand) rfl (parts_nodup operand rooted apart.of_cons)
  | index _ base subscript, ⟨_, onBase, onSubscript⟩, apart =>
    nodup_whole (.append (parts_closed base) (parts_closed subscript)) rfl <|
      nodup_append apart (pos_of_mem_parts base onBase) (pos_of_mem_parts subscript onSubscript)
        (parts_nodup base onBase) (parts_nodup subscript onSubscript)
  | call _ callee args, ⟨_, onCallee, onArgs⟩, apart =>
    nodup_whole (.append (parts_closed callee) (partsOfAll_closed args)) rfl <|
      nodup_append apart (pos_of_mem_parts callee onCallee) (pos_of_mem_partsOfAll args onArgs)
        (parts_nodup callee onCallee) (partsOfAll_nodup args onArgs)
  | binary _ _ left right, ⟨_, onLeft, onRight⟩, apart =>
    nodup_whole (.append (parts_closed left) (parts_closed right)) rfl <|
      nodup_append apart (pos_of_mem_parts left onLeft) (pos_of_mem_parts right onRight)
        (parts_nodup left onLeft) (parts_nodup right onRight)

theorem partsOfAll_nodup :
    (es : List Expr) → AllRooted es → (anchorsOfAll es).Nodup → (partsOfAll es).Nodup
  | [], _, _ => List.nodup_nil
  | e :: rest, ⟨here, later⟩, apart =>
    nodup_append apart (pos_of_mem_parts e here) (pos_of_mem_partsOfAll rest later)
      (parts_nodup e here) (partsOfAll_nodup rest later)

end

mutual

/-- Every name has an anchor of its own. -/
theorem namePlaces_sublist : (e : Expr) → (e.parts.filterMap namePlace?).Sublist e.anchors
  | bad pos | lit pos _ _ => List.nil_sublist [pos]
  | ident pos _ => List.Sublist.refl [pos]
  | composite pos items => (namePlacesOfAll_sublist items).cons pos
  | paren pos inner => (namePlaces_sublist inner).cons pos
  | unary pos _ operand => (namePlaces_sublist operand).cons pos
  | index _ base subscript => by
    change ((base.parts ++ subscript.parts).filterMap namePlace?).Sublist _
    rw [List.filterMap_append]
    exact (namePlaces_sublist base).append (namePlaces_sublist subscript)
  | call _ callee args => by
    change ((callee.parts ++ partsOfAll args).filterMap namePlace?).Sublist _
    rw [List.filterMap_append]
    exact (namePlaces_sublist callee).append (namePlacesOfAll_sublist args)
  | binary _ _ left right => by
    change ((left.parts ++ right.parts).filterMap namePlace?).Sublist _
    rw [List.filterMap_append]
    exact (namePlaces_sublist left).append (namePlaces_sublist right)

theorem namePlacesOfAll_sublist :
    (es : List Expr) → ((partsOfAll es).filterMap namePlace?).Sublist (anchorsOfAll es)
  | [] => List.Sublist.refl []
  | e :: rest => by
    rw [partsOfAll, List.filterMap_append]
    exact (namePlaces_sublist e).append (namePlacesOfAll_sublist rest)

end

end Parts

end Expr

open MiniC.Expr (anchorsOfAll IsUnbraced IsInitial)

theorem Expr.anchorsOfAll_append (left right : List Expr) :
    anchorsOfAll (left ++ right) = anchorsOfAll left ++ anchorsOfAll right := by
  rw [anchorsOfAll_eq, anchorsOfAll_eq, anchorsOfAll_eq, List.flatMap_append]

theorem Expr.anchorsOfAll_unbraced {es : List Expr} (unbraced : ∀ e ∈ es, e.IsUnbraced) :
    anchorsOfAll es = es.flatMap places :=
  AllUnbraced.anchors es ((allUnbraced_iff es).mpr unbraced)

/-- The anchors of an optional value. -/
theorem Expr.anchorsOfAll_value {value : Option Expr} (unbraced : ∀ e ∈ value, e.IsUnbraced) :
    anchorsOfAll value.toList = value.toList.flatMap places :=
  anchorsOfAll_unbraced fun e member => unbraced e (Option.mem_toList.mp member)

theorem VarDecl.IsShaped.anchors {v : VarDecl} (shaped : v.IsShaped IsInitial) :
    (anchorsOfAll v.exprs).Sublist v.places := by
  rw [Expr.anchorsOfAll_eq, exprs, List.flatMap_assoc]
  refine List.Sublist.flatMap_right _ fun d isDeclarator => List.Sublist.cons _ ?_
  refine List.Sublist.flatMap_right _ fun e isInit => ?_
  rw [(shaped.initials d isDeclarator e (Option.mem_toList.mp isInit)).anchors]

namespace Simple

theorem IsShaped.anchors {s : Simple} (shaped : s.IsShaped IsUnbraced) :
    anchorsOfAll s.exprs = s.places := by
  cases s with
  | expr pos e => exact (List.append_nil _).trans (IsUnbraced.anchors e shaped.2)
  | assign pos target value =>
    obtain ⟨_, onTarget, onValue⟩ := shaped
    exact congrArg₂ (· ++ ·) (IsUnbraced.anchors target onTarget)
      ((List.append_nil _).trans (IsUnbraced.anchors value onValue))

theorem anchors_header {header : Option Simple} (shaped : ∀ s ∈ header, s.IsShaped IsUnbraced) :
    anchorsOfAll (headerExprs header) = header.toList.flatMap places := by
  cases header with
  | none => rfl
  | some s =>
    rw [headerExprs, Option.toList_some, List.flatMap_singleton, List.flatMap_singleton,
      (shaped s rfl).anchors]

end Simple

namespace Stmt

mutual

theorem IsShaped.anchors :
    (s : Stmt) → s.IsShaped IsUnbraced IsInitial → (anchorsOfAll s.exprs).Sublist s.places
  | bad _, _ | empty _, _ | decl _ none, _ => List.nil_sublist _
  | decl pos (some v), shaped => places_decl pos v ▸ VarDecl.IsShaped.anchors shaped
  | simple s, shaped => places_simple s ▸ Simple.IsShaped.anchors shaped ▸ List.Sublist.refl _
  | ret pos value, unbraced => by
    rw [places_ret, exprs, Expr.anchorsOfAll_value unbraced]
    exact List.sublist_cons_self _ _
  | block pos body, shaped => places_block pos body ▸ AllShaped.anchors body shaped
  | branch pos cond yes none, ⟨onCond, onYes⟩ => by
    rw [places_branch, Option.toList_none, List.flatMap_nil, List.append_nil, exprs, anchorsOfAll,
      IsUnbraced.anchors cond onCond]
    exact (List.Sublist.refl _).append (IsShaped.anchors yes onYes)
  | branch pos cond yes (some no), ⟨onCond, onYes, onNo⟩ => by
    rw [places_branch, Option.toList_some, List.flatMap_singleton, exprs, anchorsOfAll,
      Expr.anchorsOfAll_append, IsUnbraced.anchors cond onCond]
    have branches := (IsShaped.anchors yes onYes).append (IsShaped.anchors no onNo)
    exact (List.Sublist.refl _).append branches
  | switch pos subject clauses, ⟨onSubject, onClauses⟩ => by
    rw [places_switch, exprs, anchorsOfAll, IsUnbraced.anchors subject onSubject]
    exact ((List.Sublist.refl _).append (AreShapedClauses.anchors clauses onClauses)).cons pos
  | forLoop pos init cond next body, ⟨onInit, onCond, onNext, onBody⟩ => by
    rw [places_forLoop, exprs, Expr.anchorsOfAll_append, Expr.anchorsOfAll_append,
      Expr.anchorsOfAll_append, Simple.anchors_header onInit, Simple.anchors_header onCond,
      Simple.anchors_header onNext]
    exact (List.Sublist.refl _).append <| (List.Sublist.refl _).append <|
      (List.Sublist.refl _).append (IsShaped.anchors body onBody)
  | whileLoop pos cond body, ⟨onCond, onBody⟩ => by
    rw [places_whileLoop, exprs, anchorsOfAll, IsUnbraced.anchors cond onCond]
    exact (List.Sublist.refl _).append (IsShaped.anchors body onBody)
  | scan pos target, unbraced => by
    rw [places_scan, exprs, anchorsOfAll, anchorsOfAll, List.append_nil,
      IsUnbraced.anchors target unbraced]
  | print pos args, unbraced => by
    rw [places_print, exprs, Expr.anchorsOfAll_unbraced unbraced]
    exact List.sublist_cons_self _ _

theorem AllShaped.anchors : (stmts : List Stmt) → AllShaped IsUnbraced IsInitial stmts →
    (anchorsOfAll (exprsOfAll stmts)).Sublist (stmts.flatMap places)
  | [], _ => List.nil_sublist _
  | s :: rest, ⟨here, later⟩ => by
    rw [exprsOfAll, Expr.anchorsOfAll_append, List.flatMap_cons]
    exact (IsShaped.anchors s here).append (AllShaped.anchors rest later)

theorem AreShapedClauses.anchors : (clauses : List Stmt) →
    AreShapedClauses IsUnbraced IsInitial clauses →
    (anchorsOfAll (exprsOfAll clauses)).Sublist (clauses.flatMap places)
  | [], _ => List.nil_sublist _
  | clause pos label body :: rest, ⟨onLabel, onBody, later⟩ => by
    rw [exprsOfAll, Expr.anchorsOfAll_append, List.flatMap_cons, exprs, Expr.anchorsOfAll_append,
      places_clause, Expr.anchorsOfAll_value onLabel]
    exact (((List.Sublist.refl _).append (AllShaped.anchors body onBody)).cons pos).append
      (AreShapedClauses.anchors rest later)

end

end Stmt

theorem File.IsShaped.anchors {file : File} (shaped : file.IsShaped IsUnbraced IsInitial) :
    (anchorsOfAll file.exprs).Sublist file.places := by
  rw [File.places_eq, Expr.anchorsOfAll_eq, File.exprs, List.flatMap_assoc]
  refine List.Sublist.flatMap_right _ fun decl isDecl => ?_
  rw [← Expr.anchorsOfAll_eq]
  have here := shaped decl isDecl
  cases decl with
  | bad => exact List.nil_sublist _
  | func pos f =>
    have same : (Decl.func pos f).places = f.places := f.sites_pos
    rw [same]
    exact ((Stmt.AllShaped.anchors f.body here.body).trans (List.sublist_append_right _ _)).cons _
  | vars pos v =>
    have same : (Decl.vars pos v).places = v.places := v.sites_pos
    rw [same]
    exact VarDecl.IsShaped.anchors here

end MiniC
