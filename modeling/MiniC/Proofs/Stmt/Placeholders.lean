import MiniC.Proofs.Stmt.Ascends
import MiniC.Proofs.Stmt.Expressions

/-!
Bad expressions have sites. In a file that has its shape every expression that
could not be read stands at a site of the file, however deep it is in an
expression, in a composite literal or in a statement.
-/

namespace MiniC

namespace Expr

/-- All that is bad in an expression stands at these places. -/
def HasBadsIn (e : Expr) (places : List Position) : Prop := ∀ p, bad p ∈ e.parts → p ∈ places

theorem HasBadsIn.mono {e : Expr} {left right : List Position} (has : e.HasBadsIn left)
    (within : left ⊆ right) : e.HasBadsIn right :=
  fun p member => within (has p member)

/-- What is not bad itself has all that is bad in its parts. -/
theorem bad_of_cons {p : Position} {e : Expr} {parts : List Expr} (other : bad p ≠ e)
    (member : bad p ∈ e :: parts) : bad p ∈ parts :=
  (List.mem_cons.mp member).resolve_left other

mutual

theorem IsUnbraced.hasBads : (e : Expr) → e.IsUnbraced → e.HasBadsIn e.places
  | bad _, _ => fun p member => by
    cases List.mem_singleton.mp member
    exact List.mem_cons_self
  | ident _ _, _ | lit _ _ _, _ => fun p member => by cases List.mem_singleton.mp member
  | paren pos inner, unbraced => fun p member => by
    have inside := bad_of_cons (e := paren pos inner) nofun member
    exact List.mem_cons_of_mem _ (IsUnbraced.hasBads inner unbraced p inside)
  | unary pos sign operand, unbraced => fun p member => by
    have inside := bad_of_cons (e := unary pos sign operand) nofun member
    exact List.mem_cons_of_mem _ (IsUnbraced.hasBads operand unbraced p inside)
  | index pos base subscript, ⟨onBase, onSubscript⟩ => fun p member => by
    have inside := bad_of_cons (e := index pos base subscript) nofun member
    rw [places_index]
    exact List.mem_append.mpr ((List.mem_append.mp inside).imp
      (IsUnbraced.hasBads base onBase p) (IsUnbraced.hasBads subscript onSubscript p))
  | binary pos op left right, ⟨onLeft, onRight⟩ => fun p member => by
    have inside := bad_of_cons (e := binary pos op left right) nofun member
    rw [places_binary]
    exact List.mem_append.mpr ((List.mem_append.mp inside).imp
      (IsUnbraced.hasBads left onLeft p) (IsUnbraced.hasBads right onRight p))
  | call pos callee args, ⟨onCallee, onArgs⟩ => fun p member => by
    have inside := bad_of_cons (e := call pos callee args) nofun member
    rw [places_call]
    exact List.mem_append.mpr ((List.mem_append.mp inside).imp
      (IsUnbraced.hasBads callee onCallee p) (AllUnbraced.hasBads args onArgs p))

theorem AllUnbraced.hasBads : (es : List Expr) → AllUnbraced es →
    ∀ p, bad p ∈ partsOfAll es → p ∈ es.flatMap places
  | [], _ => nofun
  | e :: rest, ⟨here, later⟩ => fun p member =>
    List.mem_append.mpr ((List.mem_append.mp member).imp
      (IsUnbraced.hasBads e here p) (AllUnbraced.hasBads rest later p))

end

mutual

theorem IsBracedItem.hasBads : (e : Expr) → e.IsBracedItem → e.HasBadsIn e.itemPlaces
  | composite pos items, onItems => fun p member => by
    have inside := bad_of_cons (e := composite pos items) nofun member
    exact List.mem_cons_of_mem _ (AllBracedItems.hasBads items onItems p inside)
  | bad pos, _ => IsUnbraced.hasBads (bad pos) trivial
  | ident pos name, _ => IsUnbraced.hasBads (ident pos name) trivial
  | lit pos kind text, _ => IsUnbraced.hasBads (lit pos kind text) trivial
  | unary pos sign operand, isSigned => by
    refine IsUnbraced.hasBads (unary pos sign operand) ?_
    cases operand with
    | bad | ident | lit => trivial
    | _ => exact isSigned.elim

theorem AllBracedItems.hasBads : (es : List Expr) → AllBracedItems es →
    ∀ p, bad p ∈ partsOfAll es → p ∈ (itemSitesOfAll es).map (·.pos)
  | [], _ => nofun
  | e :: rest, ⟨here, later⟩ => fun p member => by
    rw [itemSitesOfAll, List.map_append]
    exact List.mem_append.mpr ((List.mem_append.mp member).imp
      (IsBracedItem.hasBads e here p) (AllBracedItems.hasBads rest later p))

end

theorem IsInitial.hasBads {e : Expr} (initial : e.IsInitial) : e.HasBadsIn e.itemPlaces := by
  cases e with
  | composite pos items => exact IsBracedItem.hasBads (.composite pos items) initial
  | _ => exact IsUnbraced.hasBads _ initial

end Expr

/-- The bad expressions among some expressions stand at these places. -/
def HaveBadsIn (es : List Expr) (places : List Position) : Prop := ∀ e ∈ es, e.HasBadsIn places

namespace HaveBadsIn

variable {left right : List Expr} {before behind : List Position}

theorem append (first : HaveBadsIn left before) (second : HaveBadsIn right behind) :
    HaveBadsIn (left ++ right) (before ++ behind) :=
  List.forall_mem_append.mpr
    ⟨fun e member => (first e member).mono (List.subset_append_left _ _),
      fun e member => (second e member).mono (List.subset_append_right _ _)⟩

theorem skip {p : Position} (later : HaveBadsIn left before) : HaveBadsIn left (p :: before) :=
  fun e member => (later e member).mono (List.subset_cons_self _ _)

theorem flatMap {α : Type} {as : List α} {exprs : α → List Expr} {places : α → List Position}
    (each : ∀ a ∈ as, HaveBadsIn (exprs a) (places a)) :
    HaveBadsIn (as.flatMap exprs) (as.flatMap places) :=
  List.forall_mem_flatMap.mpr fun a isPart e member => (each a isPart e member).mono
    fun _ place => List.mem_flatMap_of_mem isPart place

theorem single {e : Expr} (unbraced : e.IsUnbraced) : HaveBadsIn [e] e.places :=
  List.forall_mem_singleton.mpr (Expr.IsUnbraced.hasBads e unbraced)

theorem all {es : List Expr} (unbraced : ∀ e ∈ es, e.IsUnbraced) :
    HaveBadsIn es (es.flatMap Expr.places) :=
  fun e member => (Expr.IsUnbraced.hasBads e (unbraced e member)).mono fun _ place =>
    List.mem_flatMap_of_mem member place

end HaveBadsIn

theorem VarDecl.IsShaped.haveBads {v : VarDecl} (shaped : v.IsShaped Expr.IsInitial) :
    HaveBadsIn v.exprs v.places := by
  refine HaveBadsIn.flatMap fun d isDeclarator => HaveBadsIn.skip fun e member => ?_
  have initial := shaped.initials d isDeclarator e (Option.mem_toList.mp member)
  exact initial.hasBads.mono fun _ place => List.mem_flatMap_of_mem member place

namespace Simple

theorem IsShaped.haveBads {s : Simple} (shaped : s.IsShaped Expr.IsUnbraced) :
    HaveBadsIn s.exprs s.places := by
  cases s with
  | expr pos e => exact .single shaped.2
  | assign pos target value =>
    obtain ⟨_, onTarget, onValue⟩ := shaped
    exact HaveBadsIn.append (.single onTarget) (.single onValue)

theorem headers_haveBads {header : Option Simple}
    (shaped : ∀ s ∈ header, s.IsShaped Expr.IsUnbraced) :
    HaveBadsIn (headerExprs header) (header.toList.flatMap places) :=
  .flatMap fun s member => (shaped s (Option.mem_toList.mp member)).haveBads

end Simple

namespace Stmt

mutual

theorem IsShaped.haveBads :
    (s : Stmt) → s.IsShaped Expr.IsUnbraced Expr.IsInitial → HaveBadsIn s.exprs s.places
  | bad _, _ | empty _, _ | decl _ none, _ => nofun
  | decl _ (some _), shaped => places_decl _ _ ▸ VarDecl.IsShaped.haveBads shaped
  | simple _, shaped => places_simple _ ▸ Simple.IsShaped.haveBads shaped
  | ret _ _, unbraced => places_ret _ _ ▸ .skip (.all (toList_of_mem unbraced))
  | block _ body, shaped => places_block _ _ ▸ AllShaped.haveBads body shaped
  | branch _ cond yes none, ⟨onCond, onYes⟩ => by
    rw [places_branch, Option.toList_none, List.flatMap_nil, List.append_nil]
    exact HaveBadsIn.append (.single onCond) (IsShaped.haveBads yes onYes)
  | branch _ cond yes (some no), ⟨onCond, onYes, onNo⟩ => by
    rw [places_branch, Option.toList_some, List.flatMap_singleton]
    exact HaveBadsIn.append (.single onCond)
      (.append (IsShaped.haveBads yes onYes) (IsShaped.haveBads no onNo))
  | switch _ subject clauses, ⟨onSubject, onClauses⟩ => by
    rw [places_switch]
    exact .skip (.append (.single onSubject) (AreShapedClauses.haveBads clauses onClauses))
  | forLoop _ _ _ _ body, ⟨onStart, onCond, onNext, onBody⟩ => by
    rw [places_forLoop]
    exact .append (Simple.headers_haveBads onStart) (.append (Simple.headers_haveBads onCond)
      (.append (Simple.headers_haveBads onNext) (IsShaped.haveBads body onBody)))
  | whileLoop _ cond body, ⟨onCond, onBody⟩ => by
    rw [places_whileLoop]
    exact HaveBadsIn.append (.single onCond) (IsShaped.haveBads body onBody)
  | scan _ _, unbraced => places_scan _ _ ▸ .single unbraced
  | print _ args, unbraced => places_print _ _ ▸ .skip (.all unbraced)

theorem AllShaped.haveBads : (stmts : List Stmt) → AllShaped Expr.IsUnbraced Expr.IsInitial stmts →
    HaveBadsIn (exprsOfAll stmts) (stmts.flatMap places)
  | [], _ => nofun
  | s :: rest, ⟨here, later⟩ => .append (IsShaped.haveBads s here) (AllShaped.haveBads rest later)

theorem AreShapedClauses.haveBads :
    (clauses : List Stmt) → AreShapedClauses Expr.IsUnbraced Expr.IsInitial clauses →
      HaveBadsIn (exprsOfAll clauses) (clauses.flatMap places)
  | [], _ => nofun
  | clause _ label body :: rest, ⟨onLabel, onBody, later⟩ => by
    rw [List.flatMap_cons, places_clause]
    exact .append (.skip (.append (.all (toList_of_mem onLabel)) (AllShaped.haveBads body onBody)))
      (AreShapedClauses.haveBads rest later)

end

end Stmt

theorem File.IsShaped.haveBads {file : File} (shaped : file.IsShaped Expr.IsUnbraced Expr.IsInitial) :
    HaveBadsIn file.exprs file.places := by
  rw [File.places_eq]
  refine .flatMap fun decl isDecl => ?_
  have here := shaped decl isDecl
  cases decl with
  | bad => exact nofun
  | func pos f =>
    have places : (Decl.func pos f).places = f.places := f.sites_pos
    rw [places]
    have body := Stmt.AllShaped.haveBads f.body here.body
    exact .skip fun e member => (body e member).mono (List.subset_append_right _ _)
  | vars pos v =>
    have places : (Decl.vars pos v).places = v.places := v.sites_pos
    rw [places]
    exact VarDecl.IsShaped.haveBads here

end MiniC
