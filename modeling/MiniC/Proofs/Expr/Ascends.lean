import MiniC.Expr.Parser
import MiniC.Proofs.Expr.Marks
import MiniC.Proofs.Parser.Ascends
import MiniC.Proofs.Syntax.Sites

/-!
The sites of an expression ascend. Where a site stands does not depend on what may
be said there, so an expression has its places, one for each site; a reader puts
the places of the parts one behind the other, and passes a token between them.
-/

namespace MiniC

open MiniC.Parser

namespace Expr

/-- Where the sites of an expression stand. -/
def places (e : Expr) : List Position := (e.sites false).map (·.pos)

/-- Where those of an item of a composite literal stand. -/
def itemPlaces (e : Expr) : List Position := e.itemSites.map (·.pos)

theorem sites_pos (isSpoken : Bool) : (e : Expr) → (e.sites isSpoken).map (·.pos) = e.places
  | bad _ | ident _ _ | lit _ _ _ | composite _ _ | paren _ _ | call _ _ _ | unary _ _ _ => rfl
  | index _ base subscript => by
    rw [sites, places, sites, List.map_append, List.map_append, sites_pos isSpoken base, places]
  | binary _ op left right => by
    rw [sites, places, sites, List.map_append, List.map_append, sites_pos _ left, sites_pos _ left]

theorem sitesOfAll_pos (es : List Expr) : (sitesOfAll es).map (·.pos) = es.flatMap places := by
  induction es with
  | nil => rfl
  | cons e rest ih => rw [sitesOfAll, List.map_append, ih, List.flatMap_cons, places]

theorem places_index (pos : Position) (base subscript : Expr) :
    (index pos base subscript).places = base.places ++ subscript.places :=
  List.map_append

theorem places_call (pos : Position) (callee : Expr) (args : List Expr) :
    (call pos callee args).places = callee.places ++ args.flatMap places := by
  rw [places, sites, List.map_append, sites_pos, sitesOfAll_pos]

theorem places_binary (pos : Position) (op : BinOp) (left right : Expr) :
    (binary pos op left right).places = left.places ++ right.places := by
  rw [places, sites, List.map_append, sites_pos, places, places]

theorem initialSites_pos (forArray : Bool) (e : Expr) :
    (e.initialSites forArray).map (·.pos) = e.itemPlaces := by
  cases e <;> first | rfl | exact sites_pos _ _

theorem IsUnbraced.itemPlaces {e : Expr} (unbraced : e.IsUnbraced) : e.itemPlaces = e.places := by
  cases e with
  | composite => exact unbraced.elim
  | _ => rfl

theorem targetSites_pos (e : Expr) : e.targetSites.map (·.pos) = e.places := by
  cases e <;> first | rfl | exact sites_pos _ _

theorem conditionSites_pos (isBare : Bool) : (e : Expr) →
    (e.conditionSites isBare).map (·.pos) = e.places
  | bad _ | ident _ _ | lit _ _ _ | composite _ _ | call _ _ _ | unary _ _ _ => rfl
  | index _ _ _ => sites_pos _ _
  | paren pos inner => congrArg (pos :: ·) (conditionSites_pos false inner)
  | binary pos op left right => by
    rw [conditionSites]
    split
    · rw [List.map_append, places_binary, places, places]
    · exact sites_pos _ _

theorem printedSites_pos (count before : Nat) (es : List Expr) :
    (printedSites count before es).map (·.pos) = es.flatMap places := by
  induction es generalizing before with
  | nil => rfl
  | cons e rest ih => rw [printedSites, List.map_append, sites_pos, ih, List.flatMap_cons]

end Expr

namespace Stream

theorem upcoming_of_sign {s : Stream} {sign : Sign} (isSign : s.token.kind.sign? = some sign) :
    s.upcoming ≠ [] := by
  apply upcoming_of_kind
  intro isEnd
  rw [isEnd] at isSign
  cases isSign

theorem upcoming_of_literal {s : Stream} {lit : LitKind}
    (isLit : s.token.kind.litKind? = some lit) : s.upcoming ≠ [] := by
  apply upcoming_of_kind
  intro isEnd
  rw [isEnd] at isLit
  cases isLit

theorem upcoming_of_operator {s : Stream} {least : Nat} {op : BinOp}
    (isOp : bindingOp? least s.token.kind = some op) : s.upcoming ≠ [] := by
  apply upcoming_of_kind
  intro isEnd
  rw [isEnd] at isOp
  cases isOp

end Stream

section Reading

variable {inner : Parser Expr} (covers : Covers inner Expr.places)

include covers

theorem operand_covers : Covers (operand inner) Expr.places := by
  intro s ascends
  have here {r : Stream} (isRest : r.IsRest s) : Touch s.offset [s.token.pos] r :=
    .here ascends isRest
  refine Leads.peek ?_
  split
  · exact Leads.advance (Leads.pure (here s.passed_isRest))
  · split
    · exact Leads.advance (Leads.pure (here s.passed_isRest))
    · exact Leads.advance (Leads.pure (here s.passed_isRest))
    · next isParen =>
      have more := Stream.upcoming_of_kind (s := s) (isParen ▸ nofun)
      have further := ascends.rest s.passed_isRest
      have opened := (here (.refl s)).passes ascends more
      refine Leads.advance (Leads.bind (covers _ further) fun e r isRest touch => ?_)
      refine Leads.require (Leads.pure ?_)
      exact Touch.rest (opened.append touch) (further.rest isRest) r.passed_isRest
    · refine Leads.missing (Leads.ite (fun _ => ?_) fun _ => Leads.pure (here (.refl s)))
      exact Leads.advance (Leads.pure (here s.passed_isRest))

theorem suffix_extends (e : Expr) {low : Nat} {s : Stream} (ascends : s.Ascends)
    (taken : takes startsSuffix s = true) (touch : Touch low e.places s) :
    Leads (suffix inner e) s fun whole r => Touch low whole.places r := by
  have more := Stream.upcoming_of_remaining (remaining_pos_of_takes taken)
  have before := touch.passes ascends more
  have further := ascends.rest s.passed_isRest
  refine Leads.peekKind (Leads.ite (fun _ => ?_) fun _ => ?_)
  · refine Leads.require (Leads.bind (covers.commaList _ _ further) fun args r isRest touch => ?_)
    refine Leads.require (Leads.pure ?_)
    rw [Expr.places_call]
    exact Touch.rest (before.append touch) (further.rest isRest) r.passed_isRest
  · refine Leads.require (Leads.bind (covers _ further) fun subscript r isRest touch => ?_)
    refine Leads.require (Leads.pure ?_)
    rw [Expr.places_index]
    exact Touch.rest (before.append touch) (further.rest isRest) r.passed_isRest

theorem primary_covers : Covers (primary inner) Expr.places := by
  intro s ascends
  refine Leads.bind (operand_covers covers s ascends) fun first r isRest touch => ?_
  exact Extends.foldWhile (fun e _ _ => suffix_extends covers e) first _ _ (ascends.rest isRest) touch

omit covers

theorem refusedOperator_extends (least : Nat) (left : Expr) :
    Extends (refusedOperator least left) left.places Expr.places := by
  intro low s ascends touch
  refine Leads.peekKind ?_
  cases isOp : bindingOp? least s.token.kind with
  | none => exact Leads.pure touch
  | some op =>
    have more := Stream.upcoming_of_operator isOp
    have further := ascends.rest s.passed_isRest
    refine Leads.advance (Leads.bind (P := fun _ _ => True) trivial fun _ r isRest _ => ?_)
    refine Leads.position (Leads.pure ?_)
    rw [Expr.places_binary]
    have behind := (touch.passes ascends more).mono (further.offset_le isRest)
    exact behind.append (Touch.here (further.rest isRest) (.refl r))

/-- The readers of one level put their places in order. -/
structure ExprParsers.Cover (level : ExprParsers) : Prop where
  unary : Covers level.unary Expr.places
  operators : ∀ least left, Extends (level.operators least left) left.places Expr.places

theorem ExprParsers.Cover.binary {level : ExprParsers} (cover : level.Cover) (least : Nat) :
    Covers (level.binary least) Expr.places := by
  intro s ascends
  refine Leads.bind (cover.unary s ascends) fun left r isRest touch => ?_
  exact cover.operators least left _ _ (ascends.rest isRest) touch

theorem lowestLevel_cover : lowestLevel.Cover where
  unary s ascends := by
    refine Leads.position (Leads.bind (P := fun _ _ => True) trivial fun _ r isRest _ => ?_)
    exact Leads.pure (.here ascends isRest)
  operators least left := Extends.foldWhile (fun left low s ascends _ =>
    refusedOperator_extends least left low s ascends) left

theorem levelAbove_cover {below : ExprParsers} (cover : below.Cover) : (levelAbove below).Cover where
  unary s ascends := by
    refine Leads.peek ?_
    cases isSign : s.token.kind.sign? with
    | none => exact primary_covers (cover.binary 1) s ascends
    | some sign =>
      have more := Stream.upcoming_of_sign isSign
      have signed := (Touch.here ascends (.refl s)).passes ascends more
      refine Leads.advance (Leads.bind (cover.unary _ (ascends.rest s.passed_isRest)) ?_)
      exact fun operand r _ touch => Leads.pure (signed.append touch)
  operators least left low s ascends touch := by
    refine Leads.peekKind ?_
    cases isOp : bindingOp? least s.token.kind with
    | none => exact Leads.pure touch
    | some op =>
      have more := Stream.upcoming_of_operator isOp
      have further := ascends.rest s.passed_isRest
      have before := touch.passes ascends more
      refine Leads.advance (Leads.bind (cover.binary _ _ further) fun right r isRest touch => ?_)
      refine cover.operators least _ low r (further.rest isRest) ?_
      rw [Expr.places_binary]
      exact before.append touch

theorem expression_covers (levels : Nat) : Covers (expression levels) Expr.places := by
  have cover : (exprParsers levels).Cover := by
    induction levels with
    | zero => exact lowestLevel_cover
    | succ levels ih => exact levelAbove_cover ih
  exact cover.binary 1

end Reading

/-- Where the sites of what a mark stands for are; a closing brace has none. -/
def Mark.places : Mark → List Position
  | .opened pos => [pos]
  | .item e => e.places
  | .closed => []

namespace Expr

mutual

/-- Marks say where the sites of an item are. -/
theorem marks_places : (e : Expr) → e.marks.flatMap Mark.places = e.itemPlaces
  | bad _ | ident _ _ | lit _ _ _ | paren _ _ | index _ _ _ | call _ _ _ | unary _ _ _
  | binary _ _ _ _ => List.append_nil _
  | composite pos items => by
    have inside := marksOfAll_places items
    rw [marks, List.flatMap_cons, List.flatMap_append, inside]
    exact congrArg (pos :: ·) (List.append_nil _)

theorem marksOfAll_places :
    (es : List Expr) → (marksOfAll es).flatMap Mark.places = (itemSitesOfAll es).map (·.pos)
  | [] => rfl
  | e :: rest => by
    rw [marksOfAll, List.flatMap_append, marks_places e, marksOfAll_places rest, itemSitesOfAll,
      List.map_append, itemPlaces]

end

end Expr

namespace Composite

theorem badItem_covers (wanted : Wanted) : Covers (badItem wanted) Expr.places := by
  intro s ascends
  refine Leads.peek (Leads.missing (Leads.ite (fun _ => ?_) fun _ => ?_))
  · exact Leads.advance (Leads.pure (.here ascends s.passed_isRest))
  · exact Leads.pure (.here ascends (.refl s))

theorem plainItem_covers (isSigned : Bool) : Covers (plainItem isSigned) Expr.places := by
  intro s ascends
  refine Leads.peek ?_
  have here : Touch s.offset [s.token.pos] s.passed := .here ascends s.passed_isRest
  split
  · refine Leads.ite (fun _ => badItem_covers _ s ascends) fun _ => ?_
    exact Leads.advance (Leads.pure here)
  · refine Leads.ite (fun _ => ?_) fun _ => badItem_covers _ s ascends
    exact Leads.advance (Leads.pure here)

theorem item_covers : Covers item Expr.places := by
  intro s ascends
  refine Leads.peek ?_
  cases isSign : s.token.kind.sign? with
  | none => exact plainItem_covers false s ascends
  | some sign =>
    have more := Stream.upcoming_of_sign isSign
    have signed := (Touch.here ascends (.refl s)).passes ascends more
    refine Leads.advance (Leads.bind (plainItem_covers true _ (ascends.rest s.passed_isRest)) ?_)
    exact fun operand r _ touch => Leads.pure (signed.append touch)

namespace Row

def places (row : Row) : List Position := row.marks.flatMap Mark.places

theorem whole_places (row : Row) : row.whole.flatMap Mark.places = row.places := by
  have none (n : Nat) : (List.replicate n Mark.closed).flatMap Mark.places = [] := by
    induction n with
    | zero => rfl
    | succ n ih => exact ih
  rw [whole, List.flatMap_append, none, List.append_nil, places]

theorem places_opened (row : Row) (pos : Position) : (row.opened pos).places = row.places ++ [pos] :=
  List.flatMap_append

theorem places_closed (row : Row) : row.closed.places = row.places :=
  List.flatMap_append.trans (List.append_nil _)

theorem places_read (row : Row) (e : Expr) : (row.read e).places = row.places ++ e.places := by
  rw [places, read, List.flatMap_append, List.flatMap_singleton, Mark.places, places]

/-- Where a row stands that has been read up to a stream: clear of it, if an item comes next. -/
structure Stands (low : Nat) (row : Row) (r : Stream) : Prop where
  ascends : r.Ascends
  touch : Touch low row.places r
  clear : row.wantsItem = true → Clear low row.places r

theorem step_stands {row : Row} {low : Nat} {r : Stream} (stands : row.Stands low r)
    (taken : takes row.goesOn r = true) : Leads row.step r (Row.Stands low) := by
  obtain ⟨ascends, touch, clear⟩ := stands
  have more := Stream.upcoming_of_remaining (remaining_pos_of_takes taken)
  have further := ascends.rest r.passed_isRest
  have passes := touch.rest ascends r.passed_isRest
  have clears := touch.clears ascends
  have closed : row.closed.Stands low r.passed :=
    ⟨further, row.places_closed.symm ▸ passes, nofun⟩
  refine Leads.ite (fun _ => Leads.pure ⟨ascends, touch, clear⟩) fun _ => ?_
  refine Leads.ite (fun wantsItem => ?_) fun _ => ?_
  · have behind := clear wantsItem more
    refine Leads.peek ?_
    split
    · have opened : Ascent low (row.places ++ [r.token.pos]) r.passed.offset :=
        behind.append ((Touch.here ascends (.refl r)).passes ascends more)
      rw [← row.places_opened] at opened
      exact Leads.advance (Leads.pure ⟨further, opened.mono (Nat.le_succ _), fun _ _ => opened⟩)
    · exact Leads.advance (Leads.pure closed)
    · refine Leads.bind (item_covers r ascends) fun e later isRest own => Leads.pure ?_
      refine ⟨ascends.rest isRest, ?_, nofun⟩
      rw [row.places_read]
      exact behind.append own
  · refine Leads.peekKind ?_
    split
    · exact Leads.advance (Leads.pure closed)
    · refine Leads.advance (Leads.peekKind (Leads.ite (fun _ => ?_) fun _ => ?_))
      · exact Leads.missing (Leads.pure ⟨further, passes, fun _ => clears⟩)
      · exact Leads.pure ⟨further, passes, fun _ => clears⟩
    · exact Leads.missing (Leads.advance (Leads.pure ⟨further, passes, fun _ => clears⟩))

end Row

theorem row_covers {s : Stream} (opens : s.token.kind = .lBrace) (ascends : s.Ascends) :
    Leads row s fun row r => Touch s.offset row.places r := by
  have more := Stream.upcoming_of_kind (s := s) (opens ▸ nofun)
  have further := ascends.rest s.passed_isRest
  have opened : Ascent s.offset [s.token.pos] s.passed.offset :=
    (Touch.here ascends (.refl s)).passes ascends more
  have start : (Row.start s.token.pos).Stands s.offset s.passed :=
    ⟨further, opened.mono (Nat.le_succ _), fun _ _ => opened⟩
  have loop : Leads (foldWhile Row.goesOn Row.step (.start s.token.pos)) s.passed fun row r =>
      row.Stands s.offset r ∧ takes row.goesOn r = false := by
    refine Leads.foldWhile (fun row r stands taken => ?_) start
    refine Leads.moving (Row.step_stands stands taken) fun _ later stands => ?_
    exact ⟨stands.ascends.rest later.passed_isRest, stands.touch.rest stands.ascends later.passed_isRest,
      fun wantsItem => (stands.clear wantsItem).rest stands.ascends later.passed_isRest⟩
  refine Leads.position (Leads.require (Leads.bind loop fun row r _ ended => ?_))
  refine Leads.ite (fun _ => Leads.pure ended.1.touch) fun _ => ?_
  exact Leads.missing (Leads.pure ended.1.touch)

/-- The sites of a composite literal ascend: they are those of its row. -/
theorem literal_covers {s : Stream} (opens : s.token.kind = .lBrace) (ascends : s.Ascends) :
    Leads compositeLiteral s fun literal r => Touch s.offset literal.itemPlaces r := by
  obtain ⟨marks, rest, -⟩ := literal_alike s
  have covers : Touch s.offset (row.run s).value.places (row.run s).rest := row_covers opens ascends
  change Touch s.offset (compositeLiteral.run s).value.itemPlaces (compositeLiteral.run s).rest
  rwa [← Expr.marks_places, marks, Row.whole_places, ← rest]

end Composite

end MiniC
