import MiniC.Expr.Parser
import MiniC.Proofs.Expr.Braced
import MiniC.Proofs.Syntax.Shaped

/-!
The shape of expressions that are read. The readers put an expression together in
eight ways, on every level alike; what each of these keeps holds of all that is
read. Braces are read in two places, for a whole initial value and for an item of
one, so no expression has any in it.
-/

namespace MiniC

open MiniC.Parser

/-- What holds of an expression that a reader puts together if it holds of the parts. -/
structure Expr.Kept (P : Expr → Prop) : Prop where
  bad : ∀ pos, P (.bad pos)
  ident : ∀ pos name, P (.ident pos name)
  lit : ∀ pos kind text, P (.lit pos kind text)
  paren : ∀ pos {inner}, P inner → P (.paren pos inner)
  index : ∀ {base subscript}, P base → P subscript → P (.index base.pos base subscript)
  call : ∀ {callee args}, P callee → (∀ arg ∈ args, P arg) → P (.call callee.pos callee args)
  unary : ∀ pos sign {operand}, P operand → P (.unary pos sign operand)
  binary : ∀ op {left right}, P left → P right → P (.binary left.pos op left right)

variable {P : Expr → Prop} (kept : Expr.Kept P)

include kept

theorem operand_keeps {inner : Parser Expr} (gives : Gives inner P) : Gives (operand inner) P := by
  refine Gives.after fun token => ?_
  split
  · exact Gives.last (kept.lit _ _ _)
  · split
    · exact Gives.last (kept.ident _ _)
    · exact Gives.last (kept.ident _ _)
    · refine Gives.after fun _ => ?_
      refine Gives.bind gives fun e holds => ?_
      exact Gives.last (kept.paren _ holds)
    · refine Gives.after fun _ => ?_
      apply Gives.ite
      · exact fun _ => Gives.last (kept.bad _)
      · exact fun _ => Gives.pure (kept.bad _)

theorem suffix_keeps {inner : Parser Expr} (gives : Gives inner P) {e : Expr} (holds : P e) :
    Gives (suffix inner e) P := by
  refine Gives.after fun next => ?_
  apply Gives.ite
  · intro isCall
    refine Gives.after fun _ => ?_
    refine Gives.bind (Gives.commaList _ gives) fun args onArgs => ?_
    exact Gives.last (kept.call holds onArgs)
  · intro isSubscript
    refine Gives.after fun _ => ?_
    refine Gives.bind gives fun subscript onSubscript => ?_
    exact Gives.last (kept.index holds onSubscript)

theorem primary_keeps {inner : Parser Expr} (gives : Gives inner P) : Gives (primary inner) P := by
  refine Gives.bind (operand_keeps kept gives) fun first onFirst => ?_
  apply Gives.foldWhile _ onFirst
  intro base onBase
  exact suffix_keeps kept gives onBase

theorem refusedOperator_keeps (least : Nat) {left : Expr} (holds : P left) :
    Gives (refusedOperator least left) P := by
  refine Gives.after fun next => ?_
  split
  · refine Gives.after fun _ => ?_
    refine Gives.after fun _ => ?_
    refine Gives.after fun pos => ?_
    exact Gives.pure (kept.binary _ holds (kept.bad pos))
  · exact Gives.pure holds

omit kept in
/-- The readers of one level keep a property. -/
structure ExprParsers.Keep (level : ExprParsers) (P : Expr → Prop) : Prop where
  unary : Gives level.unary P
  operators : ∀ least {left}, P left → Gives (level.operators least left) P

omit kept in
theorem ExprParsers.Keep.binary {level : ExprParsers} (keep : level.Keep P) (least : Nat) :
    Gives (level.binary least) P := by
  refine Gives.bind keep.unary fun left holds => ?_
  exact keep.operators least holds

theorem lowestLevel_keeps : lowestLevel.Keep P where
  unary := by
    refine Gives.after fun pos => ?_
    exact Gives.last (kept.bad pos)
  operators least _ holds := by
    apply Gives.foldWhile _ holds
    intro left holds
    exact refusedOperator_keeps kept least holds

theorem levelAbove_keeps {below : ExprParsers} (keep : below.Keep P) : (levelAbove below).Keep P where
  unary := by
    refine Gives.after fun token => ?_
    split
    · refine Gives.after fun _ => ?_
      refine Gives.bind keep.unary fun operand holds => ?_
      exact Gives.pure (kept.unary _ _ holds)
    · exact primary_keeps kept (keep.binary 1)
  operators least left onLeft := by
    refine Gives.after fun next => ?_
    split
    · refine Gives.after fun _ => ?_
      refine Gives.bind (keep.binary _) fun right onRight => ?_
      exact keep.operators least (kept.binary _ onLeft onRight)
    · exact Gives.pure onLeft

/-- What the readers keep holds of every expression, whatever it is read from. -/
theorem expression_keeps (levels : Nat) : Gives (expression levels) P := by
  have keep : (exprParsers levels).Keep P := by
    induction levels with
    | zero => exact lowestLevel_keeps kept
    | succ levels ih => exact levelAbove_keeps kept ih
  exact keep.binary 1

omit kept

theorem expression_unbraced (levels : Nat) : Gives (expression levels) Expr.IsUnbraced :=
  expression_keeps
    { bad := fun _ => trivial
      ident := fun _ _ => trivial
      lit := fun _ _ _ => trivial
      paren := fun _ _ holds => holds
      index := fun onBase onSubscript => ⟨onBase, onSubscript⟩
      call := fun onCallee onArgs => ⟨onCallee, (Expr.allUnbraced_iff _).mpr onArgs⟩
      unary := fun _ _ _ holds => holds
      binary := fun _ _ _ onLeft onRight => ⟨onLeft, onRight⟩ } levels

theorem expression_rooted (levels : Nat) : Gives (expression levels) Expr.IsRooted :=
  expression_keeps
    { bad := fun _ => trivial
      ident := fun _ _ => trivial
      lit := fun _ _ _ => trivial
      paren := fun _ _ holds => holds
      index := fun onBase onSubscript => ⟨rfl, onBase, onSubscript⟩
      call := fun onCallee onArgs => ⟨rfl, onCallee, (Expr.allRooted_iff _).mpr onArgs⟩
      unary := fun _ _ _ holds => holds
      binary := fun _ _ _ onLeft onRight => ⟨rfl, onLeft, onRight⟩ } levels

namespace Composite

theorem badItem_isSigned (wanted : Wanted) : Gives (badItem wanted) Expr.IsSignedItem := by
  refine Gives.after fun found => ?_
  refine Gives.after fun _ => ?_
  apply Gives.ite
  · exact fun _ => Gives.last trivial
  · exact fun _ => Gives.pure trivial

/-- Behind a sign no string is taken. -/
theorem plainItem_isSigned : Gives (plainItem true) Expr.IsSignedItem := by
  refine Gives.after fun token => ?_
  split
  · apply Gives.ite
    · exact fun _ => badItem_isSigned _
    · intro noString
      apply Gives.last
      simpa [Expr.IsSignedItem] using noString
  · apply Gives.ite
    · exact fun _ => Gives.last trivial
    · exact fun _ => badItem_isSigned _

theorem item_isBraced : Gives item Expr.IsBracedItem := by
  have plain {e : Expr} (isAtom : e.IsAtom) : e.IsBracedItem := by
    cases e with
    | bad | ident | lit => trivial
    | _ => exact isAtom.elim
  refine Gives.after fun token => ?_
  split
  · refine Gives.after fun _ => ?_
    refine Gives.bind plainItem_isSigned fun operand isSigned => ?_
    exact Gives.pure isSigned
  · exact (plainItem_atom false).mono fun _ => plain

end Composite

section Opening

/-- What is read stands where the reading began. -/
def Opens (p : Parser Expr) : Prop := ∀ s, (p.run s).value.pos = s.token.pos

namespace Opens

theorem peek {f : Token → Parser Expr} (gives : ∀ token, Gives (f token) fun e => e.pos = token.pos) :
    Opens (Parser.peek >>= f) :=
  fun s => gives s.token s

theorem look {f : Token → Parser Expr}
    (opens : ∀ s, ((f s.token).run s).value.pos = s.token.pos) : Opens (Parser.peek >>= f) :=
  opens

theorem position {f : Position → Parser Expr} (gives : ∀ pos, Gives (f pos) fun e => e.pos = pos) :
    Opens (Parser.position >>= f) :=
  fun s => gives s.token.pos s

theorem bind {p : Parser Expr} {f : Expr → Parser Expr} (first : Opens p)
    (next : ∀ e, Gives (f e) fun whole => whole.pos = e.pos) : Opens (p >>= f) :=
  fun s => (next _ _).trans (first s)

/-- What is read from a place on has that place. -/
theorem gives_bind {α : Type} {p : Parser Expr} {f : Position → Expr → Parser α} {good : α → Prop}
    (opens : Opens p) (gives : Gives p P) (next : ∀ e, P e → Gives (f e.pos e) good) :
    Gives (Parser.position >>= fun pos => p >>= f pos) good := by
  intro s
  have later := next _ (gives s) (p.run s).rest
  rw [opens s] at later
  exact later

end Opens

variable {inner : Parser Expr} {level : ExprParsers}

theorem operand_opens : Opens (operand inner) := by
  apply Opens.peek
  intro token
  split
  · exact Gives.last rfl
  · split
    · exact Gives.last rfl
    · exact Gives.last rfl
    · refine Gives.after fun _ => ?_
      refine Gives.after fun e => ?_
      exact Gives.last rfl
    · refine Gives.after fun _ => ?_
      apply Gives.ite
      · exact fun _ => Gives.last rfl
      · exact fun _ => Gives.pure rfl

theorem primary_opens : Opens (primary inner) := by
  have suffix (e : Expr) : Gives (suffix inner e) fun whole => whole.pos = e.pos := by
    refine Gives.after fun next => ?_
    apply Gives.ite
    · intro isCall
      refine Gives.after fun _ => ?_
      refine Gives.after fun args => ?_
      exact Gives.last rfl
    · intro isSubscript
      refine Gives.after fun _ => ?_
      refine Gives.after fun subscript => ?_
      exact Gives.last rfl
  apply operand_opens.bind
  intro first
  refine Gives.foldWhile (fun e same => ?_) rfl
  exact (suffix e).mono fun _ here => here.trans same

/-- The readers of one level begin where they stand and keep the place of what comes
before an operator. -/
structure ExprParsers.Open (level : ExprParsers) : Prop where
  unary : Opens level.unary
  operators : ∀ least left, Gives (level.operators least left) fun whole => whole.pos = left.pos

theorem ExprParsers.Open.binary (isOpen : level.Open) (least : Nat) : Opens (level.binary least) :=
  isOpen.unary.bind (isOpen.operators least)

theorem lowestLevel_open : lowestLevel.Open where
  unary := by
    apply Opens.position
    intro pos
    exact Gives.last rfl
  operators least left := by
    refine Gives.foldWhile (fun e same => ?_) rfl
    refine Gives.after fun next => ?_
    split
    · refine Gives.after fun _ => ?_
      refine Gives.after fun _ => ?_
      refine Gives.after fun pos => ?_
      exact Gives.pure same
    · exact Gives.pure same

theorem levelAbove_open (isOpen : level.Open) : (levelAbove level).Open where
  unary := by
    apply Opens.look
    intro s
    split
    · rfl
    · exact primary_opens s
  operators least left := by
    refine Gives.after fun next => ?_
    split
    · refine Gives.after fun _ => ?_
      refine Gives.after fun right => ?_
      exact isOpen.operators least _
    · exact Gives.pure rfl

theorem expression_opens (levels : Nat) : Opens (expression levels) := by
  have isOpen : (exprParsers levels).Open := by
    induction levels with
    | zero => exact lowestLevel_open
    | succ levels ih => exact levelAbove_open ih
  exact isOpen.binary 1

end Opening

theorem compositeLiteral_isInitial : Gives compositeLiteral Expr.IsInitial := by
  have nested (e : Expr) (isList : Composite.IsListOf Expr.IsBracedItem e) : e.IsBracedItem := by
    obtain ⟨pos, items, rfl, braced⟩ := isList
    exact (Expr.allBracedItems_iff items).mpr braced
  refine (Composite.literal_keeps Composite.item_isBraced nested).mono ?_
  rintro _ ⟨pos, items, rfl, braced⟩
  exact (Expr.allBracedItems_iff items).mpr braced

theorem compositeLiteral_rooted : Gives compositeLiteral Expr.IsRooted := by
  have atom {e : Expr} (isAtom : e.IsAtom) : e.IsRooted := by
    cases e with
    | bad | ident | lit => trivial
    | _ => exact isAtom.elim
  have single (e : Expr) (isSingle : Composite.IsSingle e) : e.IsRooted := by
    cases isSingle with
    | atom isAtom => exact atom isAtom
    | @signed pos sign operand isAtom => exact atom (e := operand) isAtom
  have nested (e : Expr) (isList : Composite.IsListOf Expr.IsRooted e) : e.IsRooted := by
    obtain ⟨pos, items, rfl, rooted⟩ := isList
    exact (Expr.allRooted_iff items).mpr rooted
  exact (Composite.literal_gives single nested).mono nested

end MiniC
