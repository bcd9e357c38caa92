import MiniC.Proofs.Decl.Complete
import MiniC.Proofs.Expr.Limited

/-!
Declarations whose values nest too deep. A value that is cut short takes the
declarators behind it with it, up to the semicolon; the declaration ends there.
-/

namespace MiniC

open MiniC.Parser

section Declarators

variable {expr : Parser Expr} (skipping : SkippingExpr expr)

include skipping

theorem initializer_limited (init : Option Expr) (grammatical : ∀ e ∈ init, e.IsInitializer) :
    ReadsOrSkips (initializer expr) (Expr.printedInit init)
      fun kind => kind = .comma ∨ kind = .semicolon := by
  intro s rest spelled follows
  cases init with
  | none =>
    have same : s.upcoming = rest := spelled.eq_of_nil
    have notAssigned : s.token.kind ≠ .assign := by
      rw [s.token_kind, same]
      rcases follows with same | same <;> rw [same] <;> nofun
    refine Limited.bind (Succeeds.accept_other notAssigned).limited ?_
    rintro _ _ ⟨rfl, rfl⟩
    exact Limited.pure (.inl same)
  | some e =>
    refine Limited.bind (Succeeds.accept spelled).limited ?_
    rintro _ middle ⟨rfl, spelled⟩
    refine Limited.bind_peekKind ?_
    rcases (grammatical e rfl).cases with ⟨pos, items, rfl, areItems⟩ | isExpr
    · rw [if_pos (Succeeds.token_spells spelled).1]
      refine Limited.map (Succeeds.limited ?_)
      exact (compositeLiteral_complete pos items _ areItems middle rest spelled trivial).mono
        fun _ _ read => .inl read.2
    · obtain ⟨written, text, shape, starts, _⟩ := e.printed_starts isExpr
      have front : middle.token.kind = written.kind := by
        rw [shape] at spelled
        exact middle.token_kind ▸ spelled.frontKind_eq
      rw [if_neg (by rw [front]; intro isBrace; simp [isBrace, startsExpr] at starts)]
      refine Limited.map (skipping e isExpr middle rest spelled ?_)
      rcases follows with same | same <;> rw [same] <;> exact endsExpr_of_eq rfl rfl

theorem declarator_limited (d : Declarator) (grammatical : d.Grammatical) (name : Name) :
    ReadsOrSkips (declarator expr name) (d.sizes.flatMap printedSize ++ Expr.printedInit d.init)
      fun kind => kind = .comma ∨ kind = .semicolon := by
  intro s rest spelled follows
  refine Limited.bind (dimensions_complete grammatical.1 d.init spelled follows).limited ?_
  rintro sizes middle ⟨_, spelled⟩
  exact Limited.bind (initializer_limited skipping d.init grammatical.2 middle rest spelled follows)
    fun _ _ ended => Limited.pure ended

/-- The declarators of a declaration behind the first name. -/
theorem declarators_limited (first : Declarator) (later : List Declarator)
    (grammatical : ∀ d ∈ first :: later, d.Grammatical) (name : Name) {s : Stream}
    {rest : List Lexeme}
    (spelled : Spelled (first.sizes.flatMap printedSize ++ Expr.printedInit first.init ++
      (later.flatMap (.symbol .comma :: ·.printed) ++ [.symbol .semicolon])) s.upcoming rest) :
    Limited (declarators expr name) s fun _ r => r.upcoming = rest := by
  obtain ⟨goodFirst, goodLater⟩ := List.forall_mem_cons.mp grammatical
  rw [← List.append_assoc] at spelled
  obtain ⟨semicolon, listed, ending⟩ := spelled.split
  have reads : ∀ d ∈ later, ReadsOrSkips (do let name ← identifier; declarator expr name) d.printed
      fun kind => kind = .comma ∨ kind = .semicolon := by
    intro d member s rest spelled follows
    refine Limited.bind (identifier_complete spelled).limited fun name middle read => ?_
    exact declarator_limited skipping d (goodLater d member) name middle rest read.2 follows
  have skips : SkipsOver 0 (later.flatMap (.symbol .comma :: ·.printed)) :=
    .flatMap fun d _ => .cons rfl d.printed_skips
  have head := (declarator_limited skipping first goodFirst name).before skips listed
    fun middle after => by
      cases later with
      | nil =>
        cases after
        exact .inr ending.frontKind_eq
      | cons => exact .inl after.frontKind_eq
  refine Limited.bind head fun _ r start => ?_
  have others := ReadsOrSkips.laterItems later reads (fun d _ => d.printed_skips) rfl
    ending.frontKind_eq start
  refine Limited.bind others fun _ r ended => ?_
  exact Limited.bind (Succeeds.require (ended ▸ ending)).limited fun _ _ ended =>
    Limited.pure ended.eq_of_nil

end Declarators

theorem declaration_vars_limited {expr : Parser Expr} {stmt : Parser Stmt}
    (skipping : SkippingExpr expr) (v : VarDecl) (grammatical : v.Grammatical) (isTopLevel : Bool)
    {s : Stream} {rest : List Lexeme} (spelled : Spelled v.printed s.upcoming rest) :
    Limited (declaration expr stmt isTopLevel) s fun _ r => r.upcoming = rest := by
  obtain ⟨first, later, shape⟩ := List.exists_cons_of_ne_nil grammatical.named
  rw [VarDecl.printed_eq shape] at spelled
  refine Limited.bind_position
    (Limited.bind (constFlag_complete v.isConst spelled).limited ?_)
  rintro _ start ⟨rfl, spelled⟩
  have isBase : start.token.kind.baseType? = some v.base := by
    rw [(Succeeds.token_spells spelled).1]
    exact Ty.keyword_baseType? (grammatical.base.imp_right .inl)
  refine Limited.bind_peek ?_
  simp only [isBase]
  refine Limited.bind (Succeeds.advance spelled).limited fun _ _ spelled => ?_
  refine Limited.bind (identifier_complete spelled).limited fun name next read => ?_
  have notCalled : next.token.kind ≠ .lParen := by
    obtain ⟨written, text, front, other⟩ := declarators_front first later
    have spelled := read.2
    rw [front] at spelled
    rw [next.token_kind, spelled.frontKind_eq]
    exact other
  refine Limited.bind_peekKind ?_
  rw [if_neg notCalled]
  refine Limited.bind (declarators_limited skipping first later
    (shape ▸ grammatical.declarators) name read.2) fun list r ended => ?_
  rw [if_neg (by rcases grammatical.base with same | same <;> rw [same] <;> nofun)]
  exact Limited.pure ended

end MiniC
