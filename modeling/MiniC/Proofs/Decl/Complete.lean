import MiniC.Proofs.Decl.Sound
import MiniC.Proofs.Expr.CompositeComplete

/-!
The tokens that a declaration is written with are read back as that
declaration. A token behind a name tells a function from a list of variables,
and every declarator ends in front of a comma or a semicolon.
-/

namespace MiniC

open MiniC.Parser
open Written (commas)

theorem Ty.keyword_baseType? {ty : Ty} (isBase : ty = .int ∨ ty = .char ∨ ty = .void) :
    ty.keyword.baseType? = some ty := by
  rcases isBase with rfl | rfl | rfl <;> rfl

section Names

variable {s : Stream} {deep : Prop} {text : List Written} {rest : List Lexeme}

theorem identifier_complete {name : String}
    (spelled : Spelled (.name name :: text) s.upcoming rest) :
    Succeeds identifier s deep fun found r =>
      found.text = name ∧ Spelled text r.upcoming rest := by
  obtain ⟨isName, same⟩ := (Succeeds.token_spells spelled).name
  refine Succeeds.bind_peek ?_
  rw [if_pos (by simpa using isName)]
  exact Succeeds.bind (Succeeds.advance spelled) fun _ r spelled => Succeeds.pure ⟨same, spelled⟩

theorem parameter_complete (param : Param) (grammatical : param.Grammatical)
    (follow : TokenKind → Prop) :
    Reads parameter param.printed follow deep (·.bare = param.bare) := by
  intro s rest spelled _
  have typed : s.token.kind = param.ty.keyword := (Succeeds.token_spells spelled).1
  have isType : Succeeds parameterType s deep fun ty r => ty = param.ty ∧ r = s := by
    refine Succeeds.bind_peekKind ?_
    rcases grammatical with isInt | isChar
    · simp only [typed, isInt]
      exact Succeeds.pure ⟨rfl, rfl⟩
    · simp only [typed, isChar]
      exact Succeeds.pure ⟨rfl, rfl⟩
  refine Succeeds.bind_peek (Succeeds.bind isType ?_)
  rintro _ _ ⟨rfl, rfl⟩
  rw [if_neg (by rw [typed]; cases param.ty <;> nofun)]
  refine Succeeds.bind (Succeeds.advance spelled) fun _ middle spelled => ?_
  refine Succeeds.bind (identifier_complete spelled) fun name r read => Succeeds.pure ?_
  obtain ⟨same, ended⟩ := read
  cases ended
  exact ⟨by simp [Param.bare, Name.bare, same], rfl⟩

theorem map_eq_of_forall₂ {α β : Type} {f : α → β} {given found : List α}
    (same : List.Forall₂ (fun a a' => f a' = f a) given found) :
    found.map f = given.map f := by
  induction same with
  | nil => rfl
  | cons first _ ih => rw [List.map_cons, List.map_cons, first, ih]

theorem parameterList_complete (params : List Param)
    (grammatical : ∀ param ∈ params, param.Grammatical)
    (spelled : Spelled
      (.symbol .lParen :: commas (params.map Param.printed) ++ .symbol .rParen :: text)
      s.upcoming rest) :
    Succeeds parameterList s deep fun found r =>
      found.params.map Param.bare = params.map Param.bare ∧ Spelled text r.upcoming rest := by
  refine Succeeds.bind_position (Succeeds.bind (Succeeds.require spelled) fun _ _ spelled => ?_)
  have listed : Reads (commaList .rParen parameter) (commas (params.map Param.printed))
      (· = .rParen) deep (List.Forall₂ (fun a a' => a'.bare = a.bare) params) := by
    refine Reads.commaList params nofun (fun param member => ?_) fun param _ => ?_
    · exact parameter_complete param (grammatical param member) _
    · exact ⟨_, _, rfl, by cases param.ty <;> nofun⟩
  refine Succeeds.bind (listed.beforeToken spelled rfl) ?_
  rintro found closing ⟨same, spelled⟩
  refine Succeeds.bind (Succeeds.require spelled) fun _ r spelled => Succeeds.pure ?_
  exact ⟨map_eq_of_forall₂ same, spelled⟩

theorem dimension_complete {size : Nat} (small : size < 2 ^ 64) (follow : TokenKind → Prop) :
    Reads dimension (printedSize size) follow deep (· = size) := by
  intro s rest spelled _
  refine Succeeds.bind (Succeeds.require spelled) fun _ middle spelled => ?_
  obtain ⟨isInt, same⟩ := Succeeds.token_spells spelled
  have sized : Succeeds arraySize middle deep fun found r =>
      found = size ∧ Spelled [.symbol .rBracket] r.upcoming rest := by
    refine Succeeds.bind_peek ?_
    rw [if_pos isInt, same]
    dsimp only
    rw [if_pos (show size < sizeLimit from small)]
    exact Succeeds.bind (Succeeds.advance spelled) fun _ r spelled => Succeeds.pure ⟨rfl, spelled⟩
  refine Succeeds.bind sized fun found closing read => ?_
  refine Succeeds.bind (Succeeds.require read.2) fun _ r spelled => Succeeds.pure ⟨read.1, ?_⟩
  cases spelled
  rfl

/-- The sizes of a declarator, in front of anything but one more of them. -/
theorem sizes_complete {sizes : List Nat} (small : ∀ size ∈ sizes, size < 2 ^ 64) :
    Reads (manyWhile (· = .lBracket) dimension) (sizes.flatMap printedSize) (· ≠ .lBracket) deep
      (· = sizes) := by
  have loop : Reads (manyWhile (· = .lBracket) dimension) (sizes.flatMap printedSize)
      (· ≠ .lBracket) deep (List.Forall₂ (fun size size' => size' = size) sizes) := by
    refine Reads.manyWhile (E := fun _ _ => True) sizes
      (fun size member => dimension_complete (small size member) _)
      (fun size _ => ⟨_, _, rfl, by decide, by decide, fun _ _ => trivial⟩)
      fun kind other => ⟨by simpa using other, fun _ _ => trivial⟩
  intro s rest spelled follows
  refine (loop s rest spelled follows).mono fun found r read => ⟨?_, read.2⟩
  simpa using map_eq_of_forall₂ (f := id) read.1

/-- The sizes of a declarator, in front of its value or of what ends it. -/
theorem dimensions_complete {sizes : List Nat} (small : ∀ size ∈ sizes, size < 2 ^ 64)
    (init : Option Expr)
    (spelled : Spelled (sizes.flatMap printedSize ++ Expr.printedInit init) s.upcoming rest)
    (follows : frontKind rest = .comma ∨ frontKind rest = .semicolon) :
    Succeeds (manyWhile (· = .lBracket) dimension) s deep fun found r =>
      found = sizes ∧ Spelled (Expr.printedInit init) r.upcoming rest := by
  refine (sizes_complete small).before spelled fun middle after => ?_
  cases init with
  | none =>
    cases after
    rcases follows with same | same <;> rw [same] <;> nofun
  | some e =>
    rw [after.frontKind_eq]
    nofun

end Names

theorem Expr.IsInitializer.cases {e : Expr} (isInitializer : e.IsInitializer) :
    (∃ pos items, e = .composite pos items ∧ AllItems items) ∨ e.Grammatical := by
  cases e with
  | composite pos items => exact .inl ⟨pos, items, rfl, isInitializer⟩
  | _ => exact .inr isInitializer

section Expr

variable {expr : Parser Expr} {levels : Nat} (complete : CompleteExpr expr levels)

include complete

theorem initializer_complete (init : Option Expr) (grammatical : ∀ e ∈ init, e.IsInitializer) :
    Reads (initializer expr) (Expr.printedInit init)
      (fun kind => kind = .comma ∨ kind = .semicolon) (levels < Expr.initLevels init)
      (fun found => found.map Expr.bare = init.map Expr.bare) := by
  intro s rest spelled follows
  cases init with
  | none =>
    cases spelled
    have notAssigned : s.token.kind ≠ .assign := by
      rw [s.token_kind]
      rcases follows with same | same <;> rw [same] <;> nofun
    refine Succeeds.bind (Succeeds.accept_other notAssigned) ?_
    rintro _ _ ⟨rfl, rfl⟩
    exact Succeeds.pure ⟨rfl, rfl⟩
  | some e =>
    refine Succeeds.bind (Succeeds.accept spelled) ?_
    rintro _ middle ⟨rfl, spelled⟩
    refine Succeeds.bind_peekKind ?_
    rcases (grammatical e rfl).cases with ⟨pos, items, rfl, areItems⟩ | isExpr
    · rw [if_pos (Succeeds.token_spells spelled).1]
      refine Succeeds.map ((compositeLiteral_complete pos items _ areItems middle rest spelled
        trivial).mono fun found r read => ⟨?_, read.2⟩)
      simp only [Option.map_some, read.1]
    · obtain ⟨written, text, shape, starts, _⟩ := e.printed_starts isExpr
      have front : middle.token.kind = written.kind := by
        rw [shape] at spelled
        exact middle.token_kind ▸ spelled.frontKind_eq
      rw [if_neg (by rw [front]; intro isBrace; simp [isBrace, startsExpr] at starts)]
      have ends : EndsExpr 1 (frontKind rest) := by
        rcases follows with same | same <;> rw [same] <;> exact endsExpr_of_eq rfl rfl
      refine Succeeds.map ((complete e isExpr middle rest spelled ends).mono
        fun found r read => ⟨?_, read.2⟩)
      simp only [Option.map_some, read.1]

/-- A declarator behind its name. -/
theorem declarator_complete (d : Declarator) (grammatical : d.Grammatical) (name : Name)
    (named : name.text = d.name.text) :
    Reads (declarator expr name) (d.sizes.flatMap printedSize ++ Expr.printedInit d.init)
      (fun kind => kind = .comma ∨ kind = .semicolon) (levels < Expr.initLevels d.init)
      (·.bare = d.bare) := by
  intro s rest spelled follows
  refine Succeeds.bind (dimensions_complete grammatical.1 d.init spelled follows) ?_
  rintro sizes middle ⟨sameSizes, spelled⟩
  refine Succeeds.bind (initializer_complete complete d.init grammatical.2 middle rest spelled
    follows) fun init r read => Succeeds.pure ⟨?_, read.2⟩
  simp [Declarator.bare, Name.bare, named, sameSizes, read.1]

/-- The declarators of a declaration behind the first name. -/
theorem declarators_complete {v : VarDecl} {first : Declarator} {later : List Declarator}
    (shape : v.declarators = first :: later)
    (grammatical : ∀ d ∈ v.declarators, d.Grammatical) (name : Name)
    (named : name.text = first.name.text) (follow : TokenKind → Prop) :
    Reads (declarators expr name)
      (first.sizes.flatMap printedSize ++ Expr.printedInit first.init ++
        (later.flatMap (.symbol .comma :: ·.printed) ++ [.symbol .semicolon]))
      follow (levels < v.levels)
      (fun found => found.map Declarator.bare = v.declarators.map Declarator.bare) := by
  intro s rest spelled _
  have deepens : ∀ d ∈ v.declarators, levels < Expr.initLevels d.init → levels < v.levels :=
    fun d member isDeep => Nat.lt_of_lt_of_le isDeep (VarDecl.initLevels_le_levels member)
  have isFirst : first ∈ v.declarators := shape ▸ List.mem_cons_self
  have areLater : ∀ d ∈ later, d ∈ v.declarators :=
    fun d member => shape ▸ List.mem_cons_of_mem first member
  -- the name of the first declarator was read before, those of the others are read here
  have head := (declarator_complete complete first (grammatical first isFirst) name named).weaken
    (deepens first isFirst)
  have others : Reads (manyWhile (· = .comma)
      (do Parser.advance; let name ← identifier; declarator expr name))
      (later.flatMap (.symbol .comma :: ·.printed)) (· = .semicolon) (levels < v.levels)
      (List.Forall₂ (fun d d' => d'.bare = d.bare) later) := by
    refine Reads.manyWhile (E := fun _ kind => kind = .comma ∨ kind = .semicolon) later ?_
      (fun _ _ => ⟨_, _, rfl, by decide, by decide, fun _ _ => .inl rfl⟩)
      fun kind ends => ⟨by simp [ends], fun _ _ => .inr ends⟩
    intro d member s rest spelled follows
    refine Succeeds.bind (Succeeds.advance spelled) fun _ _ spelled => ?_
    refine Succeeds.bind (identifier_complete spelled) fun name middle read => ?_
    have reads := declarator_complete complete d (grammatical d (areLater d member)) name read.1
    exact (reads.weaken (deepens d (areLater d member))) middle rest read.2 follows
  refine Succeeds.bind (head.before spelled fun middle after => ?_) fun foundFirst r read => ?_
  · cases later with
    | nil => exact .inr after.frontKind_eq
    | cons => exact .inl after.frontKind_eq
  refine Succeeds.bind (others.beforeToken read.2 rfl) fun found closing readLater => ?_
  refine Succeeds.bind (Succeeds.require readLater.2) fun _ r ended => Succeeds.pure ?_
  cases ended
  have same : (foundFirst :: found).map Declarator.bare = v.declarators.map Declarator.bare := by
    rw [shape, List.map_cons, List.map_cons, read.1, map_eq_of_forall₂ readLater.1]
  exact ⟨same, rfl⟩

end Expr

/-- Reads the text of a statement. An `else` in front of what follows would be
read along with a statement that ends in an open `if`. -/
def ReadsStmt (p : Parser Stmt) (levels : Nat) (t : Stmt) : Prop :=
  Reads p t.printed (fun kind => t.dangles = true → kind ≠ .elseKw) (levels < t.levels)
    (·.bare = t.bare)

def CompleteStmt (p : Parser Stmt) (levels : Nat) : Prop :=
  ∀ t : Stmt, t.Grammatical → ReadsStmt p levels t

section Block

variable {stmt : Parser Stmt} {levels : Nat} (complete : CompleteStmt stmt levels)
  {s : Stream} {deep : Prop} {text : List Written} {rest : List Lexeme}

include complete

/-- A loop that goes on with every token that starts a statement. -/
theorem stmts_complete (more : TokenKind → Bool) {body : List Stmt}
    (taken : ∀ kind, startsStmt kind = true → more kind = true)
    (grammatical : Stmt.AllGrammatical body) :
    Reads (manyWhile more stmt) (Stmt.printedAll body)
      (fun kind => more kind = false ∧ kind ≠ .elseKw) (levels < Stmt.mostLevels body)
      (fun found => Stmt.bareAll found = Stmt.bareAll body) := by
  rw [Stmt.allGrammatical_iff] at grammatical
  have loop : Reads (manyWhile more stmt) (body.flatMap Stmt.printed)
      (fun kind => more kind = false ∧ kind ≠ .elseKw) (levels < Stmt.mostLevels body)
      (List.Forall₂ (fun t t' => t'.bare = t.bare) body) := by
    refine Reads.manyWhile (E := fun t kind => t.dangles = true → kind ≠ .elseKw) body ?_ ?_ ?_
    · intro t member
      exact Reads.weaken (complete t (grammatical t member)) fun isDeep =>
        Nat.lt_of_lt_of_le isDeep (Stmt.levels_le_mostLevels member)
    · intro t member
      obtain ⟨written, text, shape, starts⟩ := t.printed_starts (grammatical t member)
      refine ⟨written, text, shape, taken _ starts, ?_, fun _ _ _ => ?_⟩
      · exact fun same => by simp [same, startsStmt, startsExpr] at starts
      · exact fun same => by simp [same, startsStmt, startsExpr] at starts
    · exact fun kind ends => ⟨ends.1, fun _ _ _ => ends.2⟩
  -- statements are the same without places when each of them is
  intro s rest spelled follows
  rw [Stmt.printedAll_eq] at spelled
  refine (loop s rest spelled follows).mono fun found r read => ⟨?_, read.2⟩
  simp only [Stmt.bareAll_eq_map, map_eq_of_forall₂ read.1]

theorem braced_complete {body : List Stmt} (grammatical : Stmt.AllGrammatical body)
    (isDeep : levels < Stmt.mostLevels body → deep)
    (spelled : Spelled (.symbol .lBrace :: Stmt.printedAll body ++ .symbol .rBrace :: text)
      s.upcoming rest) :
    Succeeds (braced stmt) s deep fun found r =>
      (∃ stmts, found = some stmts ∧ Stmt.bareAll stmts = Stmt.bareAll body) ∧
        Spelled text r.upcoming rest := by
  refine Succeeds.bind (Succeeds.require spelled) fun _ middle spelled => ?_
  have inside := stmts_complete complete (· ≠ .rBrace)
    (fun kind starts => by cases kind <;> first | rfl | exact absurd starts (by decide)) grammatical
  refine Succeeds.bind ((inside.weaken isDeep).beforeToken spelled ⟨rfl, nofun⟩) ?_
  rintro stmts closing ⟨same, spelled⟩
  have isBrace : closing.token.kind = .rBrace := (Succeeds.token_spells spelled).1
  refine Succeeds.bind_peekKind ?_
  rw [if_neg (by rw [isBrace]; nofun)]
  refine Succeeds.bind (Succeeds.advance spelled) fun _ r spelled => Succeeds.pure ?_
  exact ⟨⟨stmts, rfl, same⟩, spelled⟩

/-- A function behind its name. -/
theorem function_complete (f : FuncDecl) (grammatical : f.Grammatical) (returnsPos : Position)
    (name : Name) (named : name.text = f.name.text) (follow : TokenKind → Prop) :
    Reads (function stmt f.returns returnsPos name)
      (.symbol .lParen :: commas (f.params.params.map Param.printed) ++
        .symbol .rParen :: .symbol .lBrace :: Stmt.printedAll f.body ++ [.symbol .rBrace])
      follow (levels < Stmt.mostLevels f.body)
      (fun found => ∃ g, found = some g ∧ g.bare = f.bare) := by
  intro s rest spelled _
  rw [List.append_assoc] at spelled
  refine Succeeds.bind (parameterList_complete _ grammatical.params spelled) ?_
  rintro params middle ⟨sameParams, spelled⟩
  refine Succeeds.bind_position ?_
  refine Succeeds.bind (braced_complete complete grammatical.body id spelled) ?_
  rintro _ r ⟨⟨stmts, rfl, sameBody⟩, ended⟩
  cases ended
  refine Succeeds.bind Succeeds.remark_parsedFunction ?_
  rintro _ _ rfl
  refine Succeeds.pure ⟨⟨_, rfl, ?_⟩, rfl⟩
  simp [FuncDecl.bare, Name.bare, named, sameParams, sameBody]

end Block

/-- No parenthesis follows the first name of a list of variables. -/
theorem declarators_front (first : Declarator) (later : List Declarator) : ∃ written text,
    first.sizes.flatMap printedSize ++ Expr.printedInit first.init ++
      (later.flatMap (.symbol .comma :: ·.printed) ++ [.symbol .semicolon]) = written :: text ∧
        written.kind ≠ .lParen := by
  cases first.sizes with
  | cons => exact ⟨_, _, rfl, by decide⟩
  | nil =>
    cases first.init with
    | some => exact ⟨_, _, rfl, by decide⟩
    | none => cases later <;> exact ⟨_, _, rfl, by decide⟩

theorem VarDecl.printed_eq {v : VarDecl} {first : Declarator} {later : List Declarator}
    (shape : v.declarators = first :: later) :
    v.printed = (if v.isConst then [.symbol .constKw] else []) ++
      .symbol v.base.keyword :: .name first.name.text ::
        (first.sizes.flatMap printedSize ++ Expr.printedInit first.init ++
          (later.flatMap (.symbol .comma :: ·.printed) ++ [.symbol .semicolon])) := by
  simp [VarDecl.printed, shape, commas, Declarator.printed, List.flatMap_map]

theorem constFlag_complete (flag : Bool) {base : Ty} {s : Stream} {deep : Prop}
    {text : List Written} {rest : List Lexeme}
    (spelled : Spelled ((if flag then [.symbol .constKw] else []) ++ .symbol base.keyword :: text)
      s.upcoming rest) :
    Succeeds (accept .constKw) s deep fun found r =>
      found = flag ∧ Spelled (.symbol base.keyword :: text) r.upcoming rest := by
  cases flag with
  | true => exact Succeeds.accept spelled
  | false =>
    have other : s.token.kind ≠ .constKw := by
      rw [s.token_kind, spelled.frontKind_eq]
      cases base <;> simp [Written.kind, Ty.keyword]
    refine (Succeeds.accept_other other).mono ?_
    rintro _ _ ⟨rfl, rfl⟩
    exact ⟨rfl, spelled⟩

section Declaration

variable {expr : Parser Expr} {stmt : Parser Stmt} {levels : Nat}

theorem declaration_vars_complete (complete : CompleteExpr expr levels) (pos : Position)
    (v : VarDecl) (grammatical : v.Grammatical) (isTopLevel : Bool) (follow : TokenKind → Prop) :
    Reads (declaration expr stmt isTopLevel) v.printed follow (levels < v.levels)
      (·.bare = (Decl.vars pos v).bare) := by
  intro s rest spelled follows
  obtain ⟨first, later, shape⟩ := List.exists_cons_of_ne_nil grammatical.named
  rw [VarDecl.printed_eq shape] at spelled
  refine Succeeds.bind_position (Succeeds.bind (constFlag_complete v.isConst spelled) ?_)
  rintro _ start ⟨rfl, spelled⟩
  have isBase : start.token.kind.baseType? = some v.base := by
    rw [(Succeeds.token_spells spelled).1]
    exact Ty.keyword_baseType? (grammatical.base.imp_right .inl)
  refine Succeeds.bind_peek ?_
  simp only [isBase]
  refine Succeeds.bind (Succeeds.advance spelled) fun _ _ spelled => ?_
  refine Succeeds.bind (identifier_complete spelled) fun name next read => ?_
  have notCalled : next.token.kind ≠ .lParen := by
    obtain ⟨written, text, front, other⟩ := declarators_front first later
    have spelled := read.2
    rw [front] at spelled
    rw [next.token_kind, spelled.frontKind_eq]
    exact other
  refine Succeeds.bind_peekKind ?_
  rw [if_neg notCalled]
  refine Succeeds.bind (declarators_complete complete shape grammatical.declarators name read.1
    follow next rest read.2 follows) fun list r readList => ?_
  rw [if_neg (by rcases grammatical.base with same | same <;> rw [same] <;> nofun)]
  refine Succeeds.pure ⟨?_, readList.2⟩
  simp [Decl.bare, VarDecl.bare, readList.1]

theorem declaration_func_complete (complete : CompleteStmt stmt levels) (pos : Position)
    (f : FuncDecl) (grammatical : f.Grammatical) (follow : TokenKind → Prop) :
    Reads (declaration expr stmt true) f.printed follow (levels < Stmt.mostLevels f.body)
      (·.bare = (Decl.func pos f).bare) := by
  intro s rest spelled follows
  refine Succeeds.bind_position (Succeeds.bind (constFlag_complete false spelled) ?_)
  rintro _ start ⟨rfl, spelled⟩
  have isBase : start.token.kind.baseType? = some f.returns := by
    rw [(Succeeds.token_spells spelled).1]
    exact Ty.keyword_baseType? grammatical.returns
  refine Succeeds.bind_peek ?_
  simp only [isBase]
  refine Succeeds.bind (Succeeds.advance spelled) fun _ _ spelled => ?_
  refine Succeeds.bind (identifier_complete spelled) fun name next read => ?_
  refine Succeeds.bind_peekKind ?_
  rw [if_pos (Succeeds.token_spells read.2).1]
  refine Succeeds.bind (function_complete complete f grammatical _ name read.1 follow next rest
    read.2 follows) ?_
  rintro _ r ⟨⟨g, rfl, same⟩, ended⟩
  refine Succeeds.pure ⟨?_, ended⟩
  simp [Decl.bare, same]

end Declaration

end MiniC
