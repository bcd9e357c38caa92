import MiniC.Decl.Parser
import MiniC.Proofs.Expr.CompositeSound

/-!
Declarations that were read without a problem. Nothing stands in for a name or
a type then, and the declaration is one that its place allows.
-/

namespace MiniC

open MiniC.Parser
open Written (commas)

theorem TokenKind.baseType?_eq {kind : TokenKind} {ty : Ty} (found : kind.baseType? = some ty) :
    kind = ty.keyword ∧ (ty = .int ∨ ty = .char ∨ ty = .void) := by
  cases kind <;> simp [baseType?] at found <;> subst found <;> decide

theorem Ty.keyword_spelled (ty : Ty) : ty.keyword.spelling?.isSome := by
  cases ty <;> rfl

theorem identifier_sound (s : Stream) :
    Quiet identifier s fun name r => Spelled [.name name.text] s.upcoming r.upcoming := by
  refine Quiet.of_exact fun exact => Quiet.bind_peek (Quiet.ite (fun isName => ?_) fun _ => ?_)
  · have isName : s.token.kind = .ident ∨ s.token.kind = .mainKw := by simpa using isName
    have more : s.token.kind ≠ .eof := by rcases isName with same | same <;> rw [same] <;> nofun
    refine Quiet.bind (Quiet.advance more) fun _ r passes => Quiet.pure ?_
    exact passes _ ((exact more).name_spells isName)
  · exact Quiet.bind_missing

theorem parameterType_sound (s : Stream) :
    Quiet parameterType s fun ty r =>
      r = s ∧ (ty = .int ∨ ty = .char) ∧ s.token.kind = ty.keyword := by
  refine Quiet.bind_peekKind ?_
  split
  · next isInt => exact Quiet.pure ⟨rfl, .inl rfl, (TokenKind.baseType?_eq isInt).1⟩
  · next isChar => exact Quiet.pure ⟨rfl, .inr rfl, (TokenKind.baseType?_eq isChar).1⟩
  · exact Quiet.bind_missing

theorem parameter_sound (s : Stream) :
    Quiet parameter s fun param r =>
      param.Grammatical ∧ Spelled param.printed s.upcoming r.upcoming := by
  refine Quiet.bind_peek (Quiet.bind (parameterType_sound s) ?_)
  rintro ty _ ⟨rfl, isBase, kind⟩
  refine Quiet.ite (fun isClose => ?_) fun _ => ?_
  · rw [kind] at isClose
    exact absurd isClose (by cases ty <;> nofun)
  · refine Quiet.bind (Quiet.advance_symbol kind ty.keyword_spelled) fun _ middle typed => ?_
    refine Quiet.bind (identifier_sound middle) fun name r named => Quiet.pure ?_
    exact ⟨isBase, typed.append named⟩

theorem parameterList_sound (s : Stream) :
    Quiet parameterList s fun list r =>
      (∀ param ∈ list.params, param.Grammatical) ∧
        Spelled (.symbol .lParen :: commas (list.params.map Param.printed) ++ [.symbol .rParen])
          s.upcoming r.upcoming := by
  refine Quiet.bind_position (Quiet.bind (Quiet.require rfl) fun _ middle opened => ?_)
  refine Quiet.bind (Quiet.commaList parameter_sound) fun params closing inside => ?_
  refine Quiet.bind (Quiet.require rfl) fun _ r closed => Quiet.pure ?_
  exact ⟨inside.1, (opened.append inside.2).append closed⟩

theorem arraySize_sound (s : Stream) :
    Quiet arraySize s fun size r =>
      size < 2 ^ 64 ∧ Spelled [.size size] s.upcoming r.upcoming := by
  refine Quiet.bind_peek (Quiet.ite (fun isInt => ?_) fun _ => Quiet.bind_missing)
  refine Quiet.ite (fun small => ?_) fun _ => Quiet.bind_report
  have more : s.token.kind ≠ .eof := by rw [isInt]; nofun
  refine Quiet.bind (Quiet.advance more) fun _ r passes => Quiet.pure ?_
  exact ⟨small, passes _ ⟨isInt, rfl⟩⟩

theorem dimension_sound (s : Stream) :
    Quiet dimension s fun size r =>
      size < 2 ^ 64 ∧ Spelled (printedSize size) s.upcoming r.upcoming := by
  refine Quiet.bind (Quiet.require rfl) fun _ middle opened => ?_
  refine Quiet.bind (arraySize_sound middle) fun size closing sized => ?_
  refine Quiet.bind (Quiet.require rfl) fun _ r closed => Quiet.pure ?_
  exact ⟨sized.1, opened.append (sized.2.append closed)⟩

section Expr

variable {expr : Parser Expr} (sound : SoundExpr expr)

include sound

theorem initializer_sound (s : Stream) :
    Quiet (initializer expr) s fun init r =>
      (∀ e ∈ init, e.IsInitializer) ∧ Spelled (Expr.printedInit init) s.upcoming r.upcoming := by
  refine Quiet.bind (Quiet.accept rfl) fun taken middle assigned => ?_
  rcases assigned with ⟨rfl, _, assigned⟩ | ⟨rfl, _, rfl⟩
  · refine Quiet.bind_peekKind (Quiet.ite (fun _ => ?_) fun _ => ?_)
    · refine Quiet.map ((compositeLiteral_sound middle).mono fun e r read => ?_)
      exact ⟨by simpa using read.1, assigned.append read.2⟩
    · refine Quiet.map ((sound middle).mono fun e r read => ?_)
      exact ⟨by simpa using read.1.isInitializer, assigned.append read.2⟩
  · exact Quiet.pure ⟨by simp, .nil _⟩

theorem declarator_sound (name : Name) (start : List Lexeme) (s : Stream)
    (named : Spelled [.name name.text] start s.upcoming) :
    Quiet (declarator expr name) s fun d r =>
      d.Grammatical ∧ Spelled d.printed start r.upcoming := by
  have sizes : Quiet (manyWhile (· = .lBracket) dimension) s fun sizes r =>
      (∀ size ∈ sizes, size < 2 ^ 64) ∧
        Spelled (sizes.flatMap printedSize) s.upcoming r.upcoming := by
    refine (Quiet.manyWhile fun s _ => ?_).mono fun _ _ read => ⟨read.1, read.2.1⟩
    exact (dimension_sound s).mono fun size r read => ⟨read.1, read.2, List.cons_ne_nil _ _⟩
  refine Quiet.bind sizes fun sizes middle sized => ?_
  refine Quiet.bind (initializer_sound sound middle) fun init r read => Quiet.pure ?_
  exact ⟨⟨sized.1, read.1⟩, (named.append sized.2).append read.2⟩

theorem declarators_sound (first : Name) (start : List Lexeme) (s : Stream)
    (named : Spelled [.name first.text] start s.upcoming) :
    Quiet (declarators expr first) s fun list r =>
      list ≠ [] ∧ (∀ d ∈ list, d.Grammatical) ∧
        Spelled (commas (list.map Declarator.printed) ++ [.symbol .semicolon])
          start r.upcoming := by
  refine Quiet.bind (declarator_sound sound first start s named) fun head middle readHead => ?_
  have others : Quiet (manyWhile (· = .comma)
      (do Parser.advance; let name ← identifier; declarator expr name)) middle fun list r =>
        (∀ d ∈ list, d.Grammatical) ∧
          Spelled (list.flatMap (.symbol .comma :: ·.printed)) middle.upcoming r.upcoming := by
    refine (Quiet.manyWhile fun s taken => ?_).mono fun _ _ read => ⟨read.1, read.2.1⟩
    have isComma : s.token.kind = .comma := by simpa using Quiet.kind_of_takes taken
    refine Quiet.bind (Quiet.advance_symbol isComma rfl) fun _ behind comma => ?_
    refine Quiet.bind (identifier_sound behind) fun name after named => ?_
    refine (declarator_sound sound name behind.upcoming after named).mono fun d r read => ?_
    exact ⟨read.1, comma.append read.2, List.cons_ne_nil _ _⟩
  refine Quiet.bind others fun later closing readLater => ?_
  refine Quiet.bind (Quiet.require rfl) fun _ r closed => Quiet.pure ?_
  refine ⟨List.cons_ne_nil _ _, List.forall_mem_cons.mpr ⟨readHead.1, readLater.1⟩, ?_⟩
  simp only [List.map_cons, commas, List.flatMap_map]
  exact (readHead.2.append readLater.2).append closed

end Expr

/-- What a quiet reading of a statement comes to. -/
structure Stmt.Read (start : List Lexeme) (t : Stmt) (r : Stream) : Prop where
  grammatical : t.Grammatical
  closed : t.dangles = true → r.token.kind ≠ .elseKw
  spelled : Spelled t.printed start r.upcoming

def SoundStmt (p : Parser Stmt) : Prop := ∀ s, Quiet p s (Stmt.Read s.upcoming)

/-- Statements that a loop reads one after the other. -/
theorem stmts_sound {stmt : Parser Stmt} (sound : SoundStmt stmt) (more : TokenKind → Bool)
    (s : Stream) :
    Quiet (manyWhile more stmt) s fun body r =>
      Stmt.AllGrammatical body ∧ Spelled (Stmt.printedAll body) s.upcoming r.upcoming ∧
        takes more r = false := by
  have loop : Quiet (manyWhile more stmt) s fun body r =>
      (∀ t ∈ body, t.Grammatical) ∧ Spelled (body.flatMap Stmt.printed) s.upcoming r.upcoming ∧
        takes more r = false :=
    Quiet.manyWhile fun s _ => (sound s).mono fun t r read =>
      ⟨read.grammatical, read.spelled, ne_nil_of_starts (t.printed_starts read.grammatical)⟩
  refine loop.mono fun body r read => ?_
  rwa [Stmt.allGrammatical_iff, Stmt.printedAll_eq]

section Block

variable {stmt : Parser Stmt} (sound : SoundStmt stmt)

include sound

theorem braced_sound (s : Stream) :
    Quiet (braced stmt) s fun body r =>
      ∃ stmts, body = some stmts ∧ Stmt.AllGrammatical stmts ∧
        Spelled (.symbol .lBrace :: Stmt.printedAll stmts ++ [.symbol .rBrace])
          s.upcoming r.upcoming := by
  refine Quiet.bind (Quiet.require rfl) fun _ middle opened => ?_
  refine Quiet.bind (stmts_sound sound _ middle) fun stmts closing read => ?_
  refine Quiet.bind_peekKind (Quiet.ite (fun _ => Quiet.bind_missing) fun notEnd => ?_)
  have isBrace : closing.token.kind = .rBrace := by
    simpa [notEnd] using Quiet.kind_of_not_takes read.2.2
  refine Quiet.bind (Quiet.advance_symbol isBrace rfl) fun _ r closed => Quiet.pure ?_
  exact ⟨stmts, rfl, read.1, (opened.append read.2.1).append closed⟩

theorem function_sound (returns : Ty) (returnsPos : Position) (name : Name) (start : List Lexeme)
    (s : Stream) (allowed : returns = .int ∨ returns = .char ∨ returns = .void)
    (headed : Spelled [.symbol returns.keyword, .name name.text] start s.upcoming) :
    Quiet (function stmt returns returnsPos name) s fun func r =>
      ∃ f, func = some f ∧ f.Grammatical ∧ Spelled f.printed start r.upcoming := by
  refine Quiet.bind (parameterList_sound s) fun params middle listed => Quiet.bind_position ?_
  refine Quiet.bind (braced_sound sound middle) ?_
  rintro _ closing ⟨body, rfl, good, spelled⟩
  refine Quiet.bind Quiet.remark_parsedFunction ?_
  rintro _ _ rfl
  refine Quiet.pure ⟨_, rfl, ⟨allowed, listed.1, good⟩, ?_⟩
  have whole := (headed.append listed.2).append spelled
  simpa [FuncDecl.printed] using whole

end Block

theorem declaration_sound {expr : Parser Expr} {stmt : Parser Stmt} (soundExpr : SoundExpr expr)
    (soundStmt : SoundStmt stmt) (isTopLevel : Bool) (s : Stream) :
    Quiet (declaration expr stmt isTopLevel) s fun decl r =>
      decl.Grammatical ∧ (isTopLevel = false → decl.vars?.isSome) ∧
        Spelled decl.printed s.upcoming r.upcoming := by
  refine Quiet.bind_position (Quiet.bind (Quiet.accept rfl) fun isConst start flagged => ?_)
  have flag : Spelled (if isConst then [.symbol .constKw] else []) s.upcoming start.upcoming := by
    rcases flagged with ⟨rfl, _, flagged⟩ | ⟨rfl, _, rfl⟩
    · exact flagged
    · exact .nil _
  refine Quiet.bind_peek ?_
  split
  · exact Quiet.bind_missing
  · next base isBase =>
    obtain ⟨kind, allowed⟩ := TokenKind.baseType?_eq isBase
    refine Quiet.bind (Quiet.advance_symbol kind base.keyword_spelled) fun _ middle typed => ?_
    refine Quiet.bind (identifier_sound middle) fun name next named => ?_
    refine Quiet.bind_peekKind (Quiet.ite (fun _ => ?_) fun _ => ?_)
    · refine Quiet.bind (function_sound soundStmt base _ name start.upcoming next allowed
        (typed.append named)) ?_
      rintro _ r ⟨f, rfl, good, spelled⟩
      refine Quiet.ite (fun _ => Quiet.bind_report) fun notConst => ?_
      refine Quiet.ite (fun _ => Quiet.bind_report) fun topLevel => Quiet.pure ?_
      refine ⟨good, fun nested => absurd nested (by simpa using topLevel), ?_⟩
      simpa [notConst, Decl.printed] using flag.append spelled
    · refine Quiet.bind (declarators_sound soundExpr name middle.upcoming next named)
        fun list r read => ?_
      refine Quiet.ite (fun _ => Quiet.bind_report) fun notVoid => Quiet.pure ?_
      have isBase : base = .int ∨ base = .char := by simpa [notVoid] using allowed
      refine ⟨⟨isBase, read.1, read.2.1⟩, fun _ => rfl, ?_⟩
      simpa [Decl.printed, VarDecl.printed] using flag.append (typed.append read.2.2)

end MiniC
