import MiniC.Proofs.Decl.Sound
import MiniC.Proofs.Expr.Along
import MiniC.Proofs.Stmt.Descends

/-!
Declarations lie along their tokens. A name stands where its token does, whether
that is a name or not; a parameter and its type stand at one token, as does what
stands in for its name if there is none. The types of variables stand at the
keyword in front of the first name.
-/

namespace MiniC

open MiniC.Parser
open Waypoint (symbol commas)

variable {close : Prop}

/-- A name at a token, and the course from there to behind it. -/
structure Name.Stands (close : Prop) (name : Name) (start s : Stream) : Prop where
  pos : name.pos = start.token.pos
  along : Along close [.word (.name name.text)] start s

theorem Name.Stands.node {name : Name} {start s : Stream} (stands : name.Stands close start s)
    (kind : String) : Along close [.node kind name.pos, .word (.name name.text)] start s := by
  rw [stands.pos]
  exact .node kind stands.along

theorem identifier_stands (s : Stream) :
    Tracks close identifier s fun name r => name.Stands close s r := by
  refine Tracks.peek (Tracks.ite (fun isName => ?_) fun _ => ?_)
  · have more : s.upcoming ≠ [] := by
      apply Stream.upcoming_of_kind
      intro isEnd
      rw [isEnd] at isName
      exact absurd isName (by decide)
    exact Tracks.advance (Tracks.pure ⟨rfl, .passed _ fun _ => more⟩)
  · refine Tracks.missing fun loose => Tracks.advance (Tracks.pure ⟨rfl, ?_⟩)
    exact .passed _ fun holds => absurd holds loose

section Parameters

theorem parameterType_along (s : Stream) :
    Tracks close parameterType s fun _ r =>
      r = s ∧ (close → s.token.kind = .intKw ∨ s.token.kind = .charKw) := by
  refine Tracks.peekKind ?_
  split
  · next isInt => exact Tracks.pure ⟨rfl, fun _ => .inl (TokenKind.baseType?_eq isInt).1⟩
  · next isChar => exact Tracks.pure ⟨rfl, fun _ => .inr (TokenKind.baseType?_eq isChar).1⟩
  · exact Tracks.missing fun loose => Tracks.pure ⟨rfl, fun holds => absurd holds loose⟩

theorem parameter_follows : Follows close parameter Param.course := by
  intro s
  refine Tracks.peek (Tracks.bind (parameterType_along s) ?_)
  rintro ty here ⟨rfl, isBase⟩
  refine Tracks.ite (fun isClosing => Tracks.pure ?_) fun _ => ?_
  · have loose : ¬ close := fun holds => by
      rcases isBase holds with isInt | isChar
      · exact absurd (isInt.symm.trans isClosing) (by decide)
      · exact absurd (isChar.symm.trans isClosing) (by decide)
    exact .node _ (.node _ (.lost _ loose (.node _ (.lost _ loose (.done here)))))
  · have typed : Along close [symbol ty.keyword] here here.passed := by
      refine .passed _ fun holds => Stream.upcoming_of_kind ?_
      rcases isBase holds with isInt | isChar
      · rw [isInt]
        decide
      · rw [isChar]
        decide
    refine Tracks.advance (Tracks.bind (identifier_stands _) fun name r named => Tracks.pure ?_)
    exact .node _ (.node _ (typed.append (named.node "Name")))

theorem parameterList_follows : Follows close parameterList ParamList.course := by
  intro s
  refine Tracks.position (Tracks.require (by decide) fun opened => ?_)
  refine Tracks.bind (parameter_follows.commaList _ _) fun params r along => ?_
  refine Tracks.require (by decide) fun closed => Tracks.pure ?_
  exact .node _ (opened.append (along.append closed))

end Parameters

section Declarators

variable {expr : Parser Expr} (follows : Follows close expr Expr.course)

theorem arraySize_follows : Follows close arraySize fun size => [.word (.size size)] := by
  intro s
  refine Tracks.peek (Tracks.ite (fun isInt => ?_) fun _ => ?_)
  · have more := Stream.upcoming_of_kind (s := s) (isInt ▸ by decide)
    refine Tracks.ite (fun _ => ?_) fun _ => ?_
    · exact Tracks.advance (Tracks.pure (.passed _ fun _ => more))
    · exact Tracks.report fun _ => Tracks.advance (Tracks.pure (.passed _ fun _ => more))
  · refine Tracks.missing fun loose => Tracks.ite (fun _ => ?_) fun _ => ?_
    · refine Tracks.advance (Tracks.pure ?_)
      exact .passed _ fun holds => absurd holds loose
    · exact Tracks.pure (.lost _ loose (.done s))

theorem dimension_follows :
    Follows close dimension fun size => (printedSize size).map .word := by
  intro s
  refine Tracks.require (by decide) fun opened => ?_
  refine Tracks.bind (arraySize_follows _) fun size r along => ?_
  exact Tracks.require (by decide) fun closed => Tracks.pure (opened.append (along.append closed))

include follows

theorem initializer_follows : Follows close (initializer expr) Expr.initCourse := by
  intro s
  refine Tracks.accept (by decide) (fun assigned => ?_) (Tracks.pure (.done s))
  refine Tracks.peekKind (Tracks.ite (fun _ => ?_) fun _ => ?_)
  · exact Tracks.map ((compositeLiteral_follows _).mono fun e r along => assigned.append along)
  · exact Tracks.map ((follows _).mono fun e r along => assigned.append along)

/-- The rest of a declarator, whose name has been read since `start`. -/
theorem declarator_along (isConst : Bool) {name : Name} {start s : Stream}
    (named : name.Stands close start s) :
    Tracks close (declarator expr name) s fun d r => Along close (d.course isConst) start r := by
  refine Tracks.bind (dimension_follows.manyWhile dimension_advances s) fun sizes next sized => ?_
  refine Tracks.bind (initializer_follows follows next) fun init r along => Tracks.pure ?_
  rw [Declarator.course, List.map_flatMap]
  exact (named.node _).append (sized.append along)

theorem declarators_along (isConst : Bool) {first : Name} {start s : Stream}
    (named : first.Stands close start s) :
    Tracks close (declarators expr first) s fun list r =>
      Along close (commas (list.map (Declarator.course isConst)) ++ [symbol .semicolon])
        start r := by
  have each : Follows close (do let name ← identifier; declarator expr name)
      (Declarator.course isConst) := fun s =>
    Tracks.bind (identifier_stands s) fun _ _ named => declarator_along follows isConst named
  refine Tracks.bind (declarator_along follows isConst named) fun head middle here => ?_
  refine Tracks.bind (each.behindCommas middle) fun later r others => ?_
  refine Tracks.require (by decide) fun ended => Tracks.pure ?_
  rw [List.map_cons, commas, List.flatMap_map]
  exact (here.append others).append ended

end Declarators

section Functions

variable {stmt : Parser Stmt} (follows : Follows close stmt Stmt.course) (sound : SoundStmt stmt)

include follows sound

/-- Statements one behind the other. A round that stands still has reported something. -/
theorem stmts_follow (more : TokenKind → Bool) :
    Follows close (manyWhile more stmt) Stmt.courseOfAll := by
  intro s
  have round (s : Stream) : Tracks close stmt s fun t r =>
      Along close t.course s r ∧ (close → r.remaining < s.remaining) := by
    refine ((follows s).quiet (sound s)).mono fun t r read => ⟨read.1, fun holds => ?_⟩
    apply read.1.shorter holds
    rw [t.text_course]
    exact ne_nil_of_starts (t.printed_starts (read.2 holds).grammatical)
  refine (Tracks.manyWhile (fun s _ => round s) s).mono fun stmts r along => ?_
  rwa [Stmt.courseOfAll_eq]

theorem braced_along (s : Stream) :
    Tracks close (braced stmt) s fun body r =>
      (body = none → ¬ close) ∧ ∀ stmts, body = some stmts →
        Along close (symbol .lBrace :: (Stmt.courseOfAll stmts ++ [symbol .rBrace])) s r := by
  refine Tracks.require (by decide) fun opened => ?_
  refine Tracks.bind (stmts_follow follows sound _ _) fun stmts r along => ?_
  refine Tracks.peekKind (Tracks.ite (fun _ => ?_) fun notEnd => ?_)
  · refine Tracks.missing fun loose => Tracks.pure ⟨fun _ => loose, ?_⟩
    rintro _ ⟨⟩
  · have closed : Along close [symbol .rBrace] r r.passed :=
      .passed _ fun _ => Stream.upcoming_of_kind notEnd
    refine Tracks.advance (Tracks.pure ⟨?_, ?_⟩)
    · rintro ⟨⟩
    · rintro _ ⟨⟩
      exact opened.append (along.append closed)

/-- A function behind its name, which has been read since `start`. -/
theorem function_along (pos returnsPos : Position) (returns : Ty) (name : Name) {start s : Stream}
    (head : Along close (.node "Func" pos :: .node "Type" returnsPos :: symbol returns.keyword ::
      name.course) start s) :
    Tracks close (function stmt returns returnsPos name) s fun func r =>
      (func = none → ¬ close) ∧ ∀ f, func = some f → Along close (f.course pos) start r := by
  refine Tracks.bind (parameterList_follows s) fun params middle listed => Tracks.position ?_
  refine Tracks.bind (braced_along follows sound middle) ?_
  rintro body r ⟨ended, along⟩
  refine Tracks.parsedFunction (Tracks.pure ?_)
  cases body with
  | none =>
    refine ⟨fun _ => ended rfl, ?_⟩
    rintro _ ⟨⟩
  | some stmts =>
    refine ⟨?_, ?_⟩
    · rintro ⟨⟩
    · rintro _ ⟨⟩
      exact head.append (listed.append (.node "Block" (along stmts rfl)))

end Functions

section Declarations

/-- The types of variables stand where the keyword of their declaration does. -/
theorem along_types {α : Type} (as : List α) (s : Stream) :
    Along close (as.map fun _ => .node "Type" s.token.pos) s s := by
  induction as with
  | nil => exact .done s
  | cons a rest ih => exact .node "Type" ih

variable {expr : Parser Expr} {stmt : Parser Stmt} (onExpr : Follows close expr Expr.course)
  (onStmt : Follows close stmt Stmt.course) (sound : SoundStmt stmt)

include onExpr onStmt sound

theorem declaration_along (isTopLevel : Bool) (s : Stream) :
    Tracks close (declaration expr stmt isTopLevel) s fun decl r =>
      decl.pos = s.token.pos ∧ Along close decl.course s r := by
  -- what is not allowed has been reported, and is bad at its first token
  have bad {r : Stream} (loose : ¬ close) (isRest : r.IsRest s) :
      (Decl.bad s.token.pos).pos = s.token.pos ∧
        Along close (Decl.bad s.token.pos).course s r :=
    ⟨rfl, .node _ (.gone loose isRest)⟩
  refine Tracks.position (Tracks.bind (Tracks.accepted (by decide)) fun isConst start flagged => ?_)
  have flag : Along close (if isConst then [symbol .constKw] else []) s start := by
    rcases flagged with ⟨rfl, rfl, flagged⟩ | ⟨rfl, rfl⟩
    · exact flagged
    · exact .done _
  refine Tracks.peek ?_
  split
  · refine Tracks.missing fun loose => Tracks.advance (Tracks.pure ?_)
    exact bad loose (start.passed_isRest.trans flag.isRest)
  · next base isBase =>
    obtain ⟨kind, allowed⟩ := TokenKind.baseType?_eq isBase
    have more : start.token.kind ≠ .eof := by
      rw [kind]
      rcases allowed with rfl | rfl | rfl <;> decide
    have isRest := start.passed_isRest.trans flag.isRest
    refine Tracks.advance (Tracks.bind (identifier_stands _).rest ?_)
    rintro name next ⟨named, isNext⟩
    refine Tracks.peekKind (Tracks.ite (fun _ => ?_) fun _ => ?_)
    · have typed : Along close [symbol base.keyword] start start.passed :=
        .passed _ fun _ => Stream.upcoming_of_kind more
      have head : Along close (.node "Func" start.token.pos :: .node "Type" start.token.pos ::
          symbol base.keyword :: name.course) start next :=
        .node _ (.node _ (typed.append (named.node "Name")))
      refine Tracks.bind (function_along onStmt sound _ _ base name head).rest ?_
      rintro func r ⟨⟨ended, along⟩, isLast⟩
      have isRest := isLast.trans (isNext.trans isRest)
      refine Tracks.ite (fun _ => Tracks.report fun loose => Tracks.pure (bad loose isRest)) ?_
      intro notConst
      refine Tracks.ite (fun _ => Tracks.report fun loose => Tracks.pure (bad loose isRest)) ?_
      intro _
      refine Tracks.pure ?_
      cases func with
      | none => exact bad (ended rfl) isRest
      | some f =>
        -- a function behind `const` has been reported above
        have same : start = s := by
          rcases flagged with ⟨rfl, -, -⟩ | ⟨-, same⟩
          · exact absurd rfl notConst
          · exact same
        subst same
        exact ⟨rfl, along f rfl⟩
    · refine Tracks.bind (declarators_along onExpr isConst named).rest ?_
      rintro list r ⟨along, isLast⟩
      have isRest := isLast.trans (isNext.trans isRest)
      refine Tracks.ite (fun _ => Tracks.report fun loose => Tracks.pure (bad loose isRest)) ?_
      intro _
      refine Tracks.pure ⟨rfl, ?_⟩
      have anchored : Along close [.anchor base.keyword start.token.pos] start start.passed := by
        rw [← kind, Stream.passed_of_more (Stream.upcoming_of_kind more)]
        exact .anchor more (.done _)
      have head := flag.append ((along_types list start).append anchored)
      exact .node _ (head.append along)

end Declarations

end MiniC
