import MiniC.Proofs.Syntax.Course
import Mathlib.Data.List.Forall2

/-!
The nodes of a tree against its course. Where the waypoints of a course stand in
the order of the source, so do the nodes: none before the nodes that it holds, and
its parts one behind the other. Only the type of a variable stands before the
variable.
-/

namespace MiniC

namespace Waypoint

/-- Whether one waypoint may come before the other. Nothing stands where a word
stands that is there in any case. -/
def Allows : Waypoint → Waypoint → Prop
  | node _ left, node _ right => left.precedes right = true
  | anchor _ left, node _ right => left.compareSpot right = .lt
  | _, _ => True

def Ordered (course : List Waypoint) : Prop := course.Pairwise Allows

end Waypoint

open Waypoint (Ordered symbol)

namespace Outline

def kind : Outline → String
  | node _ kind _ _ _ => kind

def pos : Outline → Position
  | node _ _ pos _ _ => pos

def parts : Outline → List Outline
  | node _ _ _ _ parts => parts

mutual

/-- The nodes inside a node, each before those inside it. -/
def inside : Outline → List Outline
  | node _ _ _ _ parts => nodesOfAll parts

def nodesOfAll : List Outline → List Outline
  | [] => []
  | part :: rest => part :: (part.inside ++ nodesOfAll rest)

end

def waypoint (o : Outline) : Waypoint := .node o.kind o.pos

def IsVariable (o : Outline) : Prop := o.kind = "SingleVar" ∨ o.kind = "ConstVar"

/-- How a node stands to those inside it. The first part of a variable is its type. -/
structure IsOrderly (o : Outline) : Prop where
  inside : ∀ inner ∈ o.inside, o.pos.precedes inner.pos = true ∨
    o.IsVariable ∧ o.parts.head? = some inner ∧ inner.pos.compareSpot o.pos = .lt
  parts : o.parts.Pairwise (·.pos.precedes ·.pos = true)

/-- The parts of a node lie on a course. -/
structure AllOn (parts : List Outline) (course : List Waypoint) : Prop where
  found : ∀ o ∈ nodesOfAll parts, o.waypoint ∈ course
  orderly : Ordered course → (∀ o ∈ nodesOfAll parts, o.IsOrderly) ∧
    parts.Pairwise (·.pos.precedes ·.pos = true)

theorem nodesOfAll_append (left right : List Outline) :
    nodesOfAll (left ++ right) = nodesOfAll left ++ nodesOfAll right := by
  induction left with
  | nil => rfl
  | cons first rest ih =>
    rw [List.cons_append, nodesOfAll, nodesOfAll, ih, List.cons_append, List.append_assoc]

theorem nodesOfAll_singleton (o : Outline) : nodesOfAll [o] = o :: o.inside := by
  rw [nodesOfAll, nodesOfAll, List.append_nil]

theorem mem_nodesOfAll {part : Outline} {parts : List Outline} (member : part ∈ parts) :
    part ∈ nodesOfAll parts := by
  obtain ⟨before, behind, rfl⟩ := List.append_of_mem member
  rw [nodesOfAll_append, nodesOfAll]
  exact List.mem_append_right _ List.mem_cons_self

theorem precedes_of_ordered {left right : List Waypoint} {o other : Outline}
    (ordered : Ordered (left ++ right)) (before : o.waypoint ∈ left)
    (behind : other.waypoint ∈ right) : o.pos.precedes other.pos = true :=
  (List.pairwise_append.mp ordered).2.2 _ before _ behind

namespace AllOn

variable {parts others : List Outline} {course left right : List Waypoint}

theorem nil : AllOn [] course :=
  ⟨List.forall_mem_nil _, fun _ => ⟨List.forall_mem_nil _, .nil⟩⟩

theorem append (here : AllOn parts left) (later : AllOn others right) :
    AllOn (parts ++ others) (left ++ right) where
  found := by
    rw [nodesOfAll_append, List.forall_mem_append]
    exact ⟨fun o member => List.mem_append_left _ (here.found o member),
      fun o member => List.mem_append_right _ (later.found o member)⟩
  orderly ordered := by
    obtain ⟨onLeft, onRight, -⟩ := List.pairwise_append.mp ordered
    obtain ⟨own, inTurn⟩ := here.orderly onLeft
    obtain ⟨further, inTurnToo⟩ := later.orderly onRight
    rw [nodesOfAll_append, List.forall_mem_append, List.pairwise_append]
    refine ⟨⟨own, further⟩, inTurn, inTurnToo, fun part isPart other isOther => ?_⟩
    exact precedes_of_ordered ordered (here.found part (mem_nodesOfAll isPart))
      (later.found other (mem_nodesOfAll isOther))

/-- There may be more on the course. -/
theorem mono (on : AllOn parts left) (sublist : left.Sublist right) : AllOn parts right where
  found o member := sublist.subset (on.found o member)
  orderly ordered := on.orderly (ordered.sublist sublist)

theorem after (on : AllOn parts course) (waypoint : Waypoint) : AllOn parts (waypoint :: course) :=
  on.mono (List.sublist_cons_self _ _)

theorem before (on : AllOn parts course) (later : List Waypoint) : AllOn parts (course ++ later) :=
  on.mono (List.sublist_append_left _ _)

/-- A node in front of its parts. -/
theorem node (on : AllOn parts course) (role kind : String) (pos : Position)
    (detail : Option Detail) :
    AllOn [Outline.node role kind pos detail parts] (.node kind pos :: course) where
  found := by
    rw [nodesOfAll_singleton, List.forall_mem_cons]
    exact ⟨List.mem_cons_self, fun o member => List.mem_cons_of_mem _ (on.found o member)⟩
  orderly ordered := by
    obtain ⟨first, rest⟩ := List.pairwise_cons.mp ordered
    obtain ⟨inner, inTurn⟩ := on.orderly rest
    have own : (Outline.node role kind pos detail parts).IsOrderly :=
      ⟨fun o member => .inl (first _ (on.found o member)), inTurn⟩
    rw [nodesOfAll_singleton, List.forall_mem_cons]
    exact ⟨⟨own, inner⟩, List.pairwise_singleton _ _⟩

theorem leaf (role kind : String) (pos : Position) (detail : Option Detail)
    (course : List Waypoint) : AllOn [Outline.leaf role kind pos detail] (.node kind pos :: course) :=
  node nil role kind pos detail

section Shared

variable {head : List Waypoint} {courses : List (List Waypoint)}

/-- Nodes that share a head, each with a course of its own behind it. -/
def Share (head : List Waypoint) (part : Outline) (course : List Waypoint) : Prop :=
  AllOn [part] (head ++ course) ∧ part.waypoint ∈ course

theorem append_shared (here : AllOn parts (head ++ left)) (own : ∀ o ∈ parts, o.waypoint ∈ left)
    (later : AllOn others (head ++ right)) (owns : ∀ o ∈ others, o.waypoint ∈ right) :
    AllOn (parts ++ others) (head ++ (left ++ right)) := by
  have front : (head ++ left).Sublist (head ++ (left ++ right)) :=
    (List.sublist_append_left left right).append_left head
  have back : (head ++ right).Sublist (head ++ (left ++ right)) :=
    (List.sublist_append_right left right).append_left head
  constructor
  · rw [nodesOfAll_append, List.forall_mem_append]
    exact ⟨(here.mono front).found, (later.mono back).found⟩
  · intro ordered
    obtain ⟨inner, inTurn⟩ := (here.mono front).orderly ordered
    obtain ⟨further, inTurnToo⟩ := (later.mono back).orderly ordered
    rw [nodesOfAll_append, List.forall_mem_append, List.pairwise_append]
    refine ⟨⟨inner, further⟩, inTurn, inTurnToo, fun part isPart other isOther => ?_⟩
    -- the head says nothing of the two, but each stands on its own course
    have behind : Ordered (left ++ right) := ordered.sublist (List.sublist_append_right _ _)
    exact precedes_of_ordered behind (own part isPart) (owns other isOther)

theorem separated (each : List.Forall₂ (Share head) parts courses) :
    AllOn parts (head ++ courses.flatMap (symbol .comma :: ·)) ∧
      ∀ o ∈ parts, o.waypoint ∈ courses.flatMap (symbol .comma :: ·) := by
  induction each with
  | nil => exact ⟨nil, List.forall_mem_nil _⟩
  | @cons part course parts courses here _ ih =>
    have sublist : (head ++ course).Sublist (head ++ symbol .comma :: course) :=
      (List.sublist_cons_self _ _).append_left head
    have own : ∀ o ∈ [part], o.waypoint ∈ symbol .comma :: course :=
      List.forall_mem_singleton.mpr (List.mem_cons_of_mem _ here.2)
    refine ⟨append_shared (here.1.mono sublist) own ih.1 ih.2, ?_⟩
    exact List.forall_mem_cons.mpr ⟨List.mem_append_left _ (List.mem_cons_of_mem _ here.2),
      fun o member => List.mem_append_right _ (ih.2 o member)⟩

/-- Such nodes with commas between them. -/
theorem commas (each : List.Forall₂ (Share head) parts courses) :
    AllOn parts (head ++ Waypoint.commas courses) := by
  cases each with
  | nil => exact nil
  | cons here later =>
    obtain ⟨others, owns⟩ := separated later
    exact append_shared here.1 (List.forall_mem_singleton.mpr here.2) others owns

theorem commas_alone (each : List.Forall₂ (Share []) parts courses) :
    AllOn parts (Waypoint.commas courses) := by
  have whole := commas each
  exact whole

end Shared

end AllOn

end Outline

open Outline (AllOn)

theorem Expr.waypoint_outline (e : Expr) (role : String) :
    (e.outline role).waypoint ∈ e.course := by
  cases e <;> (rw [outline, course]; exact List.mem_cons_self)

mutual

theorem Expr.allOn (role : String) : (e : Expr) → AllOn [e.outline role] e.course
  | .bad _ | .ident _ _ | .lit _ _ _ => .leaf ..
  | .composite _ items =>
    .node (((AllOn.commas_alone (Expr.allOn_each "item" items)).before _).after _) ..
  | .paren _ inner => .node (((inner.allOn "inner").before _).after _) ..
  | .index _ base subscript =>
    .node ((base.allOn "base").append (((subscript.allOn "index").before _).after _)) ..
  | .call _ callee args =>
    .node ((callee.allOn "callee").append
      (((AllOn.commas_alone (Expr.allOn_each "arg" args)).before _).after _)) ..
  | .unary _ _ operand => .node ((operand.allOn "operand").after _) ..
  | .binary _ _ left right =>
    .node ((left.allOn "left").append ((right.allOn "right").after _)) ..

theorem Expr.allOn_each (role : String) :
    (es : List Expr) → List.Forall₂ (AllOn.Share []) (Expr.outlines role es) (Expr.courses es)
  | [] => .nil
  | e :: rest => .cons ⟨Expr.allOn role e, e.waypoint_outline role⟩ (Expr.allOn_each role rest)

end

theorem Expr.allOn_init (init : Option Expr) :
    AllOn (init.map (Expr.outline "init")).toList (Expr.initCourse init) := by
  cases init with
  | none => exact .nil
  | some e => exact (e.allOn "init").after _

theorem Expr.allOn_condition (cond : Expr) (role : String) :
    AllOn [cond.outline role] cond.conditionCourse :=
  ((cond.allOn role).before _).after _

theorem Name.allOn (name : Name) : AllOn [name.outline] name.course := .leaf ..

theorem VarDecl.isVariable (v : VarDecl) (d : Declarator) : (v.declaratorOutline d).IsVariable := by
  unfold declaratorOutline Outline.IsVariable
  cases v.isConst with
  | false => exact .inl rfl
  | true => exact .inr rfl

/-- A variable behind the head of its declaration, where its type stands. -/
theorem VarDecl.allOn_variable (v : VarDecl) {d : Declarator} (member : d ∈ v.declarators) :
    AllOn.Share v.head (v.declaratorOutline d) (d.course v.isConst) := by
  have isType : .node "Type" v.basePos ∈ v.head :=
    List.mem_append_right _ (List.mem_append_left _ (List.mem_map.mpr ⟨d, member, rfl⟩))
  have isKeyword : .anchor v.base.keyword v.basePos ∈ v.head :=
    List.mem_append_right _ (List.mem_append_right _ (List.mem_singleton_self _))
  have init : AllOn (d.init.map (Expr.outline "init")).toList (d.course v.isConst).tail :=
    (Expr.allOn_init d.init).mono ((List.sublist_append_right _ _).trans (List.sublist_cons_self _ _))
  have begins : d.course v.isConst =
      (v.declaratorOutline d).waypoint :: (d.course v.isConst).tail := rfl
  refine ⟨⟨?_, fun ordered => ⟨?_, List.pairwise_singleton _ _⟩⟩, List.mem_cons_self⟩
  · rw [Outline.nodesOfAll_singleton]
    refine List.forall_mem_cons.mpr ⟨List.mem_append_right _ List.mem_cons_self, ?_⟩
    refine List.forall_mem_cons.mpr ⟨List.mem_append_left _ isType, fun inner isInner => ?_⟩
    exact List.mem_append_right _ (List.mem_cons_of_mem _ (init.found inner isInner))
  · obtain ⟨-, own, across⟩ := List.pairwise_append.mp ordered
    rw [begins] at own across
    obtain ⟨first, rest⟩ := List.pairwise_cons.mp own
    obtain ⟨inner, inTurn⟩ := init.orderly rest
    rw [Outline.nodesOfAll_singleton]
    have type : ((v.typeOf d).outline v.basePos).IsOrderly := ⟨List.forall_mem_nil _, .nil⟩
    refine List.forall_mem_cons.mpr ⟨⟨?_, ?_⟩, List.forall_mem_cons.mpr ⟨type, inner⟩⟩
    -- the keyword lies between the type and the variable, so the type comes first
    · refine List.forall_mem_cons.mpr ⟨.inr ⟨v.isVariable d, rfl, ?_⟩, fun e isInner => .inl ?_⟩
      · exact across _ isKeyword _ List.mem_cons_self
      · exact first _ (init.found e isInner)
    · refine List.pairwise_cons.mpr ⟨fun e isPart => ?_, inTurn⟩
      have found := init.found e (Outline.mem_nodesOfAll isPart)
      exact across _ isType _ (List.mem_cons_of_mem _ found)

theorem VarDecl.allOn (v : VarDecl) (role : String) (pos : Position) :
    AllOn [v.outline role pos] (v.course pos) := by
  have each : List.Forall₂ (AllOn.Share v.head) (v.declarators.map v.declaratorOutline)
      (v.declarators.map (Declarator.course v.isConst)) := by
    rw [List.forall₂_map_left_iff, List.forall₂_map_right_iff]
    exact List.forall₂_same.mpr fun d member => v.allOn_variable member
  have whole := (AllOn.commas each).before [symbol .semicolon]
  rw [List.append_assoc] at whole
  exact whole.node role "Var" pos _

theorem Simple.allOn (role : String) (s : Simple) : AllOn [s.outline role] s.course := by
  cases s with
  | expr pos e => exact .node (e.allOn "expr") ..
  | assign pos target value =>
    exact .node ((target.allOn "lhs").append ((value.allOn "rhs").after _)) ..

theorem Simple.allOn_header (role : String) (s : Option Simple) :
    AllOn (s.map (Simple.outline role)).toList (Simple.headerCourse s) := by
  cases s with
  | none => exact .nil
  | some s => exact s.allOn role

mutual

theorem Stmt.allOn (role : String) : (s : Stmt) → AllOn [s.outline role] s.course
  | .bad _ | .empty _ => .leaf ..
  | .decl _ none => .node (.leaf ..) ..
  | .decl pos (some vars) => .node (vars.allOn "decl" pos) ..
  | .simple s => (s.allOn role).before _
  | .ret _ none => .node .nil ..
  | .ret _ (some value) => .node (((value.allOn "value").before _).after _) ..
  | .block _ body => .node (((Stmt.allOn_each "stmt" body).before _).after _) ..
  | .branch _ cond yes none =>
    .node (((cond.allOn_condition "cond").append (yes.allOn "then")).after _) ..
  | .branch _ cond yes (some no) =>
    .node (((cond.allOn_condition "cond").append
      ((yes.allOn "then").append ((no.allOn "else").after _))).after _) ..
  | .switch _ subject clauses =>
    .node (((subject.allOn_condition "cond").append
      (((Stmt.allOn_each "case" clauses).before _).after _)).after _) ..
  | .clause _ none body => .node (((Stmt.allOn_each "stmt" body).after _).after _) ..
  | .clause _ (some label) body =>
    .node (((label.allOn "label").append ((Stmt.allOn_each "stmt" body).after _)).after _) ..
  | .forLoop _ init cond next body => by
    have tail := (Simple.allOn_header "step" next).append ((body.allOn "body").after (symbol .rParen))
    have middle := (Simple.allOn_header "cond" cond).append (tail.after (symbol .semicolon))
    have whole := (Simple.allOn_header "init" init).append (middle.after (symbol .semicolon))
    have parts := ((whole.after (symbol .lParen)).after (symbol .forKw))
    rw [← List.append_assoc, ← List.append_assoc] at parts
    exact parts.node ..
  | .whileLoop _ cond body =>
    .node (((cond.allOn_condition "cond").append (body.allOn "body")).after _) ..
  | .scan _ target => .node (((target.allOn_condition "target").before _).after _) ..
  | .print _ args =>
    .node ((((AllOn.commas_alone (Expr.allOn_each "arg" args)).before _).after _).after _) ..

theorem Stmt.allOn_each (role : String) :
    (stmts : List Stmt) → AllOn (Stmt.outlines role stmts) (Stmt.courseOfAll stmts)
  | [] => .nil
  | s :: rest => (Stmt.allOn role s).append (Stmt.allOn_each role rest)

end

theorem Param.allOn (param : Param) : AllOn [param.outline] param.course := by
  have parts := (AllOn.leaf "type" "Type" param.pos (some (.text param.ty.display))
    [symbol param.ty.keyword]).append param.name.allOn
  exact parts.node ..

theorem ParamList.allOn (list : ParamList) : AllOn [list.outline] list.course := by
  have each : List.Forall₂ (AllOn.Share []) (list.params.map Param.outline)
      (list.params.map Param.course) := by
    rw [List.forall₂_map_left_iff, List.forall₂_map_right_iff]
    exact List.forall₂_same.mpr fun param _ => ⟨param.allOn, List.mem_cons_self⟩
  exact .node (((AllOn.commas_alone each).before _).after _) ..

theorem Decl.allOn (decl : Decl) : AllOn [decl.outline] decl.course := by
  cases decl with
  | bad pos => exact .leaf ..
  | func pos f =>
    have type := AllOn.leaf "type" "Type" f.returnsPos (some (.text f.returns.display))
      [symbol f.returns.keyword]
    have parts := type.append (f.name.allOn.append
      (f.params.allOn.append ((Stmt.block f.bodyPos f.body).allOn "body")))
    exact parts.node ..
  | vars pos v => exact v.allOn "decl" pos

/-- All nodes of a file, each before those inside it. -/
def File.nodes (file : File) : List Outline := Outline.nodesOfAll (file.decls.map Decl.outline)

theorem File.allOn (file : File) : AllOn (file.decls.map Decl.outline) file.course := by
  obtain ⟨name, decls⟩ := file
  unfold course
  dsimp only
  induction decls with
  | nil => exact .nil
  | cons decl rest ih => exact decl.allOn.append ih

end MiniC
