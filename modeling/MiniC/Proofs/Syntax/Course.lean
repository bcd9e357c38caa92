import MiniC.Outline
import MiniC.Proofs.Syntax.Printed

/-!
A tree printed with its nodes. The course of a tree is its printed text with a
waypoint for each node in front of the first word that the node is read from. The
variables of one declaration share its base type: their types stand in front of
the keyword, the variables themselves in front of their names. So a word of the
keyword's own is kept with its place.
-/

namespace MiniC

inductive Waypoint where
  /-- A node of the tree, by its kind and its place. -/
  | node (kind : String) (pos : Position)
  | word (written : Written)
  /-- A word that is there whatever else is missing, with its place. -/
  | anchor (kind : TokenKind) (pos : Position)

namespace Waypoint

def symbol (kind : TokenKind) : Waypoint := .word (.symbol kind)

def written? : Waypoint → Option Written
  | node _ _ => none
  | word written => some written
  | anchor kind _ => some (.symbol kind)

/-- The words along a course. -/
def text (course : List Waypoint) : List Written := course.filterMap written?

/-- Courses with a comma between each two of them. -/
def commas : List (List Waypoint) → List Waypoint
  | [] => []
  | first :: later => first ++ later.flatMap (symbol .comma :: ·)

/-- Courses with a comma after each of them. -/
def withCommas (courses : List (List Waypoint)) : List Waypoint :=
  courses.flatMap (· ++ [symbol .comma])

section Text

variable {left right : List Waypoint}

theorem text_append : text (left ++ right) = text left ++ text right := List.filterMap_append

theorem text_node (kind : String) (pos : Position) : text (.node kind pos :: left) = text left := rfl

theorem text_word (written : Written) : text (.word written :: left) = written :: text left := rfl

theorem text_symbol (kind : TokenKind) : text (symbol kind :: left) = .symbol kind :: text left := rfl

theorem text_anchor (kind : TokenKind) (pos : Position) :
    text (.anchor kind pos :: left) = .symbol kind :: text left :=
  rfl

theorem text_nil : text [] = [] := rfl

theorem text_words (written : List Written) : text (written.map .word) = written := by
  unfold text
  rw [List.filterMap_map]
  exact List.filterMap_some

theorem text_flatMap {α : Type} (f : α → List Waypoint) (as : List α) :
    text (as.flatMap f) = as.flatMap fun a => text (f a) :=
  List.filterMap_flatMap

theorem text_commas (courses : List (List Waypoint)) :
    text (commas courses) = Written.commas (courses.map text) := by
  cases courses with
  | nil => rfl
  | cons first later =>
    rw [commas, text_append, text_flatMap, List.map_cons, Written.commas, List.flatMap_map]
    rfl

end Text

section Commas

variable (courses : List (List Waypoint))

theorem commas_concat (last : List Waypoint) :
    commas (courses ++ [last]) = withCommas courses ++ last := by
  cases courses with
  | nil => exact List.append_nil last
  | cons first later => exact separated_concat (symbol .comma) first later last

theorem commas_comma {courses : List (List Waypoint)} (nonempty : courses ≠ []) :
    commas courses ++ [symbol .comma] = withCommas courses := by
  rw [← List.dropLast_concat_getLast nonempty, commas_concat]
  simp [withCommas]

end Commas

end Waypoint

open Waypoint (symbol commas)

mutual

def Expr.course : Expr → List Waypoint
  | .bad pos => [.node "BadExpr" pos]
  | .ident pos name => [.node "Ident" pos, .word (.name name)]
  | .lit pos kind text => [.node kind.rowKind pos, .word (.exact kind.token text)]
  | .composite pos items =>
    .node "CompositeLit" pos :: symbol .lBrace :: (commas (Expr.courses items) ++ [symbol .rBrace])
  | .paren pos inner =>
    .node "Paren" pos :: symbol .lParen :: (inner.course ++ [symbol .rParen])
  | .index pos base subscript =>
    .node "Index" pos ::
      (base.course ++ symbol .lBracket :: (subscript.course ++ [symbol .rBracket]))
  | .call pos callee args =>
    .node "Call" pos ::
      (callee.course ++ symbol .lParen :: (commas (Expr.courses args) ++ [symbol .rParen]))
  | .unary pos sign operand => .node "Unary" pos :: symbol sign.token :: operand.course
  | .binary pos op left right =>
    .node op.rowKind pos :: (left.course ++ symbol op.token :: right.course)

def Expr.courses : List Expr → List (List Waypoint)
  | [] => []
  | e :: rest => e.course :: Expr.courses rest

end

def Expr.initCourse : Option Expr → List Waypoint
  | none => []
  | some e => symbol .assign :: e.course

/-- An expression in parentheses, as it follows a keyword. -/
def Expr.conditionCourse (cond : Expr) : List Waypoint :=
  symbol .lParen :: (cond.course ++ [symbol .rParen])

def Name.course (name : Name) : List Waypoint :=
  [.node "Name" name.pos, .word (.name name.text)]

def Declarator.course (isConst : Bool) (d : Declarator) : List Waypoint :=
  .node (if isConst then "ConstVar" else "SingleVar") d.name.pos :: .word (.name d.name.text) ::
    ((d.sizes.flatMap printedSize).map .word ++ Expr.initCourse d.init)

/-- The keywords of a declaration, and the types in front of the one that they are. -/
def VarDecl.head (v : VarDecl) : List Waypoint :=
  (if v.isConst then [symbol .constKw] else []) ++
    (v.declarators.map (fun _ => .node "Type" v.basePos) ++ [.anchor v.base.keyword v.basePos])

def VarDecl.course (v : VarDecl) (pos : Position) : List Waypoint :=
  .node "Var" pos ::
    (v.head ++ (commas (v.declarators.map (Declarator.course v.isConst)) ++ [symbol .semicolon]))

def Simple.course : Simple → List Waypoint
  | .expr pos e => .node "ExprStmt" pos :: e.course
  | .assign pos target value =>
    .node "Assign" pos :: (target.course ++ symbol .assign :: value.course)

def Simple.headerCourse : Option Simple → List Waypoint
  | none => []
  | some s => s.course

mutual

def Stmt.course : Stmt → List Waypoint
  | .bad pos => [.node "BadStmt" pos]
  | .empty pos => [.node "Empty" pos, symbol .semicolon]
  | .decl pos none => [.node "DeclStmt" pos, .node "BadDecl" pos]
  | .decl pos (some vars) => .node "DeclStmt" pos :: vars.course pos
  | .simple s => s.course ++ [symbol .semicolon]
  | .ret pos none => [.node "Return" pos, symbol .returnKw, symbol .semicolon]
  | .ret pos (some value) =>
    .node "Return" pos :: symbol .returnKw :: (value.course ++ [symbol .semicolon])
  | .block pos body =>
    .node "Block" pos :: symbol .lBrace :: (Stmt.courseOfAll body ++ [symbol .rBrace])
  | .branch pos cond yes none =>
    .node "If" pos :: symbol .ifKw :: (cond.conditionCourse ++ yes.course)
  | .branch pos cond yes (some no) =>
    .node "If" pos :: symbol .ifKw ::
      (cond.conditionCourse ++ (yes.course ++ symbol .elseKw :: no.course))
  | .switch pos subject clauses =>
    .node "Switch" pos :: symbol .switchKw ::
      (subject.conditionCourse ++
        symbol .lBrace :: (Stmt.courseOfAll clauses ++ [symbol .rBrace]))
  | .clause pos none body =>
    .node "Default" pos :: symbol .defaultKw :: symbol .colon :: Stmt.courseOfAll body
  | .clause pos (some label) body =>
    .node "Case" pos :: symbol .caseKw ::
      (label.course ++ symbol .colon :: Stmt.courseOfAll body)
  | .forLoop pos init cond next body =>
    .node "For" pos :: symbol .forKw :: symbol .lParen ::
      (Simple.headerCourse init ++ symbol .semicolon ::
        (Simple.headerCourse cond ++ symbol .semicolon ::
          (Simple.headerCourse next ++ symbol .rParen :: body.course)))
  | .whileLoop pos cond body =>
    .node "While" pos :: symbol .whileKw :: (cond.conditionCourse ++ body.course)
  | .scan pos target =>
    .node "Scan" pos :: symbol .scanfKw :: (target.conditionCourse ++ [symbol .semicolon])
  | .print pos args =>
    .node "Printf" pos :: symbol .printfKw :: symbol .lParen ::
      (commas (Expr.courses args) ++ [symbol .rParen, symbol .semicolon])

def Stmt.courseOfAll : List Stmt → List Waypoint
  | [] => []
  | s :: rest => s.course ++ Stmt.courseOfAll rest

end

def Param.course (param : Param) : List Waypoint :=
  .node "Field" param.pos :: .node "Type" param.pos :: symbol param.ty.keyword :: param.name.course

def ParamList.course (list : ParamList) : List Waypoint :=
  .node "Params" list.pos :: symbol .lParen ::
    (commas (list.params.map Param.course) ++ [symbol .rParen])

def FuncDecl.course (f : FuncDecl) (pos : Position) : List Waypoint :=
  .node "Func" pos :: .node "Type" f.returnsPos :: symbol f.returns.keyword ::
    (f.name.course ++ (f.params.course ++ (Stmt.block f.bodyPos f.body).course))

def Decl.course : Decl → List Waypoint
  | .bad pos => [.node "BadDecl" pos]
  | .func pos f => f.course pos
  | .vars pos v => v.course pos

def File.course (file : File) : List Waypoint := file.decls.flatMap Decl.course

theorem Expr.courses_eq_map (es : List Expr) : Expr.courses es = es.map Expr.course := by
  induction es with
  | nil => rfl
  | cons e rest ih => rw [Expr.courses, ih, List.map_cons]

theorem Stmt.courseOfAll_eq (stmts : List Stmt) :
    Stmt.courseOfAll stmts = stmts.flatMap Stmt.course := by
  induction stmts with
  | nil => rfl
  | cons s rest ih => rw [Stmt.courseOfAll, ih, List.flatMap_cons]

/-- An expression begins with a node at its place. -/
theorem Expr.course_eq (e : Expr) : ∃ kind rest, e.course = .node kind e.pos :: rest := by
  cases e <;> exact ⟨_, _, by rw [course, pos]⟩

section Text

open Waypoint (text text_append text_node text_word text_symbol text_anchor text_nil text_words
  text_flatMap text_commas)

mutual

theorem Expr.text_course : (e : Expr) → text e.course = e.printed
  | .bad _ | .ident _ _ | .lit _ _ _ => rfl
  | .composite pos items => by
    simp [course, printed, text_node, text_symbol, text_append, text_commas, text_nil,
      text_courses items]
  | .paren pos inner => by
    simp [course, printed, text_node, text_symbol, text_append, text_nil, text_course inner]
  | .index pos base subscript => by
    simp [course, printed, text_node, text_symbol, text_append, text_nil, text_course base,
      text_course subscript]
  | .call pos callee args => by
    simp [course, printed, text_node, text_symbol, text_append, text_commas, text_nil,
      text_course callee, text_courses args]
  | .unary pos sign operand => by
    simp [course, printed, text_node, text_symbol, text_course operand]
  | .binary pos op left right => by
    simp [course, printed, text_node, text_symbol, text_append, text_course left,
      text_course right]

theorem Expr.text_courses : (es : List Expr) → (Expr.courses es).map text = Expr.printedEach es
  | [] => rfl
  | e :: rest => by rw [courses, List.map_cons, printedEach, text_course e, text_courses rest]

end

theorem Expr.text_initCourse (init : Option Expr) : text (initCourse init) = printedInit init := by
  cases init with
  | none => rfl
  | some e => rw [initCourse, text_symbol, e.text_course, printedInit]

theorem Expr.text_conditionCourse (cond : Expr) :
    text cond.conditionCourse = cond.printedCondition := by
  simp [conditionCourse, printedCondition, text_symbol, text_append, text_nil, cond.text_course]

theorem Declarator.text_course (isConst : Bool) (d : Declarator) :
    text (d.course isConst) = d.printed := by
  simp [course, printed, text_node, text_word, text_append, text_words, Expr.text_initCourse]

theorem VarDecl.text_head (v : VarDecl) :
    text v.head =
      (if v.isConst then [.symbol .constKw] else []) ++ [.symbol v.base.keyword] := by
  have types : text (v.declarators.map fun _ => .node "Type" v.basePos) = [] := by
    induction v.declarators with
    | nil => rfl
    | cons d rest ih => exact ih
  rw [head, text_append, text_append, types]
  cases v.isConst <;> rfl

theorem VarDecl.text_course (v : VarDecl) (pos : Position) : text (v.course pos) = v.printed := by
  have each : (v.declarators.map (Declarator.course v.isConst)).map text =
      v.declarators.map Declarator.printed := by
    rw [List.map_map]
    exact List.map_congr_left fun d _ => d.text_course v.isConst
  rw [course, text_node, text_append, text_append, text_head, text_commas, each, printed,
    List.append_assoc, List.append_assoc]
  rfl

theorem Simple.text_course (s : Simple) : text s.course = s.printed := by
  cases s <;> simp [course, printed, text_node, text_append, text_symbol, Expr.text_course]

theorem Simple.text_headerCourse (s : Option Simple) : text (headerCourse s) = printedHeader s := by
  cases s with
  | none => rfl
  | some s => exact s.text_course

mutual

theorem Stmt.text_course : (s : Stmt) → text s.course = s.printed
  | .bad _ | .empty _ | .decl _ none | .ret _ none => rfl
  | .decl pos (some vars) => vars.text_course pos
  | .simple s => by simp [course, printed, text_append, text_symbol, text_nil, s.text_course]
  | .ret pos (some value) => by
    simp [course, printed, text_node, text_symbol, text_append, text_nil, value.text_course]
  | .block pos body => by
    simp [course, printed, text_node, text_symbol, text_append, text_nil, text_courseOfAll body]
  | .branch pos cond yes none => by
    simp [course, printed, text_node, text_symbol, text_append, cond.text_conditionCourse,
      text_course yes]
  | .branch pos cond yes (some no) => by
    simp [course, printed, text_node, text_symbol, text_append, cond.text_conditionCourse,
      text_course yes, text_course no]
  | .switch pos subject clauses => by
    simp [course, printed, text_node, text_symbol, text_append, text_nil,
      subject.text_conditionCourse, text_courseOfAll clauses]
  | .clause pos none body => by
    simp [course, printed, Expr.printedLabel, text_node, text_symbol, text_courseOfAll body]
  | .clause pos (some label) body => by
    simp [course, printed, Expr.printedLabel, text_node, text_symbol, text_append,
      label.text_course, text_courseOfAll body]
  | .forLoop pos init cond next body => by
    simp [course, printed, text_node, text_symbol, text_append, Simple.text_headerCourse,
      text_course body]
  | .whileLoop pos cond body => by
    simp [course, printed, text_node, text_symbol, text_append, cond.text_conditionCourse,
      text_course body]
  | .scan pos target => by
    simp [course, printed, text_node, text_symbol, text_append, text_nil,
      target.text_conditionCourse]
  | .print pos args => by
    simp [course, printed, text_node, text_symbol, text_append, text_commas, text_nil,
      Expr.text_courses args]

theorem Stmt.text_courseOfAll : (stmts : List Stmt) → text (courseOfAll stmts) = printedAll stmts
  | [] => rfl
  | s :: rest => by
    rw [courseOfAll, text_append, printedAll, text_course s, text_courseOfAll rest]

end

theorem FuncDecl.text_course (f : FuncDecl) (pos : Position) : text (f.course pos) = f.printed := by
  have params : (f.params.params.map Param.course).map text = f.params.params.map Param.printed := by
    rw [List.map_map]
    exact List.map_congr_left fun _ _ => rfl
  simp [course, printed, Name.course, ParamList.course, Stmt.text_course, Stmt.printed, text_node,
    text_word, text_symbol, text_append, text_commas, params]

theorem Decl.text_course (decl : Decl) : text decl.course = decl.printed := by
  cases decl with
  | bad => rfl
  | func pos f => exact f.text_course pos
  | vars pos v => exact v.text_course pos

/-- Without its nodes the course of a file is the file printed. -/
theorem File.text_course (file : File) : text file.course = file.printed := by
  unfold course printed
  rw [text_flatMap]
  exact congrArg (file.decls.flatMap ·) (funext Decl.text_course)

end Text

end MiniC
