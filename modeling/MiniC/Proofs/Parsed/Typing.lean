import MiniC.Proofs.Parsed.RoundTrip
import MiniC.Proofs.Static.Files
import MiniC.Proofs.Check.Walk
import MiniC.Proofs.Stmt.Orderly
import MiniC.Proofs.Expr.Rectangular

/-!
What the checker makes of a source. If it was read without a problem, the
checker accepts it just when it keeps the rules, with one exception: a variable
with a size of 0 takes no initial value at all, although an empty literal would
fill it.

In the scopes of a source, expressions have their types and composite literals
their shapes. Nothing is assumed of the source there: it may hold any problems,
as long as the expression at hand is whole.
-/

namespace MiniC

/-- The checker reports nothing just when the file keeps the rules and nothing
empty is given an initial value. -/
theorem check_silent_iff_valid (name source : String)
    (silent : (parse name source).log.raised = []) :
    ((parse name source).file.check.run .start).log.raised = [] ↔
      (parse name source).file.Valid ∧
        ∀ v ∈ (parse name source).file.varDecls, v.LeavesEmpty :=
  (File.check_settles (parse_silent_spelled name source silent).1).isSilent_iff

namespace Accepted

def sample : String :=
  "const int N = 2; char g[2][2] = \x7b\x7b'a', 'b'\x7d, \x7b'c', 'd'\x7d\x7d;\n" ++
  "int fact(int n) \x7b if (n <= 1) return 1; else return n * fact(n - 1); \x7d\n" ++
  "void main() \x7b int i, s = N;\n" ++
  "  for (i = 0; i < N; i = i + 1) \x7b char i = 'x'; g[0][1] = i; \x7d\n" ++
  "  switch (s) \x7b case 2: printf(\"two\"); default: scanf(s); \x7d\n" ++
  "  while ((s > 0)) s = s - 1; printf(\"%d\", fact(N)); \x7d"

/-- An empty literal for an array without elements. -/
def emptyRow : String := "int a[0] = \x7b\x7d; void main() \x7b\x7d"

def place (offset : Nat) : Position := ⟨"t.c", offset, 1, offset + 1⟩

def emptyRowFile : File where
  name := "t.c"
  decls := [
    .vars (place 0)
      ⟨false, .int, place 0, [⟨⟨"a", place 4⟩, [0], some (.composite (place 11) [])⟩]⟩,
    .func (place 15) ⟨.void, place 15, ⟨"main", place 20⟩, ⟨place 24, []⟩, place 27, []⟩]

theorem emptyRowFile_valid : emptyRowFile.Valid := by
  constructor
  · exact ⟨_, List.mem_singleton_self _, rfl⟩
  · decide
  · have filled : (Expr.composite (place 11) []).Fills
        ((Env.empty.declare [⟨"a", .array .int 0, false⟩]).view) .int [0] := ⟨rfl, nofun⟩
    exact ⟨⟨fun _ same => Option.some.inj same ▸ filled, trivial⟩,
      ⟨List.nodup_nil, trivial, .inl rfl⟩, trivial⟩

end Accepted

open Accepted in
theorem check_silent_iff_valid_sample :
    (parse "w.c" sample).log.raised = [] ∧ (parse "w.c" sample).file.Valid := by
  have silent : (parse "w.c" sample).log.raised = [] := by decide +kernel
  have accepted : ((parse "w.c" sample).file.check.run .start).log.raised = [] := by
    decide +kernel
  exact ⟨silent, ((check_silent_iff_valid "w.c" sample silent).mp accepted).1⟩

open Accepted in
/-- The rules alone do not suffice. -/
theorem emptyRow_rejected : (parse "t.c" emptyRow).log.raised = [] ∧
    ¬ (((parse "t.c" emptyRow).file.check.run .start).log.raised = [] ↔
      (parse "t.c" emptyRow).file.Valid) := by
  have silent : (parse "t.c" emptyRow).log.raised = [] := by with_unfolding_all rfl
  have one : ((parse "t.c" emptyRow).file.check.run .start).log.raised.length = 1 := by
    with_unfolding_all rfl
  have reported := List.ne_nil_of_length_eq_add_one one
  have file : (parse "t.c" emptyRow).file = emptyRowFile := by with_unfolding_all rfl
  refine ⟨silent, fun same => reported (same.mpr ?_)⟩
  rw [file]
  exact emptyRowFile_valid

/-- In every scope that the checking of a source can come to, an expression is
judged in silence just when it has a type, and that type is found. What has no
type is never passed over. -/
theorem type_of_reached (name source : String) {scope : Scope}
    (reached : Reached (parse name source).file scope) {e : Expr} (noBad : e.NoBad) :
    ((e.type scope).problems = [] ↔ ∃ ty, HasType (viewOf scope) e ty) ∧
      (∀ ty, HasType (viewOf scope) e ty → (e.type scope).value = ty) ∧
        ((e.type scope).value = .invalid → (e.type scope).problems ≠ []) := by
  have decides := type_decides (reached.sound (parse_typed name source)).shows noBad
  refine ⟨decides.isSilent_iff, ?_, ?_⟩
  · exact fun ty typed => decides.value_eq typed
  · exact decides.not_isSilent

namespace TypingSample

def source : String := "int f(char c, int n) \x7b return n; \x7d int a[2][3];"

def scope : Scope := ((File.checkDecls 0 (parse "f.c" source).file.decls).run .start).state.scope

/-- The call `f('x', a[0])`, whose second argument is an element of `a`. -/
def call : Expr :=
  .call .unknown (.ident .unknown "f")
    [.lit .unknown .char "'x'",
     .index .unknown (.ident .unknown "a") (.lit .unknown .int "0")]

end TypingSample

open TypingSample in
theorem type_of_reached_sample :
    Reached (parse "f.c" source).file scope ∧ call.NoBad ∧
      ∃ ty, HasType (viewOf scope) call ty := by
  have reached : Reached (parse "f.c" source).file scope :=
    File.checkDecls_keeps 0 _ (fun _ member => member) .start .start
  have noBad : call.NoBad := by simp [call, Expr.NoBad, Expr.AllNoBad]
  have silent : (call.type scope).problems = [] := by with_unfolding_all rfl
  exact ⟨reached, noBad, (type_of_reached "f.c" source reached noBad).1.mp silent⟩

/-- A composite literal has the type of an array just when it is a grid whose
elements all have the same basic type and nothing is wrong with any of them. What
is no grid is reported once, before any element is looked at, and whatever else
is wrong is reported too. -/
theorem compositeType_of_shape (name source : String) {scope : Scope}
    (reached : Reached (parse name source).file scope) {stream : Stream} {literal : Expr}
    (read : (compositeLiteral.run stream).value = literal) (noBad : literal.NoBad) :
    let verdict := literal.compositeType scope
    (∃ outcome, Shape.descend? [] [literal] = some outcome ∧
        verdict = outcome.verdict scope literal.pos) ∧
      (∀ leaf sizes, leaf.isBasic = true →
        (verdict = ⟨.arrayOf leaf sizes, []⟩ ↔
          literal.IsGrid sizes ∧ ∀ cell ∈ literal.cells, cell.type scope = ⟨leaf, []⟩)) ∧
      ((∀ sizes, ¬ literal.IsGrid sizes) →
        ∃ problem : Problem, problem.kind = .compositeLitSizeError ∧
          ∀ any, literal.compositeType any = Verdict.reject literal.pos problem) ∧
      ((∃ leaf sizes, leaf.isBasic = true ∧ verdict = ⟨.arrayOf leaf sizes, []⟩) ∨
        verdict.problems ≠ [] ∧ verdict.value = .invalid) ∧
      ∀ declared, declared.isArray = true →
        ((checkInit declared literal scope).problems = [] ↔ verdict.value = declared) := by
  have shows := (reached.sound (parse_typed name source)).shows
  have plain : literal.IsPlain := read ▸ compositeLiteral_plain stream (read ▸ noBad)
  have isList : literal.items?.isSome := by
    obtain ⟨pos, items, same, _⟩ :=
      Composite.literal_gives (P := fun _ => True) (fun _ _ => trivial) (fun _ _ => trivial) stream
    rw [← read, same]
    rfl
  obtain ⟨outcome, ends, _, same⟩ := Shape.descend?_spec [] (List.cons_ne_nil literal [])
  refine ⟨⟨outcome, ends, same scope literal.pos⟩, ?_, compositeType_of_no_grid,
    compositeType_cases shows plain, ?_⟩
  · exact fun leaf sizes basic => compositeType_eq_iff shows plain basic sizes
  · exact fun declared isArray => checkInit_of_literal shows isList plain isArray

namespace ShapeSample

def source : String := "const int n = 1;"

def scope : Scope := ((File.checkDecls 0 (parse "n.c" source).file.decls).run .start).state.scope

/-- Two rows of two numbers. -/
def literal : Expr :=
  .composite ⟨"g.c", 0, 1, 1⟩
    [.composite ⟨"g.c", 1, 1, 2⟩
      [.ident ⟨"g.c", 2, 1, 3⟩ "n", .lit ⟨"g.c", 5, 1, 6⟩ .int "2"],
     .composite ⟨"g.c", 9, 1, 10⟩
      [.unary ⟨"g.c", 10, 1, 11⟩ .minus (.ident ⟨"g.c", 11, 1, 12⟩ "n"),
       .lit ⟨"g.c", 14, 1, 15⟩ .int "4"]]

end ShapeSample

open ShapeSample in
theorem compositeType_of_shape_sample :
    Reached (parse "n.c" source).file scope ∧
      (compositeLiteral.run (.ofScanned (.ofSource "g.c" "{{n, 2}, {-n, 4}}"))).value = literal ∧
      literal.NoBad ∧ literal.compositeType scope = ⟨.arrayOf .int [2, 2], []⟩ := by
  have reached : Reached (parse "n.c" source).file scope :=
    File.checkDecls_keeps 0 _ (fun _ member => member) .start .start
  have read : (compositeLiteral.run (.ofScanned (.ofSource "g.c" "{{n, 2}, {-n, 4}}"))).value =
      literal := by
    with_unfolding_all rfl
  have noBad : literal.NoBad := by simp [literal, Expr.NoBad, Expr.AllNoBad]
  refine ⟨reached, read, noBad, ?_⟩
  obtain ⟨_, typed, _⟩ := compositeType_of_shape "n.c" source reached read noBad
  apply (typed .int [2, 2] rfl).mpr
  constructor
  · simp [Expr.IsGrid, Expr.items?, literal]
  · simp only [literal, Expr.cells, Expr.cellsOfAll, List.cons_append, List.nil_append,
      List.forall_mem_cons]
    exact ⟨by with_unfolding_all rfl, by with_unfolding_all rfl, by with_unfolding_all rfl,
      by with_unfolding_all rfl, List.forall_mem_nil _⟩

end MiniC
