import MiniC.Proofs.Parsed.Scanning
import MiniC.Proofs.Stmt.Along
import MiniC.Proofs.Stmt.Expressions
import MiniC.Proofs.Token.Places

/-!
The nodes of a file stand where its tokens do, in the order of the source. Read
closely, that is with nothing to report, each stands at the first token of what it
was read from; read loosely it still stands at some token, with what it holds behind.
-/

namespace MiniC

open MiniC.Parser

theorem ofScanned_increases (name source : String) :
    (Stream.ofScanned (Scanned.ofSource name source)).Increases := by
  have increasing := (Scanned.tokens_ordered name source).1
  rw [Scanned.tokens, List.map_map, List.pairwise_map] at increasing
  unfold Stream.Increases
  rwa [Stream.all_ofScanned]

/-- The current token of any rest is one of the source. -/
theorem token_mem_of_isRest {name source : String} {r : Stream}
    (isRest : r.IsRest (Stream.ofScanned (Scanned.ofSource name source))) :
    r.token ∈ (Scanned.ofSource name source).tokens := by
  have member := isRest.current_mem
  rw [Stream.all_ofScanned] at member
  exact List.mem_map_of_mem member

/-- Where a file was read from. It need not be close, unless nothing was reported. -/
theorem parse_along {close : Prop} (name source : String)
    (silent : close → (parse name source).log.raised = []) :
    ∃ r, Along close (parse name source).file.course
      (Stream.ofScanned (Scanned.ofSource name source)) r := by
  refine ⟨_, fileParser_follows name (Scanned.ofSource name source).lineCount _ fun holds => ?_⟩
  have parts := silent holds
  change Log.raised (_ ++ _) = [] at parts
  rw [Log.raised_append, List.append_eq_nil_iff] at parts
  exact ⟨Scanned.ofSource_exact name source, parts.2⟩

/-- Whatever the source is, every node of the file stands at a known place, that of a
token or of the end. An operation stands where its first operand does. A node stands
before all nodes inside it or where they do, unless it is a variable and that node its
type, which stands before it, at the keyword of the declaration; and the parts of a node
stand one behind the other or at one place. All nodes lie on the course of the file,
which is the file printed but for them; and there each stands at the first token of its
text, if nothing was reported. -/
theorem nodes_follow_source (name source : String) :
    let scanned := Scanned.ofSource name source
    let file := (parse name source).file
    (∀ node ∈ file.nodes, node.pos.isValid = true ∧ node.pos ∈ scanned.tokens.map (·.pos)) ∧
      (∀ e ∈ file.exprs, e.IsRooted) ∧
      ((∀ node ∈ file.nodes, node.IsOrderly) ∧
        (file.decls.map Decl.outline).Pairwise (·.pos.precedes ·.pos = true)) ∧
      (∀ kind pos, .anchor kind pos ∈ file.course →
        ∃ token ∈ scanned.tokens, token.kind = kind ∧ token.pos = pos) ∧
      (Waypoint.text file.course = file.printed ∧ ∀ node ∈ file.nodes, node.waypoint ∈ file.course) ∧
      ((parse name source).log.raised = [] → ∀ before kind pos behind,
        file.course = before ++ .node kind pos :: behind →
          (scanned.tokens[(Waypoint.text before).length]?).map (·.pos) = some pos) := by
  intro scanned file
  -- every file has been read loosely, and the silent ones closely as well
  obtain ⟨_, along⟩ : ∃ r, Along False file.course (Stream.ofScanned scanned) r :=
    parse_along name source False.elim
  have on := file.allOn
  have token (waypoint : Waypoint) (member : waypoint ∈ file.course) :
      ∃ token ∈ scanned.tokens, waypoint.IsAt token := by
    obtain ⟨later, isRest, isAt⟩ := along.exists_token member
    exact ⟨later.token, token_mem_of_isRest isRest, isAt⟩
  refine ⟨?_, ?_, ?_, ?_, ⟨file.text_course, on.found⟩, ?_⟩
  · intro node isNode
    obtain ⟨token, member, same⟩ := token node.waypoint (on.found node isNode)
    have valid := (Scanned.tokens_ordered name source).2 token member
    have isAt : token.pos = node.pos := same
    rw [isAt] at valid
    exact ⟨valid, isAt ▸ List.mem_map_of_mem member⟩
  · exact parse_exprs compositeLiteral_rooted (fun n _ => expression_rooted n) name source
  · exact on.orderly (along.ordered (ofScanned_increases name source))
  · exact fun kind pos member => token (.anchor kind pos) member
  · intro silent before kind pos behind split
    obtain ⟨r, close⟩ : ∃ r, Along True file.course (Stream.ofScanned scanned) r :=
      parse_along name source fun _ => silent
    rw [split] at close
    obtain ⟨middle, sooner, later⟩ := close.split
    have here := sooner.isRest.getElem_all (sooner.remaining trivial)
    rw [Stream.all_ofScanned] at here
    rw [Scanned.tokens, List.getElem?_map, here, later.pos_eq trivial]
    rfl

/-- Two variables, the type of both in front of the first. -/
def pairOfVariables : String := "int a, b;"

theorem nodes_follow_source_pair :
    (parse "pair.c" pairOfVariables).log.raised = [] ∧
      (parse "pair.c" pairOfVariables).file.nodes.map (fun node => (node.kind, node.pos.column)) =
        [("Var", 1), ("SingleVar", 5), ("Type", 1), ("SingleVar", 8), ("Type", 1)] ∧
      ∃ before behind, (parse "pair.c" pairOfVariables).file.course =
          before ++ .node "SingleVar" ⟨"pair.c", 7, 1, 8⟩ :: behind ∧
        ((Scanned.ofSource "pair.c" pairOfVariables).tokens[(Waypoint.text before).length]?).map
          (·.pos) = some ⟨"pair.c", 7, 1, 8⟩ := by
  have silent : (parse "pair.c" pairOfVariables).log.raised = [] := by with_unfolding_all rfl
  have course : (parse "pair.c" pairOfVariables).file.course =
      [.node "Var" ⟨"pair.c", 0, 1, 1⟩, .node "Type" ⟨"pair.c", 0, 1, 1⟩,
        .node "Type" ⟨"pair.c", 0, 1, 1⟩, .anchor .intKw ⟨"pair.c", 0, 1, 1⟩,
        .node "SingleVar" ⟨"pair.c", 4, 1, 5⟩, .word (.name "a"), .symbol .comma] ++
      .node "SingleVar" ⟨"pair.c", 7, 1, 8⟩ :: [.word (.name "b"), .symbol .semicolon] := by
    with_unfolding_all rfl
  obtain ⟨_, _, _, _, _, starts⟩ := nodes_follow_source "pair.c" pairOfVariables
  exact ⟨silent, by decide +kernel, _, _, course, starts silent _ _ _ _ course⟩

end MiniC
