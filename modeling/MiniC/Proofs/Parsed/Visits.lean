import MiniC.Proofs.Parsed.Placeholders
import MiniC.Proofs.Parsed.Scanning
import MiniC.Proofs.Stmt.Nodes
import MiniC.Proofs.Stmt.Visits

/-!
No expression is checked twice. The nodes of a file are all different, as all but
operations have places of their own, and the check goes to none of them a second time.
So a name is reported to be undefined once at most, even before the report drops what
stands at one place.
-/

namespace MiniC

open MiniC.Expr (anchorsOfAll partsOfAll)

section Lists

variable {α β : Type} {left right : List α}

theorem filterMap_subperm (within : left.Subperm right) (f : α → Option β) :
    (left.filterMap f).Subperm (right.filterMap f) := by
  obtain ⟨middle, same, inside⟩ := within
  exact ⟨middle.filterMap f, same.filterMap f, inside.filterMap f⟩

theorem nodup_of_subperm (within : left.Subperm right) (nodup : right.Nodup) : left.Nodup := by
  obtain ⟨middle, same, inside⟩ := within
  exact (nodup.sublist inside).perm same

end Lists

section Reading

/-- What a parser raises of its own is no problem of the check. -/
theorem Remark.event_syntactic (remark : Remark) :
    ∀ d ∈ Log.raised [remark.event], d.kind.phase ≠ .checking := by
  cases remark with
  | problem pos cause =>
    refine List.forall_mem_singleton.mpr ?_
    cases cause with
    | missing wanted found =>
      cases wanted with
      | token kind => cases kind <;> nofun
      | _ => nofun
    | _ => nofun
  | _ => exact List.forall_mem_nil _

theorem Passage.syntactic {stream rest : Stream} {log : Log} (passage : Passage stream log rest)
    (lexical : ∀ lexeme ∈ stream.later, lexeme.IsLexical) :
    ∀ d ∈ log.raised, d.kind.phase ≠ .checking := by
  induction passage with
  | stay => exact List.forall_mem_nil _
  | @remark stream rest log remark way ih =>
    rw [← List.singleton_append, Log.raised_append]
    exact List.forall_mem_append.mpr ⟨remark.event_syntactic, ih lexical⟩
  | @pass stream rest log more way ih =>
    rw [Stream.later_eq more] at lexical
    obtain ⟨here, later⟩ := List.forall_mem_cons.mp lexical
    rw [Log.raised_append, Stream.raised_arrival]
    refine List.forall_mem_append.mpr ⟨fun d isFault => ?_, ih later⟩
    rw [here d isFault]
    nofun
  | linger done way ih => exact ih lexical

/-- Reading raises nothing that the check does. -/
theorem parse_raised_syntactic (name source : String) :
    ∀ d ∈ (parse name source).log.raised, d.kind.phase ≠ .checking := by
  let scanned := Scanned.ofSource name source
  let stream := Stream.ofScanned scanned
  have lexical : ∀ lexeme ∈ stream.current :: stream.later, lexeme.IsLexical := by
    rw [Stream.current_later_ofScanned name source]
    exact (Cursor.scanAll_found _).1
  obtain ⟨first, others⟩ := List.forall_mem_cons.mp lexical
  change ∀ d ∈ Log.raised (stream.arrival ++ _), _
  rw [Log.raised_append, Stream.raised_arrival]
  refine List.forall_mem_append.mpr ⟨fun d isFault => ?_, ?_⟩
  · rw [first d isFault]
    nofun
  · exact ((fileParser name scanned.lineCount).passage stream).syntactic others

end Reading

section Nodes

variable (name source : String)

/-- The anchors of the expressions of a file are at known lines, and ascend. -/
theorem parse_anchors : ∃ low high places, Ascent low places high ∧
    (anchorsOfAll (parse name source).file.exprs).Sublist places := by
  obtain ⟨low, high, ascent⟩ := parse_places_ascend name source
  exact ⟨low, high, _, ascent, (parse_isInShape name source).anchors⟩

theorem parse_nodes_nodup : (partsOfAll (parse name source).file.exprs).Nodup := by
  obtain ⟨low, high, places, ascent, within⟩ := parse_anchors name source
  have rooted : Expr.AllRooted (parse name source).file.exprs :=
    (Expr.allRooted_iff _).mpr <| List.forall_mem_flatMap.mpr fun decl member =>
      (parse_rooted name source decl member).exprs
  refine Expr.partsOfAll_nodup _ rooted (List.Nodup.sublist within ?_)
  refine ascent.pairwise.imp ?_
  rintro p q before rfl
  exact Nat.lt_irrefl _ before

/-- The names that are found undefined are found so by the check. -/
theorem undefinedPlaces_work :
    let compilation := compile name source
    undefinedPlaces compilation.work.raised =
      undefinedPlaces (compilation.file.check.run .start).log.raised := by
  intro compilation
  have quiet : undefinedPlaces compilation.readingLog.raised = [] := by
    apply List.map_eq_nil_iff.mpr
    apply List.filter_eq_nil_iff.mpr
    intro d member isUndefined
    have phase := parse_raised_syntactic name source d member
    rw [of_decide_eq_true isUndefined] at phase
    exact phase rfl
  rw [Compilation.work, Log.raised_append, undefinedPlaces_append, quiet, List.nil_append]
  rfl

/-- Reports at different anchors are at different lines and columns. -/
theorem spots_nodup {raised : List Diagnostic}
    (isRaised : ∀ d ∈ raised, d ∈ (compile name source).work.raised)
    (anchored : (raised.map (·.pos)).Subperm (anchorsOfAll (parse name source).file.exprs)) :
    (raised.map (·.pos.spot)).Nodup := by
  obtain ⟨low, high, places, ascent, within⟩ := parse_anchors name source
  have inPlaces : (raised.map (·.pos)).Subperm places := anchored.trans within.subperm
  have valid (d : Diagnostic) (member : d ∈ raised) : d.pos.isValid = true :=
    (ascent.forall_mem _ (inPlaces.subset (List.mem_map_of_mem member))).1
  have offsets : (places.map (·.offset)).Nodup :=
    List.pairwise_map.mpr (ascent.pairwise.imp Nat.ne_of_lt)
  have apart : (raised.map (·.pos.offset)).Nodup := by
    obtain ⟨middle, same, inside⟩ := inPlaces
    have inOrder := (offsets.sublist (inside.map _)).perm (same.map _)
    rwa [List.map_map] at inOrder
  refine List.pairwise_map.mpr ((List.pairwise_map.mp apart).imp_of_mem ?_)
  intro d e isFirst isSecond differ same
  exact differ ((Compilation.spot_eq_iff (isRaised d isFirst) (isRaised e isSecond)
    (valid d isFirst) (valid e isSecond)).mp same)

end Nodes

/-- Whatever the source is, the nodes of the file are all different, and the check goes to
none of them twice; where it looks at an expression outside of braces it goes to all of it.
Each report of an undefined name is for a name that it went to, with no two for one, and no
two of them, whether the report keeps them or not, have the same line and column. -/
theorem expressions_checked_once (name source : String) :
    let compilation := compile name source
    let file := compilation.file
    let visited := file.watch.visited .start
    let undefined := compilation.work.raised.filter (·.kind = .undefine)
    file.watch.checker = file.check ∧
      (partsOfAll file.exprs).Nodup ∧ visited.Nodup ∧ visited ⊆ partsOfAll file.exprs ∧
      (∀ looked ∈ file.watch.seen .start,
        looked.1.IsUnbraced → looked.1.parts ⊆ visited) ∧
      (undefined.map (·.pos)).Subperm (visited.filterMap Expr.namePlace?) ∧
      (undefined.map (·.pos.spot)).Nodup := by
  intro compilation file visited undefined
  have walked : file.watch.Traverses file.exprs :=
    File.watch_traverses (parse_isInShape name source)
  have erased : file.watch.checker = file.check := file.watch_checker
  have nodes : (partsOfAll file.exprs).Nodup := parse_nodes_nodup name source
  have once : visited.Subperm (partsOfAll file.exprs) := walked.once .start
  have named : (undefined.map (·.pos)).Subperm (visited.filterMap Expr.namePlace?) := by
    change (undefinedPlaces compilation.work.raised).Subperm _
    rw [undefinedPlaces_work, ← erased]
    exact walked.undefined .start
  have anchored : (undefined.map (·.pos)).Subperm (anchorsOfAll file.exprs) :=
    named.trans ((filterMap_subperm once _).trans (Expr.namePlacesOfAll_sublist _).subperm)
  have isRaised (d : Diagnostic) (member : d ∈ undefined) : d ∈ compilation.work.raised :=
    (List.mem_filter.mp member).1
  exact ⟨erased, nodes, nodup_of_subperm once nodes, once.subset, walked.whole .start, named,
    spots_nodup name source isRaised anchored⟩

/-- The nodes that are gone to, each by its offset and the number of nodes in it: the
comparison, its left side from the outside in, but a subscript before what it applies to,
and the call. -/
example :
    ((parse "t.c" "void main() \x7b if ((b[c]) < f(-d)) ; \x7d").file.watch.visited .start).map
        (fun e => (e.pos.offset, e.parts.length)) =
      [(18, 9), (18, 4), (19, 3), (21, 1), (19, 1), (27, 4), (27, 1), (29, 2), (30, 1)] := by
  decide +kernel

end MiniC
