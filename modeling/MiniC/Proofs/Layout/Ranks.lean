import Mathlib.Data.List.Nodup
import MiniC.Proofs.Diagnostic.Latest
import MiniC.Proofs.Layout.Moves
import MiniC.Proofs.Token.Places

/-!
Tokens by their ranks. Which remark replaces which and in which order they are shown
depends on how their places compare, and on nothing else about them. Where the tokens
of a source stand is replaced by how many stand before them. That keeps the order of
places, and leaves nothing of a source without faults but the kinds and texts of its
tokens.
-/

namespace MiniC

/-- A move that keeps which of these places are known, and how those compare. -/
structure KeepsOrder (move : Position → Position) (places : Position → Prop) : Prop where
  valid : ∀ p, places p → (move p).isValid = p.isValid
  order : ∀ p q, places p → places q → p.isValid = true → q.isValid = true →
    (move p).compareSpot (move q) = p.compareSpot q

namespace Report

variable {move : Position → Position} {places : Position → Prop}

/-- The remarks stand at some of these places, and at known ones. -/
def ArePlaced (places : Position → Prop) (list : List Diagnostic) : Prop :=
  ∀ d ∈ list, places d.pos ∧ d.pos.isValid = true

def relocate (move : Position → Position) (report : Report) : Report :=
  ⟨relocateAll move report.placed, relocateAll move report.unplaced,
    relocateAll move report.history⟩

theorem ArePlaced.enter {d : Diagnostic} (here : places d.pos) (valid : d.pos.isValid = true)
    {list : List Diagnostic} (placed : ArePlaced places list) :
    ArePlaced places (enter d list) := by
  induction list with
  | nil => exact List.forall_mem_singleton.mpr ⟨here, valid⟩
  | cons e rest ih =>
    obtain ⟨first, others⟩ := List.forall_mem_cons.mp placed
    rw [enter_cons]
    cases d.pos.compareSpot e.pos with
    | gt => exact List.forall_mem_cons.mpr ⟨⟨here, valid⟩, placed⟩
    | eq => exact List.forall_mem_cons.mpr ⟨⟨here, valid⟩, others⟩
    | lt => exact List.forall_mem_cons.mpr ⟨first, ih others⟩

theorem relocate_enter (keeps : KeepsOrder move places) {d : Diagnostic} (here : places d.pos)
    (valid : d.pos.isValid = true) {list : List Diagnostic} (placed : ArePlaced places list) :
    enter (d.relocate move) (relocateAll move list) = relocateAll move (enter d list) := by
  induction list with
  | nil => rfl
  | cons e rest ih =>
    obtain ⟨⟨isPlace, isValid⟩, others⟩ := List.forall_mem_cons.mp placed
    -- a remark is entered by how its place compares
    have same : (d.relocate move).pos.compareSpot (e.relocate move).pos =
        d.pos.compareSpot e.pos := keeps.order _ _ here isPlace valid isValid
    have later := ih others
    unfold relocateAll at later ⊢
    rw [List.map_cons, enter_cons, enter_cons, same, later]
    cases d.pos.compareSpot e.pos <;> rfl

theorem ArePlaced.add {report : Report} (placed : ArePlaced places report.placed) {d : Diagnostic}
    (here : places d.pos) : ArePlaced places (report.add d).placed := by
  unfold Report.add
  split
  · next valid => exact placed.enter here valid
  · exact placed

theorem relocate_add (keeps : KeepsOrder move places) {report : Report}
    (placed : ArePlaced places report.placed) {d : Diagnostic} (here : places d.pos) :
    (report.relocate move).add (d.relocate move) = (report.add d).relocate move := by
  have valid : (d.relocate move).pos.isValid = d.pos.isValid := keeps.valid _ here
  unfold add
  rw [valid]
  by_cases isValid : d.pos.isValid = true
  · rw [if_pos isValid, if_pos isValid]
    unfold relocate
    rw [relocate_enter keeps here isValid placed]
    rfl
  · rw [if_neg isValid, if_neg isValid]
    unfold relocate relocateAll
    rw [List.map_append]
    rfl

/-- The report on moved remarks is the report, with its remarks moved. -/
theorem relocate_ofRaised (keeps : KeepsOrder move places) {raised : List Diagnostic}
    (within : ∀ d ∈ raised, places d.pos) :
    ofRaised (relocateAll move raised) = (ofRaised raised).relocate move := by
  suffices all : ∀ report : Report, ArePlaced places report.placed →
      (report.relocate move).addAll (relocateAll move raised) =
        (report.addAll raised).relocate move from all .empty nofun
  unfold addAll
  induction raised with
  | nil => exact fun _ _ => rfl
  | cons d rest ih =>
    obtain ⟨here, others⟩ := List.forall_mem_cons.mp within
    intro report placed
    have first := relocate_add keeps placed here
    have later := ih others (report.add d) (placed.add here)
    rw [← first] at later
    exact later

theorem relocate_toList (report : Report) :
    (report.relocate move).toList = relocateAll move report.toList := by
  unfold toList relocate relocateAll
  rw [List.map_append, List.map_reverse]

end Report

namespace Position

/-- The place that stands for the token behind `rank` others. -/
def ofRank (rank : Nat) : Position := ⟨"", 0, rank + 1, 1⟩

/-- The rank of a place among these; no place that is not among them is known. -/
def rankIn (places : List Position) (p : Position) : Position :=
  if p ∈ places then ofRank (places.idxOf p) else unknown

/-- Forgets all places but these. -/
def within (places : List Position) (p : Position) : Position :=
  if p ∈ places then p else unknown

theorem compareSpot_swap (left right : Position) :
    (left.compareSpot right).swap = right.compareSpot left := by
  unfold compareSpot
  rw [Ordering.swap_then, Nat.compare_swap, Nat.compare_swap]

theorem compareSpot_self (p : Position) : p.compareSpot p = .eq := by
  unfold compareSpot
  rw [Std.compare_self, Std.compare_self]
  rfl

theorem compareSpot_ofRank (left right : Nat) :
    (ofRank left).compareSpot (ofRank right) = compare left right := by
  unfold compareSpot ofRank
  dsimp only
  rw [Std.compare_self, Ordering.then_eq, Nat.compare_eq_ite_lt, Nat.compare_eq_ite_lt]
  simp only [Nat.add_lt_add_iff_right]

/-- Places one behind the other. -/
structure Ordered (places : List Position) : Prop where
  increasing : places.Pairwise fun left right => left.compareSpot right = .lt
  valid : ∀ p ∈ places, p.isValid = true

namespace Ordered

variable {places : List Position} (ordered : Ordered places)

include ordered

theorem nodup : places.Nodup := by
  apply ordered.increasing.imp
  rintro left _ before rfl
  rw [compareSpot_self] at before
  cases before

theorem unknown_not_mem : unknown ∉ places := fun member => by
  have known := ordered.valid unknown member
  simp [isValid, unknown] at known

theorem rankIn_getElem (i : Nat) (bound : i < places.length) :
    rankIn places places[i] = ofRank i := by
  unfold rankIn
  rw [if_pos (List.getElem_mem bound), ordered.nodup.idxOf_getElem]

theorem compareSpot_getElem (i j : Nat) (left : i < places.length) (right : j < places.length) :
    places[i].compareSpot places[j] = compare i j := by
  -- places of different ranks are different, and in the order of the ranks
  have before := List.pairwise_iff_getElem.mp ordered.increasing
  rcases Nat.lt_trichotomy i j with less | rfl | more
  · rw [before i j left right less, Nat.compare_eq_lt.mpr less]
  · rw [compareSpot_self, Std.compare_self]
  · rw [← compareSpot_swap, before j i right left more, Nat.compare_eq_gt.mpr more]
    rfl

theorem keepsOrder : KeepsOrder (rankIn places) fun p => p ∈ places ∨ p = unknown := by
  constructor
  · rintro p (member | rfl)
    · unfold rankIn
      rw [if_pos member, ordered.valid p member]
      rfl
    · unfold rankIn
      rw [if_neg ordered.unknown_not_mem]
  · rintro p q (isLeft | rfl) (isRight | rfl) leftValid rightValid
    · obtain ⟨i, left, rfl⟩ := List.getElem_of_mem isLeft
      obtain ⟨j, right, rfl⟩ := List.getElem_of_mem isRight
      rw [ordered.rankIn_getElem, ordered.rankIn_getElem, compareSpot_ofRank,
        ordered.compareSpot_getElem]
    · cases rightValid
    · cases leftValid
    · cases leftValid

end Ordered

end Position

open Position

namespace Scanned

def places (scanned : Scanned) : List Position := scanned.tokens.map (·.pos)

/-- The kinds and texts of the tokens, the end among them. -/
def spellings (scanned : Scanned) : List (TokenKind × String) :=
  scanned.tokens.map fun token => (token.kind, token.text)

/-- Lexemes of these kinds and texts, placed by rank. -/
def ranked (spellings : List (TokenKind × String)) : List Lexeme :=
  spellings.mapIdx fun i spelling => ⟨⟨spelling.1, spelling.2, ofRank i⟩, []⟩

theorem faults_eq_nil {scanned : Scanned} (quiet : scanned.faults = []) :
    ∀ lexeme ∈ scanned.all, lexeme.faults = [] :=
  List.flatMap_eq_nil_iff.mp quiet

theorem relocate_all {scanned : Scanned} (ordered : Ordered scanned.places)
    (quiet : scanned.faults = []) :
    scanned.all.map (Lexeme.relocate (rankIn scanned.places)) = ranked scanned.spellings := by
  apply List.ext_getElem
  · simp [ranked, spellings, tokens]
  · intro i left right
    rw [List.length_map] at left
    have place : rankIn scanned.places scanned.all[i].token.pos = ofRank i := by
      have bound : i < scanned.places.length := by simpa [places, tokens] using left
      rw [← ordered.rankIn_getElem i bound]
      simp [places, tokens]
    have none := faults_eq_nil quiet scanned.all[i] (List.getElem_mem left)
    simp [ranked, spellings, tokens, Lexeme.relocate, Token.relocate, place, none]

/-- Placed by rank, sources with the same spellings give one stream. -/
theorem relocate_stream_eq {left right : Scanned} (leftOrdered : Ordered left.places)
    (rightOrdered : Ordered right.places) (leftQuiet : left.faults = [])
    (rightQuiet : right.faults = []) (same : left.spellings = right.spellings) :
    (Stream.ofScanned left).relocate (rankIn left.places) =
      (Stream.ofScanned right).relocate (rankIn right.places) := by
  have all := (relocate_all leftOrdered leftQuiet).trans
    ((congrArg ranked same).trans (relocate_all rightOrdered rightQuiet).symm)
  -- the last lexeme is the one at the end, the others come before it
  unfold Scanned.all at all
  rw [List.map_append, List.map_append] at all
  obtain ⟨lexemes, ending⟩ := List.append_inj' all rfl
  have last := List.singleton_inj.mp ending
  apply Stream.ext_tokens
  · exact lexemes
  · exact congrArg (fun lexeme : Lexeme => lexeme.token.pos) last
  · exact congrArg Lexeme.faults last

/-- Nothing moves as long as the places of the lexemes stay. -/
theorem relocate_within {scanned : Scanned} {kept : List Position}
    (all : ∀ p ∈ scanned.all.flatMap Lexeme.places, p ∈ kept) :
    (Stream.ofScanned scanned).relocate (within kept) = Stream.ofScanned scanned := by
  have still (lexeme : Lexeme) (member : lexeme ∈ scanned.all) :
      lexeme.relocate (within kept) = lexeme := by
    have own (p : Position) (isOwn : p ∈ lexeme.places) : within kept p = p :=
      if_pos (all p (List.mem_flatMap.mpr ⟨lexeme, member, isOwn⟩))
    have token : lexeme.token.relocate (within kept) = lexeme.token :=
      congrArg (Token.mk lexeme.token.kind lexeme.token.text) (own _ List.mem_cons_self)
    have faults : relocateAll (within kept) lexeme.faults = lexeme.faults := by
      apply (List.map_congr_left _).trans (List.map_id' _)
      intro d isFault
      exact congrArg (Diagnostic.mk · d.kind d.message)
        (own _ (List.mem_cons_of_mem _ (List.mem_map_of_mem isFault)))
    exact (Lexeme.mk.injEq ..).mpr ⟨token, faults⟩
  have last := still scanned.ending (List.mem_append_right _ (List.mem_singleton_self _))
  apply Stream.ext_tokens
  · have each : ∀ lexeme ∈ scanned.lexemes, lexeme.relocate (within kept) = lexeme :=
      fun lexeme member => still lexeme (List.mem_append_left _ member)
    exact (List.map_congr_left each).trans (List.map_id' _)
  · exact congrArg (fun lexeme : Lexeme => lexeme.token.pos) last
  · exact congrArg Lexeme.faults last

end Scanned

end MiniC
