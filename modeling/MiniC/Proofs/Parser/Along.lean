import MiniC.Proofs.Parser.Ascends
import MiniC.Proofs.Syntax.Outlined

/-!
Courses along the tokens of a source. Every waypoint lies at a token that is still
to be read when it is reached: a node at the current token, and behind each word
the token of that word is passed. A close course passes just the tokens of its
words. On a loose one a word may be missing, and tokens may be passed over; but an
anchor is always there.
-/

namespace MiniC

namespace Position

variable {left right : Position}

theorem precedes_of_lt (before : left.compareSpot right = .lt) : left.precedes right = true := by
  unfold precedes
  change ((left.compareSpot right).then _).isLE = true
  rw [before]
  rfl

theorem precedes_of_eq (same : left = right) : left.precedes right = true := by
  subst same
  unfold precedes
  change ((left.compareSpot left).then _).isLE = true
  unfold compareSpot
  simp only [Std.compare_self]
  rfl

end Position

open Waypoint (text)

/-- Whether a token is where a waypoint is, and what it has to be. -/
def Waypoint.IsAt : Waypoint → Token → Prop
  | node _ pos, token => token.pos = pos
  | anchor kind pos, token => token.kind = kind ∧ token.pos = pos
  | word _, _ => True

inductive Along (close : Prop) : List Waypoint → Stream → Stream → Prop where
  | done (s : Stream) : Along close [] s s
  | node {course : List Waypoint} {s r : Stream} (kind : String) :
      Along close course s r → Along close (.node kind s.token.pos :: course) s r
  | word {course : List Waypoint} {s r : Stream} (written : Written) (more : s.upcoming ≠ []) :
      Along close course s.tail r → Along close (.word written :: course) s r
  | anchor {course : List Waypoint} {s r : Stream} (more : s.token.kind ≠ .eof) :
      Along close course s.tail r → Along close (.anchor s.token.kind s.token.pos :: course) s r
  | lost {course : List Waypoint} {s r : Stream} (written : Written) (loose : ¬ close) :
      Along close course s r → Along close (.word written :: course) s r
  | gap {course : List Waypoint} {s later r : Stream} (loose : ¬ close) (isRest : later.IsRest s) :
      Along close course later r → Along close course s r

namespace Along

variable {close : Prop} {left right course : List Waypoint} {s middle r : Stream}

theorem append (before : Along close left s middle) (behind : Along close right middle r) :
    Along close (left ++ right) s r := by
  induction before with
  | done => exact behind
  | node kind _ ih => exact .node kind (ih behind)
  | word written more _ ih => exact .word written more (ih behind)
  | anchor more _ ih => exact .anchor more (ih behind)
  | lost written loose _ ih => exact .lost written loose (ih behind)
  | gap loose isRest _ ih => exact .gap loose isRest (ih behind)

theorem uncons {waypoint : Waypoint} (along : Along close (waypoint :: course) s r) :
    ∃ middle, Along close [waypoint] s middle ∧ Along close course middle r := by
  generalize whole : waypoint :: course = all at along
  induction along with
  | done => cases whole
  | node kind on =>
    obtain ⟨rfl, rfl⟩ := List.cons.inj whole
    exact ⟨_, .node kind (.done _), on⟩
  | word written more on =>
    obtain ⟨rfl, rfl⟩ := List.cons.inj whole
    exact ⟨_, .word written more (.done _), on⟩
  | anchor more on =>
    obtain ⟨rfl, rfl⟩ := List.cons.inj whole
    exact ⟨_, .anchor more (.done _), on⟩
  | lost written loose on =>
    obtain ⟨rfl, rfl⟩ := List.cons.inj whole
    exact ⟨_, .lost written loose (.done _), on⟩
  | gap loose isRest _ ih =>
    obtain ⟨middle, before, behind⟩ := ih whole
    exact ⟨middle, .gap loose isRest before, behind⟩

theorem split (along : Along close (left ++ right) s r) :
    ∃ middle, Along close left s middle ∧ Along close right middle r := by
  induction left generalizing s with
  | nil => exact ⟨s, .done s, along⟩
  | cons waypoint left ih =>
    obtain ⟨next, first, rest⟩ := along.uncons
    obtain ⟨middle, before, behind⟩ := ih rest
    exact ⟨middle, first.append before, behind⟩

theorem isRest (along : Along close course s r) : r.IsRest s := by
  induction along with
  | done s => exact .refl s
  | node _ _ ih | lost _ _ _ ih => exact ih
  | word _ _ _ ih | anchor _ _ ih => exact ih.trans (.tail _)
  | gap _ isRest _ ih => exact ih.trans isRest

/-- On a loose course it does not matter how much is passed in the end. -/
theorem further {later : Stream} (along : Along close course s r) (loose : ¬ close)
    (isRest : later.IsRest r) : Along close course s later := by
  have whole := along.append (.gap loose isRest (.done later))
  rwa [List.append_nil] at whole

/-- A token that is passed for a word. -/
theorem passed (written : Written) (more : close → s.upcoming ≠ []) :
    Along close [.word written] s s.passed := by
  by_cases isMore : s.upcoming ≠ []
  · rw [Stream.passed_of_more isMore]
    exact .word written isMore (.done _)
  · rw [Stream.passed_of_ended (not_not.mp isMore)]
    exact .lost written (fun holds => isMore (more holds)) (.done s)

theorem gone (loose : ¬ close) (isRest : r.IsRest s) : Along close [] s r :=
  .gap loose isRest (.done r)

/-- Where one node stands another may, too. -/
theorem again {kind : String} {pos : Position} (along : Along close (.node kind pos :: course) s r)
    (other : String) : Along close (.node other pos :: .node kind pos :: course) s r := by
  generalize whole : Waypoint.node kind pos :: course = all at along
  induction along with
  | node own on =>
    obtain ⟨⟨rfl, rfl⟩, rfl⟩ := List.cons.inj whole
    exact .node other (.node _ on)
  | gap loose isRest _ ih => exact .gap loose isRest (ih whole)
  | done | word | anchor | lost => cases whole

/-- Whether a waypoint is no mere word. -/
def isPlace : Waypoint → Bool
  | .word _ => false
  | .node _ _ | .anchor _ _ => true

/-- On a loose course the words do not matter. -/
theorem respell (along : Along close left s r) (loose : ¬ close)
    (same : right.filter isPlace = left.filter isPlace) : Along close right s r := by
  have unspelled (words : List Waypoint) (none : words.filter isPlace = []) (s : Stream) :
      Along close words s s := by
    induction words with
    | nil => exact .done s
    | cons first rest ih =>
      cases first with
      | word written => exact .lost written loose (ih none)
      | node | anchor => cases none
  -- words that were read become gaps, and words that are wanted are lost
  induction along generalizing right with
  | done s => exact unspelled right same s
  | word written more _ ih => exact .gap loose (.tail _) (ih same)
  | lost written _ _ ih => exact ih same
  | gap _ isRest _ ih => exact .gap loose isRest (ih same)
  | @node course s r kind _ ih =>
    change right.filter isPlace = .node kind s.token.pos :: course.filter isPlace at same
    obtain ⟨words, rest, rfl, none, -, later⟩ := List.filter_eq_cons_iff.mp same
    exact (unspelled words (List.filter_eq_nil_iff.mpr none) s).append (.node kind (ih later))
  | @anchor course s r more _ ih =>
    change right.filter isPlace = .anchor s.token.kind s.token.pos :: course.filter isPlace at same
    obtain ⟨words, rest, rfl, none, -, later⟩ := List.filter_eq_cons_iff.mp same
    exact (unspelled words (List.filter_eq_nil_iff.mpr none) s).append (.anchor more (ih later))

section Close

variable (holds : close)

include holds

theorem remaining (along : Along close course s r) :
    s.remaining = (text course).length + r.remaining := by
  have passes {s : Stream} (more : s.upcoming ≠ []) : s.remaining = s.tail.remaining + 1 := by
    have some := List.length_pos_iff.mpr more
    rw [← s.remaining_eq] at some
    exact (Nat.sub_add_cancel some).symm
  induction along with
  | done => exact (Nat.zero_add _).symm
  | node _ _ ih => exact ih
  | @word course s r written more _ ih =>
    rw [passes more, ih, Waypoint.text_word, List.length_cons, Nat.add_right_comm]
  | @anchor course s r more _ ih =>
    rw [passes (Stream.upcoming_of_kind more), ih, Waypoint.text_anchor, List.length_cons,
      Nat.add_right_comm]
  | lost _ loose | gap loose => exact absurd holds loose

theorem pos_eq {kind : String} {pos : Position}
    (along : Along close (.node kind pos :: course) s r) : pos = s.token.pos := by
  cases along with
  | node => rfl
  | gap loose => exact absurd holds loose

/-- Words that are there have been passed. -/
theorem shorter (along : Along close course s r) (spoken : text course ≠ []) :
    r.remaining < s.remaining := by
  have some := List.length_pos_iff.mpr spoken
  rw [along.remaining holds]
  omega

end Close

/-- Nodes and anchors stand where tokens do. -/
theorem exists_token {waypoint : Waypoint} (along : Along close course s r)
    (member : waypoint ∈ course) : ∃ later : Stream, later.IsRest s ∧ waypoint.IsAt later.token := by
  induction along with
  | done => cases member
  | gap _ isRest _ ih =>
    obtain ⟨later, isLater, isAt⟩ := ih member
    exact ⟨later, isLater.trans isRest, isAt⟩
  | @node course s r kind _ ih =>
    rcases List.mem_cons.mp member with rfl | further
    · exact ⟨s, .refl s, rfl⟩
    · exact ih further
  | @lost course s r written _ _ ih =>
    rcases List.mem_cons.mp member with rfl | further
    · exact ⟨s, .refl s, trivial⟩
    · exact ih further
  | @word course s r written _ _ ih =>
    rcases List.mem_cons.mp member with rfl | further
    · exact ⟨s, .refl s, trivial⟩
    · obtain ⟨later, isLater, isAt⟩ := ih further
      exact ⟨later, isLater.trans (.tail s), isAt⟩
  | @anchor course s r _ _ ih =>
    rcases List.mem_cons.mp member with rfl | further
    · exact ⟨s, .refl s, rfl, rfl⟩
    · obtain ⟨later, isLater, isAt⟩ := ih further
      exact ⟨later, isLater.trans (.tail s), isAt⟩

end Along

namespace Stream

/-- The token behind some that have been passed. -/
theorem IsRest.getElem_all {r s : Stream} {n : Nat} (isRest : r.IsRest s)
    (count : s.remaining = n + r.remaining) : (s.upcoming ++ [s.ending])[n]? = some r.current := by
  obtain ⟨passed, all⟩ := isRest.all
  have isLength : passed.length = n := by
    have length := congrArg List.length all
    simp only [List.length_append, List.length_singleton, ← r.remaining_eq, ← s.remaining_eq]
      at length
    omega
  rw [← all, ← isLength, List.getElem?_append_right (Nat.le_refl _), Nat.sub_self,
    ← List.head?_eq_getElem?, r.head_all]

/-- All tokens still to be read, the end among them, stand one behind the other. -/
def Increases (s : Stream) : Prop :=
  (s.upcoming ++ [s.ending]).Pairwise fun left right =>
    left.token.pos.compareSpot right.token.pos = .lt

namespace Increases

variable {s r : Stream} (increases : s.Increases)

include increases

theorem rest (isRest : r.IsRest s) : r.Increases := increases.sublist isRest.all.sublist

theorem lt_of_tail (more : s.upcoming ≠ []) (isRest : r.IsRest s.tail) :
    s.token.pos.compareSpot r.token.pos = .lt := by
  unfold Increases at increases
  rw [s.all_eq] at increases
  exact (List.pairwise_cons.mp increases).1 r.current (isRest.current_mem_tail more)

theorem precedes (isRest : r.IsRest s) : s.token.pos.precedes r.token.pos = true := by
  have member := isRest.current_mem
  unfold Increases at increases
  rw [s.all_eq] at increases member
  rcases List.mem_cons.mp member with same | later
  · exact Position.precedes_of_eq (congrArg (·.token.pos) same.symm)
  · exact Position.precedes_of_lt ((List.pairwise_cons.mp increases).1 r.current later)

end Increases

end Stream

theorem Along.ordered {close : Prop} {course : List Waypoint} {s r : Stream}
    (along : Along close course s r) (increases : s.Increases) : Waypoint.Ordered course := by
  -- what is further on stands at a later token, or at this one if none has been passed
  induction along with
  | done => exact .nil
  | gap _ isRest _ ih => exact ih (increases.rest isRest)
  | lost written _ _ ih => exact .cons (fun other _ => by trivial) (ih increases)
  | word written more _ ih =>
    exact .cons (fun other _ => by trivial) (ih (increases.rest (.tail _)))
  | @node course s r kind on ih =>
    refine .cons (fun other member => ?_) (ih increases)
    cases other with
    | word | anchor => trivial
    | node kind pos =>
      obtain ⟨later, isRest, rfl⟩ := on.exists_token member
      exact increases.precedes isRest
  | @anchor course s r more on ih =>
    refine .cons (fun other member => ?_) (ih (increases.rest (.tail s)))
    cases other with
    | word | anchor => trivial
    | node kind pos =>
      obtain ⟨later, isRest, rfl⟩ := on.exists_token member
      exact increases.lt_of_tail (Stream.upcoming_of_kind more) isRest

end MiniC
