import MiniC.Stmt.Check
import MiniC.Proofs.Check.Settles
import MiniC.Proofs.Expr.Filled
import MiniC.Proofs.Scope.Declares

/-!
Checks that enforce a rule. Such a check is silent, in any scope, just when the
names that it declares are free and the rule holds in the environment of the
scope; and then it has declared them. Checks that enforce rules are put one
behind the other, and inside blocks, and enforce rules again.
-/

namespace MiniC

open Checker

namespace Checker.Settles

variable {β : Type} {state : CheckState} {C : Prop} {post : β → CheckState → Prop}

theorem openBlock : Settles openBlock state True fun _ after =>
    after = ⟨state.scope.openBlock, state.returnsValue⟩ :=
  ⟨iff_of_true rfl trivial, fun _ => rfl⟩

/-- Closing a block gives back the scope around it. -/
theorem closeBlock {outer : Scope} {bindings : List Binding} (ordered : outer.IsOrdered)
    (sound : SoundScope state.scope) (declares : Declares bindings outer.openBlock state.scope) :
    Settles closeBlock state True fun _ after =>
      SoundScope after.scope ∧ Declares [] outer after.scope ∧
        after.returnsValue = state.returnsValue :=
  ⟨iff_of_true rfl trivial, fun _ => ⟨sound.closeBlock, declares.closeBlock ordered, rfl⟩⟩

/-- Declaring a variable, where a name that is taken is reported afterwards. -/
theorem declare {name : String} {ty : Ty} {isConst : Bool} {f : Bool → Checker β}
    (fails : ¬ (f false).IsSilent state)
    (requires : C → state.scope.isDeclaredHere name = false)
    (next : ∀ symbol after, state.scope.addVar name ty isConst = some (symbol, after) →
      Settles (f true) { state with scope := after } C post) :
    Settles (declare name ty isConst >>= f) state C post := by
  have run := Checker.run_declare name ty isConst state
  by_cases isDeclared : state.scope.isDeclaredHere name = true
  · have none : state.scope.addVar name ty isConst = none := by
      unfold SymbolTable.addVar
      rw [if_pos isDeclared]
    rw [none] at run
    apply (never _).congr
    · apply iff_of_false _ not_false
      intro holds
      simp [requires holds] at isDeclared
    · rw [isSilent_bind_iff, run]
      exact fun silent => fails silent.2
  · obtain ⟨symbol, after, added⟩ : ∃ symbol after,
        state.scope.addVar name ty isConst = some (symbol, after) := by
      unfold SymbolTable.addVar
      rw [if_neg isDeclared]
      exact ⟨_, _, rfl⟩
    rw [added] at run
    have settles := next symbol after added
    have entered : Settles (Checker.declare name ty isConst) state True fun isEntered last =>
        isEntered = true ∧ last = { state with scope := after } := by
      constructor
      · unfold IsSilent
        rw [run]
        exact iff_of_true rfl trivial
      · rw [run]
        exact fun _ => ⟨rfl, rfl⟩
    apply entered.bind (fun _ => trivial)
    rintro _ _ _ ⟨rfl, rfl⟩
    exact settles

end Checker.Settles

/-- Under the rule, `c` declares `bindings`, and notes whether a value was
returned. -/
def Checker.Enforces (c : Checker Unit) (bindings : List Binding) (rule : Env → Prop)
    (returned : Bool) : Prop :=
  ∀ state, SoundScope state.scope →
    Settles c state (Fresh state.scope (bindings.map Binding.name) ∧ rule (envOf state.scope))
      fun _ after => SoundScope after.scope ∧ Declares bindings state.scope after.scope ∧
        after.returnsValue = (state.returnsValue || returned)

namespace Checker.Enforces

variable {c d : Checker Unit} {bindings later : List Binding} {rule next : Env → Prop}
  {returned : Bool}

theorem pure : Enforces (pure ()) [] (fun _ => True) false := by
  intro state sound
  have unchanged : state.returnsValue = (state.returnsValue || false) := (Bool.or_false _).symm
  exact (Settles.pure ⟨sound, .refl _, unchanged⟩).congr
    (iff_of_true ⟨fresh_nil _, trivial⟩ trivial)

theorem report (pos : Position) (problem : Problem) (bindings : List Binding) (returned : Bool) :
    Enforces (report pos problem) bindings (fun _ => False) returned := by
  intro state _
  exact (Settles.report pos problem).congr (iff_of_false (fun both => both.2) not_false)

theorem setReturnsValue : Enforces (setReturnsValue true) [] (fun _ => True) true := by
  intro state sound
  constructor
  · exact iff_of_true rfl ⟨fresh_nil _, trivial⟩
  · exact fun _ => ⟨sound, .refl _, (Bool.or_true _).symm⟩

theorem judge (rule : Env → Prop) {look : Scope → Verdict Unit}
    (silent : ∀ scope, SoundScope scope → ((look scope).IsSilent ↔ rule (envOf scope))) :
    Enforces (judge look) [] rule false := by
  intro state sound
  have unchanged : state.returnsValue = (state.returnsValue || false) := (Bool.or_false _).symm
  apply Settles.judge
  · rw [silent _ sound]
    exact (and_iff_right (fresh_nil _)).symm
  · exact fun _ => ⟨sound, .refl _, unchanged⟩

/-- What comes second is judged behind what the first has declared. -/
theorem seq {returnedLater : Bool} (first : Enforces c bindings rule returned)
    (second : Enforces d later next returnedLater) :
    Enforces (c >>= fun _ => d) (bindings ++ later)
      (fun env => rule env ∧ next (env.declare bindings)) (returned || returnedLater) := by
  intro state sound
  apply (first state sound).bind
  · rintro ⟨fresh, holds, _⟩
    rw [List.map_append] at fresh
    exact ⟨fresh.left, holds⟩
  · rintro _ after both ⟨soundAfter, declares, flag⟩
    have settles := second after soundAfter
    rw [declares.envOf_eq] at settles
    apply (settles.congr _).mono
    · rintro _ last _ ⟨soundLast, declaresLater, flagLast⟩
      refine ⟨soundLast, declares.trans declaresLater, ?_⟩
      rw [flagLast, flag, Bool.or_assoc]
    · rw [List.map_append, declares.takes.fresh_append_iff, and_and_and_comm]
      exact and_iff_right both

theorem congr (enforces : Enforces c bindings rule returned)
    (same : ∀ env, next env ↔ rule env) : Enforces c bindings next returned := by
  intro state sound
  exact (enforces state sound).congr (and_congr_right fun _ => same _)

/-- Whatever type is found first, the rest is judged for that type. -/
theorem found {look : Scope → Verdict Ty} {P : Env → Ty → Prop} {f : Ty → Checker Unit}
    {rules : Ty → Env → Prop}
    (decides : ∀ scope, SoundScope scope → (look scope).Decides (P (envOf scope)))
    (each : ∀ env ty, P env ty → Enforces (f ty) bindings (rules ty) returned) :
    Enforces (Checker.judge look >>= f) bindings (fun env => ∃ ty, P env ty ∧ rules ty env)
      returned := by
  intro state sound
  have here := decides _ sound
  have judged : Settles (Checker.judge look) state (∃ ty, P (envOf state.scope) ty)
      fun ty after => P (envOf state.scope) ty ∧ after = state :=
    Settles.judge here.isSilent_iff fun ⟨ty, holds⟩ => ⟨here.value_eq holds ▸ holds, rfl⟩
  apply judged.bind
  · rintro ⟨_, ty, holds, _⟩
    exact ⟨ty, holds⟩
  · rintro ty _ _ ⟨holds, rfl⟩
    apply (each _ ty holds _ sound).congr
    apply and_congr_right
    intro _
    constructor
    · rintro ⟨other, same, rule⟩
      rw [← here.value_eq holds, here.value_eq same]
      exact rule
    · exact fun rule => ⟨ty, holds, rule⟩

/-- A block keeps what is declared in it to itself. -/
theorem block (inner : Enforces c bindings rule returned) :
    Enforces (do openBlock; c; closeBlock) []
      (fun env => Binding.AreDistinct bindings ∧ rule env) returned := by
  intro state sound
  apply Settles.openBlock.bind (fun _ => trivial)
  rintro _ _ _ rfl
  have ordered := sound.ordered
  apply ((inner ⟨state.scope.openBlock, state.returnsValue⟩ sound.openBlock).congr _).bind id
  · rintro _ after both ⟨soundAfter, declares, flag⟩
    apply ((Settles.closeBlock ordered soundAfter declares).congr _).mono
    · rintro _ last _ ⟨soundLast, restored, flagLast⟩
      exact ⟨soundLast, restored, flagLast.trans flag⟩
    · exact iff_of_true both trivial
  · rw [fresh_openBlock_iff ordered]
    exact and_iff_right (fresh_nil _)

end Checker.Enforces

end MiniC
