import MiniC.Parser.Loop

/-!
What holds of the value of a parser on every stream, problems or none.
-/

namespace MiniC.Parser

variable {α β σ : Type}

def Gives (p : Parser α) (good : α → Prop) : Prop := ∀ s, good (p.run s).value

namespace Gives

variable {p : Parser α} {f : α → Parser β} {good : α → Prop} {Q : β → Prop}

theorem pure {a : α} (holds : good a) : Gives (pure a) good := fun _ => holds

theorem bind (first : Gives p good) (next : ∀ a, good a → Gives (f a) Q) : Gives (p >>= f) Q :=
  fun s => next _ (first s) _

theorem mono {wider : α → Prop} (gives : Gives p good) (implies : ∀ a, good a → wider a) :
    Gives p wider :=
  fun s => implies _ (gives s)

/-- Nothing is asked of what comes first. -/
theorem after (next : ∀ a, Gives (f a) Q) : Gives (p >>= f) Q := fun _ => next _ _

/-- The value is known, whatever is read before it. -/
theorem last {b : β} (holds : Q b) : Gives (p >>= fun _ => Pure.pure b) Q := fun _ => holds

theorem map {g : α → β} (gives : Gives p fun a => Q (g a)) : Gives (g <$> p) Q := gives

theorem some (gives : Gives p good) : Gives (some <$> p) fun found => ∀ a ∈ found, good a :=
  map fun s _ same => Option.mem_some_iff.mp same ▸ gives s

theorem ite {c : Prop} [Decidable c] {yes no : Parser α} (isYes : c → Gives yes good)
    (isNo : ¬ c → Gives no good) : Gives (if c then yes else no) good := by
  by_cases holds : c
  · rw [if_pos holds]
    exact isYes holds
  · rw [if_neg holds]
    exact isNo holds

theorem moving (gives : Gives p good) : Gives (moving p) good := by
  intro s
  unfold Parser.moving
  dsimp only
  split <;> exact gives s

theorem manyWhile (more : TokenKind → Bool) (gives : Gives p good) :
    Gives (manyWhile more p) fun as => ∀ a ∈ as, good a := by
  intro s
  change ∀ a ∈ (manyRun more p s).value, good a
  fun_induction manyRun more p s with
  | case1 s _ first later ih => exact List.forall_mem_cons.mpr ⟨gives.moving s, ih⟩
  | case2 => exact fun _ none => (List.not_mem_nil none).elim

theorem commaList (close : TokenKind) (gives : Gives p good) :
    Gives (commaList close p) fun as => ∀ a ∈ as, good a := by
  have another : Gives (do advance; p) good := after fun _ => gives
  apply after
  intro next
  apply ite
  · exact fun _ => pure nofun
  · intro _
    refine bind gives fun first isGood => ?_
    refine bind (manyWhile _ another) fun later areGood => ?_
    exact pure (List.forall_mem_cons.mpr ⟨isGood, areGood⟩)

/-- What each step keeps, if the loop starts with it. -/
theorem foldWhile {more : σ → TokenKind → Bool} {step : σ → Parser σ} {keeps : σ → Prop}
    (each : ∀ state, keeps state → Gives (step state) keeps) {start : σ} (holds : keeps start) :
    Gives (foldWhile more step start) keeps := by
  intro s
  change keeps (foldRun more step start s).value
  fun_induction foldRun more step start s with
  | case1 state s _ first later ih => exact ih ((each state holds).moving s)
  | case2 => exact holds

end Gives

end MiniC.Parser
