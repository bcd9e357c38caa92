import MiniC.Proofs.Source.Encoded
import MiniC.Token.Quoted

/-!
How far a quoted literal reaches, told without the reader: to the first closing
quote that no backslash stands in front of, or else to the end of its line.
-/

namespace MiniC

open Text (ascii newline IsAscii IsEncoded)

/-- The line ends here, or the source. -/
def EndsLine (after : List UInt8) : Prop := ∀ b ∈ after.head?, b = newline

/-- What a quoted literal takes behind its opening quote. -/
inductive Quoted.Encloses (quote : UInt8) : List UInt8 → List UInt8 → Prop where
  | closed (after : List UInt8) : Encloses quote [quote] after
  | cut {after : List UInt8} (ends : EndsLine after) : Encloses quote [] after
  | cutEscape {after : List UInt8} (ends : EndsLine after) : Encloses quote [ascii '\\'] after
  | plain {b : UInt8} {inside after : List UInt8} (onLine : b ≠ newline) (noQuote : b ≠ quote)
      (unescaped : b ≠ ascii '\\') (later : Encloses quote inside after) :
    Encloses quote (b :: inside) after
  | escape {c : UInt8} {inside after : List UInt8} (onLine : c ≠ newline)
      (later : Encloses quote inside after) :
    Encloses quote (ascii '\\' :: c :: inside) after

namespace Quoted

variable {quote : UInt8}

theorem Encloses.ends {inside after : List UInt8} (encloses : Encloses quote inside after) :
    (∃ body, inside = body ++ [quote]) ∨ EndsLine after := by
  induction encloses with
  | closed _ => exact .inl ⟨[], rfl⟩
  | cut ends => exact .inr ends
  | cutEscape ends => exact .inr ends
  | @plain b _ _ _ _ _ _ ih =>
    apply ih.imp_left
    rintro ⟨body, rfl⟩
    exact ⟨b :: body, rfl⟩
  | @escape c _ _ _ _ ih =>
    apply ih.imp_left
    rintro ⟨body, rfl⟩
    exact ⟨ascii '\\' :: c :: body, rfl⟩

/-- A quoted literal ends at an ASCII byte, in it or behind it. -/
theorem Encloses.encoded {inside after : List UInt8} (encloses : Encloses quote inside after)
    (isAscii : IsAscii quote) (whole : IsEncoded (inside ++ after)) : IsEncoded inside := by
  rcases encloses.ends with ⟨body, rfl⟩ | ends
  · rw [List.append_assoc] at whole
    exact (whole.split isAscii).1.append (Text.isEncoded_singleton isAscii)
  -- the newline behind the literal is where the text may be cut
  · cases after with
    | nil => rwa [List.append_nil] at whole
    | cons b rest =>
      have isBreak : IsAscii b := by
        rw [ends b rfl]
        decide
      exact (whole.split isBreak).1

theorem length_prepend (unit : QuotedUnit) (quoted : Quoted) :
    (quoted.prepend unit).length = unit.length + quoted.length := by
  unfold prepend length
  dsimp only
  rw [unitsLength, Nat.add_assoc]

theorem ofBytes_cut {after : List UInt8} (ends : EndsLine after) :
    ofBytes quote after = ⟨[], false⟩ := by
  cases after with
  | nil => rw [ofBytes]
  | cons b rest =>
    rw [ofBytes.eq_def]
    exact if_pos (ends b rfl)

theorem Encloses.ofBytes_length {inside after : List UInt8} (encloses : Encloses quote inside after)
    (noBreak : quote ≠ newline) (noEscape : quote ≠ ascii '\\') :
    (ofBytes quote (inside ++ after)).length = inside.length := by
  have breaks : ascii '\\' ≠ newline := by decide
  induction encloses with
  | closed after =>
    rw [List.singleton_append, ofBytes.eq_def]
    dsimp only
    rw [if_neg noBreak, if_pos rfl]
    rfl
  | cut ends =>
    rw [List.nil_append, ofBytes_cut ends]
    rfl
  | @cutEscape after ends =>
    rw [List.singleton_append, ofBytes.eq_def]
    dsimp only
    rw [if_neg breaks, if_neg (Ne.symm noEscape), if_pos rfl]
    cases after with
    | nil => rfl
    | cons c tail =>
      dsimp only
      rw [if_pos (ends c rfl)]
      rfl
  | plain onLine noQuote unescaped _ ih =>
    rw [List.cons_append, ofBytes.eq_def]
    dsimp only
    rw [if_neg onLine, if_neg noQuote, if_neg unescaped, length_prepend, ih, List.length_cons]
    exact Nat.add_comm _ _
  | escape onLine _ ih =>
    rw [List.cons_append, List.cons_append, ofBytes.eq_def]
    dsimp only
    rw [if_neg breaks, if_neg (Ne.symm noEscape), if_pos rfl, if_neg onLine, length_prepend, ih]
    exact Nat.add_comm _ _

theorem endsLine_newline (rest : List UInt8) : EndsLine (newline :: rest) :=
  fun _ first => (Option.some.inj first).symm

theorem exists_encloses (quote : UInt8) (bytes : List UInt8) :
    ∃ inside after, bytes = inside ++ after ∧ Encloses quote inside after := by
  fun_induction ofBytes quote bytes with
  | case1 => exact ⟨[], [], rfl, .cut nofun⟩
  | case2 rest => exact ⟨[], newline :: rest, rfl, .cut (endsLine_newline rest)⟩
  | case3 rest => exact ⟨[quote], rest, rfl, .closed rest⟩
  | case4 => exact ⟨[ascii '\\'], [], rfl, .cutEscape nofun⟩
  | case5 rest =>
    exact ⟨[ascii '\\'], newline :: rest, rfl, .cutEscape (endsLine_newline rest)⟩
  | case6 c rest onLine _ _ ih =>
    obtain ⟨inside, after, rfl, encloses⟩ := ih
    exact ⟨ascii '\\' :: c :: inside, after, rfl, .escape onLine encloses⟩
  | case7 b rest onLine noQuote unescaped ih =>
    obtain ⟨inside, after, rfl, encloses⟩ := ih
    exact ⟨b :: inside, after, rfl, .plain onLine noQuote unescaped encloses⟩

/-- Faults of a quoted literal stand in it or right behind it, and none of them
says that it is not closed. -/
theorem unitFaults_within (units : List QuotedUnit) : ∀ placed ∈ unitFaults units,
    placed.offset ≤ unitsLength units ∧
      placed.fault.kind ≠ .unterminatedLiteral := by
  induction units with
  | nil => exact nofun
  | cons unit rest ih =>
    intro placed member
    rw [unitsLength]
    rcases List.mem_append.mp member with here | later
    · have first : placed.offset ≤ unit.length ∧ placed.fault.kind ≠ .unterminatedLiteral := by
        cases unit with
        | plain b => cases here
        | cutEscape =>
          rw [List.mem_singleton.mp here]
          exact ⟨Nat.le_refl _, nofun⟩
        | escape b =>
          by_cases known : b ∈ QuotedUnit.escapable
          · rw [QuotedUnit.faults, if_pos known] at here
            cases here
          · rw [QuotedUnit.faults, if_neg known] at here
            rw [List.mem_singleton.mp here]
            exact ⟨Nat.le_succ 1, nofun⟩
      exact ⟨Nat.le_add_right_of_le first.1, first.2⟩
    · obtain ⟨inner, isInner, rfl⟩ := List.mem_map.mp later
      obtain ⟨bound, kind⟩ := ih inner isInner
      exact ⟨Nat.add_le_add_left bound _, kind⟩

end Quoted

end MiniC
