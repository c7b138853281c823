import PlanLowering.Proofs.Json.Containers
import PlanLowering.Proofs.Json.Lexing

/-!
Whole texts of values that hold others of their kind. The reader goes one level down wherever a value
stands inside another, so if each level recovers what it is given, the text of a value brings it back
as far as there is room for its depth.
-/

namespace PlanLowering

open Decoder

theorem Json.nesting_text {json : Json} (h : json.Proper) :
    Json.nesting (JsonLexer.lex json.text.toList) = json.depth := by
  rw [Json.lex_text h, Json.nesting_tokens]

namespace Decoder

variable {α : Type} {step : Decoder α → Decoder α} {write : α → Json} {floats : α → Floats}

/-- A reader recovers the values written, whichever it is given. -/
def RecoversAll (limit : Nat) (decoder : Decoder α) (write : α → Json) (floats : α → Floats) : Prop :=
  ∀ value, Recovers limit decoder (write value).tokens (write value).depth value (floats value)

/-- What a reader with a limit makes of the tokens of a value comes out of its text. -/
theorem ofText_of_reads {json : Json} (hproper : json.Proper) {outcome : Outcome α}
    (hreads : (recursive.level step (maxNesting + 1)).Reads (maxNesting + 1) json.tokens outcome) :
    (recursive step).ofText json.text = outcome maxNesting := by
  have htokens := hreads maxNesting (Nat.lt_succ_self maxNesting) []
  have hdecoder : recursive step maxNesting json.tokens =
      (outcome maxNesting).map fun value => (value, []) := by
    rw [← htokens, List.append_nil]
    rfl
  rw [ofText, Json.lex_text hproper, hdecoder]
  cases outcome maxNesting <;> rfl

section Recursive

variable (hstep : ∀ n self, RecoversAll n self write floats →
  RecoversAll (n + 1) (step self) write floats)

include hstep

/-- A value is recovered at every level: each of them takes one bracket of the room at least. -/
theorem recoversAll_level (n : Nat) : RecoversAll n (recursive.level step n) write floats := by
  induction n with
  | zero => exact fun _ => .zero
  | succ n ih => exact hstep n _ ih

/-- What comes out of the text of a value. -/
theorem ofText_text (value : α) (hproper : (write value).Proper) : ∃ outcome,
    (recursive step).ofText (write value).text = outcome maxNesting ∧
      Faithful (maxNesting + 1) (write value).depth value (floats value) outcome := by
  obtain ⟨outcome, hreads, hfaithful⟩ := recoversAll_level hstep (maxNesting + 1) value
  exact ⟨outcome, ofText_of_reads hproper hreads, hfaithful⟩

end Recursive

/-- Whether a value without floats comes out depends on its depth alone. -/
theorem Faithful.ok_or_syntax {depth : Nat} {value : α} {floats : Floats} {outcome : Outcome α}
    (h : Faithful (maxNesting + 1) depth value floats outcome) (hnone : floats fun _ => False) :
    (depth ≤ maxNesting → outcome maxNesting = .ok value) ∧
      (maxNesting < depth →
        ∃ failure, outcome maxNesting = .error failure ∧ failure.category = "Syntax") := by
  rw [h.exact hnone maxNesting (Nat.lt_succ_self maxNesting)]
  constructor
  · intro hfits
    exact if_pos hfits
  · intro hdeep
    exact ⟨.text .grammar, if_neg (Nat.not_le_of_lt hdeep), rfl⟩

end Decoder

end PlanLowering
