import PlanLowering.Json.Scalar
import PlanLowering.Proofs.Json.Containers
import PlanLowering.Proofs.Json.Lexing
import PlanLowering.Proofs.Number.Shortest

/-!
Scalars, literal values and excluded paths are recovered from what is written for them. The one
exception are floats: a finite one is read as some number, and one that is not finite is written as
a word that no number is read from.
-/

namespace PlanLowering

namespace Decoder

variable {α : Type}

section Numbers

variable {limit : Nat} {expected : String} {accept : JsonNumber → Decoder α}

theorem Recovers.number {numeral : Numeral} {n : JsonNumber} {value : α}
    (hnumeral : JsonNumber.ofNumeral? numeral = some n) (haccept : accept n = Pure.pure value) :
    Recovers limit (number expected accept) (Json.number numeral).tokens (Json.number numeral).depth
      value fun _ => True := by
  refine Recovers.after (reads_next (.number numeral)) ?_
  dsimp only
  rw [hnumeral]
  dsimp only
  rw [haccept]
  exact .pure limit value

theorem recovers_uint64 (n : UInt64) :
    Recovers limit (uint64 expected) (Json.uint64 n).tokens (Json.uint64 n).depth n fun _ => True :=
  .number (JsonNumber.ofNumeral?_ofNat n) rfl

theorem recovers_int64 (n : Int64) :
    Recovers limit int64 (Json.int64 n).tokens (Json.int64 n).depth n fun _ => True := by
  rcases Int.lt_or_le n.toInt 0 with hneg | hnonneg
  · exact .number (JsonNumber.ofNumeral?_ofInt_of_neg hneg) rfl
  · refine .number (JsonNumber.ofNumeral?_ofInt_of_nonneg hnonneg) ?_
    have hlt : n.toUInt64.toNat < Nat.pow 2 63 :=
      Nat.lt_of_le_of_lt (toInt_nonneg_iff.mp hnonneg) (by decide)
    dsimp only
    rw [if_pos hlt, Int64.toInt64_toUInt64]

/-- A float is read as some number if it is finite, and not at all otherwise. -/
theorem recovers_binary64 (x : Binary64) :
    Recovers limit binary64 (Json.float x).tokens (Json.float x).depth x fun p => p x := by
  rw [Json.float]
  cases hfinite : x.isFinite with
  | true =>
      rw [if_pos rfl]
      cases hnumeral : JsonNumber.ofNumeral? (JsonNumber.floatFormat.numeral x) with
      | none =>
          refine ⟨fun _ => .error (.text .grammar), ?_, False.elim, nofun⟩
          apply (reads_next _).bind_end
          dsimp only
          rw [hnumeral]
          exact fun _ _ _ => rfl
      | some n =>
          have hsome : ∃ y, Recovers limit binary64
              (Json.number (JsonNumber.floatFormat.numeral x)).tokens 0 y fun _ => True := by
            cases n <;> exact ⟨_, .number hnumeral rfl⟩
          obtain ⟨_, outcome, hreads, _⟩ := hsome
          exact ⟨outcome, hreads, False.elim, fun _ _ _ _ => hfinite⟩
  | false =>
      rw [if_neg Bool.false_ne_true]
      refine ⟨fun _ => .error (.data (.invalidType .null "f64")), ?_, False.elim, nofun⟩
      exact fun _ _ _ => rfl

end Numbers

section Words

variable {limit : Nat}

theorem recovers_bool (value : Bool) :
    Recovers limit bool (Json.bool value).tokens (Json.bool value).depth value fun _ => True := by
  cases value <;> exact Recovers.after (reads_next _) (.pure limit _)

theorem recovers_string (expected text : String) :
    Recovers limit (string expected) (Json.string text).tokens (Json.string text).depth text
      fun _ => True :=
  Recovers.after (reads_next (.string text)) (.pure limit text)

end Words

end Decoder

open Decoder

/-- The float of a literal. -/
def Value.floats : Value → Floats
  | float x => fun p => p x
  | _ => fun _ => True

section Values

variable (limit : Nat)

theorem recovers_value (value : Value) :
    Recovers (limit + 1) Value.decoder value.toJson.tokens value.toJson.depth value
      value.floats := by
  cases value with
  | null => exact .variantName rfl
  | missing => exact .variantName rfl
  | bool value => exact .variant rfl ((recovers_bool value).map Value.bool)
  | int n => exact .variant rfl ((recovers_int64 n).map Value.int)
  | float x => exact .variant rfl ((recovers_binary64 x).map Value.float)
  | string text => exact .variant rfl ((recovers_string "a string" text).map Value.string)
  | symbol text => exact .variant rfl ((recovers_string "a string" text).map Value.symbol)

theorem recovers_excludeStep (step : ExcludeStep) :
    Recovers (limit + 1) ExcludeStep.decoder step.toJson.tokens step.toJson.depth step
      fun _ => True := by
  cases step with
  | structField name =>
      exact .variant rfl ((recovers_string "a string" name).map ExcludeStep.structField)
  | collIndex index => exact .variant rfl ((recovers_uint64 index).map ExcludeStep.collIndex)
  | structWildcard => exact .variantName rfl
  | collWildcard => exact .variantName rfl

theorem recovers_excludePath (path : ExcludePath) :
    Recovers (limit + 3) ExcludePath.decoder path.toJson.tokens path.toJson.depth path
      fun _ => True := by
  have hsteps : Recovers (limit + 2) (list ExcludeStep.decoder)
      (Json.array (path.steps.map ExcludeStep.toJson)).tokens _ path.steps _ :=
    .list fun step _ => recovers_excludeStep limit step
  have hrow : Row (limit + 2)
      (.needed "root" (uint64 "usize") <| .needed "steps" (list ExcludeStep.decoder) .done)
      [("root", .uint64 path.root), ("steps", .array (path.steps.map ExcludeStep.toJson))]
      (path.root, path.steps, ()) _ :=
    .field (recovers_uint64 path.root) (.field hsteps .done)
  refine ((Recovers.record "struct ExcludePath" hrow (by simp)).map
    fun row => ExcludePath.mk row.1 row.2.1).congr ?_
  simp

end Values

/-! ### Numerals -/

namespace Json

@[simp]
theorem proper_variant {name : String} {payload : Json} :
    (variant name payload).Proper ↔ payload.Proper := by
  simp [variant]

@[simp]
theorem proper_named {α : Type} [Named α] (member : α) : (named member).Proper :=
  proper_string _

@[simp]
theorem proper_uint64 (n : UInt64) : (uint64 n).Proper :=
  proper_number.mpr (Numeral.proper_ofNat n.toNat)

@[simp]
theorem proper_int64 (n : Int64) : (int64 n).Proper :=
  proper_number.mpr (Numeral.proper_ofInt n.toInt)

@[simp]
theorem proper_float (x : Binary64) : (float x).Proper := by
  rw [float]
  cases hfinite : x.isFinite with
  | true => exact proper_number.mpr (JsonNumber.floatFormat.proper_numeral hfinite)
  | false => exact proper_null

end Json

@[simp]
theorem Value.proper_toJson (value : Value) : value.toJson.Proper := by
  cases value <;> simp [Value.toJson]

@[simp]
theorem ExcludePath.proper_toJson (path : ExcludePath) : path.toJson.Proper := by
  have hstep : ∀ step : ExcludeStep, step.toJson.Proper := by
    intro step
    cases step <;> simp [ExcludeStep.toJson]
  simp [ExcludePath.toJson, hstep]

end PlanLowering
