import Mathlib.Data.List.Basic

/-!
Runs of characters at the start of a text. A run ends where the first other character stands.
-/

namespace PlanLowering.Text

variable {p : Char → Bool} {run rest : List Char} (hrun : ∀ c ∈ run, p c)
  (hrest : ∀ c ∈ rest.head?, p c = false)

include hrun hrest

theorem takeWhile_run : (run ++ rest).takeWhile p = run := by
  have hnone : rest.takeWhile p = [] := by
    cases rest with
    | nil => rfl
    | cons c others => rw [List.takeWhile_cons, hrest c rfl, if_neg Bool.false_ne_true]
  rw [List.takeWhile_append_of_pos hrun, hnone, List.append_nil]

theorem dropWhile_run : (run ++ rest).dropWhile p = rest := by
  rw [List.dropWhile_append_of_pos hrun]
  cases rest with
  | nil => rfl
  | cons c others => rw [List.dropWhile_cons, hrest c rfl, if_neg Bool.false_ne_true]

end PlanLowering.Text
