import PlanLowering.Proofs.Number.Spelling
import PlanLowering.Proofs.Tree.Orders
import PlanLowering.Text.Split

/-!
The text of a position is that of no other position. It is cut at its slashes, and the decimals
behind them are the indices; the root alone shows a slash with no decimal behind it. So the text of
the position of a node in a tree stands for this node only.
-/

namespace PlanLowering

namespace NodePath

/-- The number that a row of digits spells. -/
def decimal? (digits : List Char) : Option Nat :=
  if !digits.isEmpty && digits.all Char.isDigit then some (Numeral.natOfDigits digits) else none

/-- The indices that a text shows, a decimal behind each slash; a lone slash shows none. -/
def indices? (text : String) : Option (List Nat) :=
  if text = "/" then some []
  else
    match Text.split '/' text.toList with
    | [] :: decimals => decimals.mapM decimal?
    | _ => none

theorem decimal?_toDigits (n : Nat) : decimal? (Nat.toDigits 10 n) = some n := by
  have hsome : (Nat.toDigits 10 n).isEmpty = false :=
    List.isEmpty_eq_false_iff.mpr Nat.toDigits_ne_nil
  have hdigits : (Nat.toDigits 10 n).all Char.isDigit = true :=
    List.all_eq_true.mpr Numeral.isDigit_of_mem_toDigits
  rw [decimal?, hsome, hdigits, Numeral.natOfDigits_toDigits]
  rfl

theorem mapM_decimal?_toDigits (indices : List Nat) :
    (indices.map (Nat.toDigits 10)).mapM decimal? = some indices := by
  induction indices with
  | nil => rfl
  | cons index indices ih =>
      rw [List.map_cons, List.mapM_cons, decimal?_toDigits, ih]
      rfl

/-- The text of a position has slashes and digits only. -/
theorem mem_chars {path : NodePath} {c : Char} (h : c ∈ path.chars) :
    c = '/' ∨ c.isDigit = true := by
  obtain ⟨indices⟩ := path
  cases indices with
  | nil => exact Or.inl (List.mem_singleton.mp h)
  | cons index indices =>
      obtain ⟨n, -, hn⟩ := List.mem_flatMap.mp h
      rcases List.mem_cons.mp hn with hslash | hdigit
      · exact Or.inl hslash
      · exact Or.inr (Numeral.isDigit_of_mem_toDigits c hdigit)

theorem split_chars (index : Nat) (indices : List Nat) :
    Text.split '/' (chars ⟨index :: indices⟩) =
      [] :: Nat.toDigits 10 index :: indices.map (Nat.toDigits 10) := by
  have hdecimals : ∀ digits ∈ (index :: indices).map (Nat.toDigits 10), '/' ∉ digits := by
    intro digits hdigits
    obtain ⟨n, -, rfl⟩ := List.mem_map.mp hdigits
    exact Numeral.notMem_toDigits (by decide) n
  have hchars : chars ⟨index :: indices⟩ =
      [] ++ ((index :: indices).map (Nat.toDigits 10)).flatMap ('/' :: ·) := by
    rw [List.nil_append, List.flatMap_map]
    rfl
  rw [hchars, Text.split_append_flatMap List.not_mem_nil hdecimals, List.map_cons]

/-- The text of the root is that of no position below it: a decimal has a digit. -/
theorem display_cons_ne (index : Nat) (indices : List Nat) :
    display ⟨index :: indices⟩ ≠ "/" := by
  intro htext
  have hchars : chars ⟨index :: indices⟩ = ['/'] := by
    simpa [display] using congrArg String.toList htext
  have hsplit := split_chars index indices
  rw [hchars] at hsplit
  exact Nat.toDigits_ne_nil (List.cons.inj (List.cons.inj hsplit).2).1.symm

theorem indices?_display (path : NodePath) : indices? path.display = some path.indices := by
  obtain ⟨indices⟩ := path
  cases indices with
  | nil => rfl
  | cons index indices =>
      rw [indices?, if_neg (display_cons_ne index indices), display, String.toList_ofList,
        split_chars, ← List.map_cons]
      exact mapM_decimal?_toDigits (index :: indices)

example : indices? (display ⟨[0, 12]⟩) = some [0, 12] := by decide

theorem display_injective : Function.Injective display := by
  intro p q htext
  have hindices : some p.indices = some q.indices := by
    rw [← indices?_display p, htext, indices?_display q]
  exact congrArg mk (Option.some.inj hindices)

end NodePath

namespace TreeNode

variable {N : Type} [SizeOf N] [TreeNode N]

/-- Of all nodes of a tree one only is at a position with this text. -/
theorem existsUnique_display {root node : N} {path : NodePath}
    (h : resolve root path = some node) :
    ∃! place, place ∈ located root ∧ place.1.display = path.display := by
  refine ⟨(path, node), ⟨mem_located_iff.mpr h, rfl⟩, ?_⟩
  rintro ⟨place, other⟩ ⟨hplace, htext⟩
  obtain rfl := NodePath.display_injective htext
  rw [mem_located_iff, h] at hplace
  rw [Option.some.inj hplace]

end TreeNode

end PlanLowering
