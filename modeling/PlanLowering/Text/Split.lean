/-!
Cutting a text at every occurrence of a character. There is always one part more than there are cuts.
-/

namespace PlanLowering.Text

/-- Puts a character in front of the first part. -/
def consFirst (c : Char) : List (List Char) → List (List Char)
  | [] => [[c]]
  | part :: parts => (c :: part) :: parts

/-- The parts of a text between the occurrences of a character. -/
def split (separator : Char) : List Char → List (List Char)
  | [] => [[]]
  | c :: cs => if c = separator then [] :: split separator cs else consFirst c (split separator cs)

theorem split_eq_singleton {separator : Char} {cs : List Char} (h : separator ∉ cs) :
    split separator cs = [cs] := by
  induction cs with
  | nil => rfl
  | cons c cs ih =>
    simp only [List.mem_cons, not_or] at h
    simp [split, Ne.symm h.1, ih h.2, consFirst]

theorem split_append {separator : Char} {part : List Char} (rest : List Char)
    (h : separator ∉ part) :
    split separator (part ++ separator :: rest) = part :: split separator rest := by
  induction part with
  | nil => simp [split]
  | cons c part ih =>
    simp only [List.mem_cons, not_or] at h
    simp [split, Ne.symm h.1, ih h.2, consFirst]

/-- Parts that each stand behind a cut come apart again. -/
theorem split_append_flatMap {separator : Char} {part : List Char} {parts : List (List Char)}
    (hpart : separator ∉ part) (hparts : ∀ other ∈ parts, separator ∉ other) :
    split separator (part ++ parts.flatMap (separator :: ·)) = part :: parts := by
  induction parts generalizing part with
  | nil => rw [List.flatMap_nil, List.append_nil, split_eq_singleton hpart]
  | cons next parts ih =>
    obtain ⟨hnext, hothers⟩ := List.forall_mem_cons.mp hparts
    rw [List.flatMap_cons, List.cons_append, split_append _ hpart, ih hnext hothers]

end PlanLowering.Text
