import PlanLowering.Proofs.Toml.Grammar
import PlanLowering.Proofs.Toml.Lines

/-!
What stands between the parts of a TOML document is passed over as a whole: blanks inside a line, gaps
of several lines, and the rest of a line behind a statement.
-/

namespace PlanLowering.TomlGrammar

open TomlBlank

section Blanks

variable {c : Char} {blanks rest : List Char}

theorem skipSpace_blanks (hblanks : Blanks blanks) (hrest : ∀ c ∈ rest.head?, isSpace c = false) :
    skipSpace (blanks ++ rest) = rest :=
  Text.dropWhile_run hblanks hrest

theorem eq_of_isSpace (h : isSpace c = true) : c = ' ' ∨ c = '\t' := by
  simpa [isSpace] using h

end Blanks

section LineEnds

variable {ending rest : List Char}

theorem LineEnd.exists_cons (h : LineEnd ending) :
    ∃ c others, ending = c :: others ∧ (c = '\n' ∨ c = '\r') := by
  cases h with
  | feed => exact ⟨_, _, rfl, Or.inl rfl⟩
  | carriage => exact ⟨_, _, rfl, Or.inr rfl⟩

theorem lineEnd?_append (h : LineEnd ending) (rest : List Char) :
    lineEnd? (ending ++ rest) = some (ending, rest) := by
  cases h <;> rfl

theorem skipLines_lineEnd (h : LineEnd ending) (rest : List Char) :
    skipLines (ending ++ rest) = skipLines rest := by
  cases h with
  | feed => simp [skipLines]
  | carriage => simp [skipLines]

theorem skipGaps_lineEnd (h : LineEnd ending) (inComment : Bool) (rest : List Char) :
    skipGaps inComment (ending ++ rest) = skipGaps false rest := by
  cases h with
  | feed => simp [skipGaps]
  | carriage => simp [skipGaps]

end LineEnds

section Gaps

variable {comments : Bool} {c : Char} {gap rest : List Char}

theorem Gap.append {more : List Char} (h : Gap comments gap) (hmore : Gap comments more) :
    Gap comments (gap ++ more) := by
  induction h with
  | nil => exact hmore
  | blank hc _ ih => exact .blank hc ih
  | lineEnd hending _ ih =>
      rw [List.append_assoc]
      exact .lineEnd hending ih
  | comment hallowed htext hending _ ih =>
      simp only [List.cons_append, List.append_assoc]
      exact .comment hallowed htext hending ih

theorem gap_of_blanks (h : Blanks gap) : Gap comments gap := by
  induction gap with
  | nil => exact .nil
  | cons c gap ih =>
      obtain ⟨hc, hgap⟩ := List.forall_mem_cons.mp h
      exact .blank hc (ih hgap)

theorem ne_of_isPlain (h : isPlain c = true) : c ≠ '\n' ∧ c ≠ '\r' := by
  constructor <;> rintro rfl <;> exact absurd h (by decide)

/-- A comment goes on to the end of its line. -/
theorem skipGaps_comment (h : ∀ c ∈ gap, isPlain c = true) (rest : List Char) :
    skipGaps true (gap ++ rest) = skipGaps true rest := by
  induction gap with
  | nil => rfl
  | cons c gap ih =>
      obtain ⟨hc, hgap⟩ := List.forall_mem_cons.mp h
      obtain ⟨hfeed, hcarriage⟩ := ne_of_isPlain hc
      rw [List.cons_append, skipGaps]
      · simp only [hfeed, hc, if_true, if_false]
        exact ih hgap
      · intro others heq
        exact absurd heq hcarriage

theorem skipGaps_append (h : Gap true gap) (rest : List Char) :
    skipGaps false (gap ++ rest) = skipGaps false rest := by
  induction h with
  | nil => rfl
  | @blank c gap hc _ ih =>
      rcases eq_of_isSpace hc with rfl | rfl
      · simpa [skipGaps, isSpace] using ih
      · simpa [skipGaps, isSpace] using ih
  | lineEnd hending _ ih => rw [List.append_assoc, skipGaps_lineEnd hending, ih]
  | @comment text ending gap _ htext hending _ ih =>
      have hopen : ∀ others, skipGaps false ('#' :: others) = skipGaps true others := by
        intro others
        simp [skipGaps]
      rw [List.cons_append, hopen, List.append_assoc, skipGaps_comment htext, List.append_assoc,
        skipGaps_lineEnd hending, ih]

theorem skipLines_eq_self (hrest : Visible rest) : skipLines rest = rest := by
  cases rest with
  | nil => rfl
  | cons c others =>
      obtain ⟨hspace, hfeed, hcarriage⟩ := hrest c rfl
      rw [skipLines]
      · simp [hspace, hfeed]
      · intro more heq
        exact absurd heq hcarriage

theorem skipLines_append (h : Gap false gap) (hrest : Visible rest) :
    skipLines (gap ++ rest) = rest := by
  induction h with
  | nil => exact skipLines_eq_self hrest
  | @blank c gap hc _ ih =>
      rcases eq_of_isSpace hc with rfl | rfl
      · simpa [skipLines, isSpace] using ih
      · simpa [skipLines, isSpace] using ih
  | lineEnd hending _ ih => rw [List.append_assoc, skipLines_lineEnd hending, ih]
  | comment hallowed => cases hallowed

end Gaps

section LineRests

variable {cs ending : List Char}

/-- Up to the end of its line, what follows a statement is a gap. -/
theorem LineRest.gap (h : LineRest cs) (hending : LineEnd ending) : Gap true (cs ++ ending) := by
  have hclosed : Gap true ending := by
    have hgap := Gap.lineEnd hending (.nil : Gap true [])
    rwa [List.append_nil] at hgap
  cases h with
  | blanks hblanks => exact (gap_of_blanks hblanks).append hclosed
  | @comment blanks text hblanks htext =>
      have hcomment : Gap true ('#' :: (text ++ ending)) := by
        have hgap := Gap.comment rfl htext hending .nil
        rwa [List.append_nil] at hgap
      rw [List.append_assoc, List.cons_append]
      exact (gap_of_blanks hblanks).append hcomment

/-- On the last line it is passed over as well. -/
theorem LineRest.skipGaps_eq_nil (h : LineRest cs) : skipGaps false cs = [] := by
  cases h with
  | blanks hblanks =>
      have hskip := skipGaps_append (gap_of_blanks hblanks) []
      rwa [List.append_nil] at hskip
  | @comment blanks text hblanks htext =>
      have hskip := skipGaps_comment htext []
      rw [List.append_nil] at hskip
      rw [skipGaps_append (gap_of_blanks hblanks)]
      simpa [skipGaps] using hskip

/-- Behind the rest of a line only its end is left. -/
theorem lineRest?_append (h : LineRest cs) (hending : LineEnd ending) (rest : List Char) :
    lineRest? (cs ++ (ending ++ rest)) = some rest := by
  cases h with
  | blanks hblanks =>
      cases hending with
      | feed =>
          rw [lineRest?, skipSpace_blanks hblanks (by rintro c ⟨⟩; rfl)]
          rfl
      | carriage =>
          rw [lineRest?, skipSpace_blanks hblanks (by rintro c ⟨⟩; rfl)]
          rfl
  | @comment blanks text hblanks htext =>
      have hskip : skipSpace (blanks ++ '#' :: text ++ (ending ++ rest)) =
          '#' :: (text ++ (ending ++ rest)) := by
        rw [List.append_assoc, skipSpace_blanks hblanks (by rintro c ⟨⟩; rfl), List.cons_append]
      have hclosed : (text ++ (ending ++ rest)).dropWhile isPlain = ending ++ rest := by
        apply Text.dropWhile_run htext
        cases hending <;> (rintro c ⟨⟩; rfl)
      simp only [lineRest?, hskip, hclosed]
      cases hending <;> rfl

theorem lineRest?_eq_nil (h : LineRest cs) : lineRest? cs = some [] := by
  cases h with
  | blanks hblanks =>
      have hskip : skipSpace (cs ++ []) = [] := skipSpace_blanks hblanks (by rintro c ⟨⟩)
      rw [List.append_nil] at hskip
      rw [lineRest?, hskip]
  | @comment blanks text hblanks htext =>
      have hskip : skipSpace (blanks ++ '#' :: text) = '#' :: text :=
        skipSpace_blanks hblanks (by rintro c ⟨⟩; rfl)
      have hclosed : text.dropWhile isPlain = [] := by
        have hrun : (text ++ []).dropWhile isPlain = [] :=
          Text.dropWhile_run htext (by rintro c ⟨⟩)
        rwa [List.append_nil] at hrun
      simp only [lineRest?, hskip, hclosed]

end LineRests

/-! ### Behind a value -/

/-- What may stand behind a value: the end of the text, or possibly behind blanks what ends an item of
a list or a line. -/
inductive Follows : List Char → Prop where
  | blank {c : Char} {rest : List Char} (hc : isSpace c = true) (h : Follows rest) :
      Follows (c :: rest)
  | closed {rest : List Char}
      (hrest : ∀ c ∈ rest.head?, c ∈ [',', ']', '\x7d', '#', '\n', '\r']) : Follows rest

section Follows

variable {cs rest : List Char}

theorem follows_of_gap {comments : Bool} {gap : List Char} (hgap : Gap comments gap)
    (hrest : ∀ c ∈ rest.head?, c ∈ [',', ']', '\x7d', '#', '\n', '\r']) :
    Follows (gap ++ rest) := by
  induction hgap with
  | nil => exact .closed hrest
  | blank hc _ ih => exact .blank hc ih
  | lineEnd hending _ _ =>
      refine .closed ?_
      cases hending <;> (rintro c ⟨⟩; decide)
  | comment _ _ _ _ _ =>
      refine .closed ?_
      rintro c ⟨⟩
      decide

theorem follows_of_lineRest (h : LineRest cs)
    (hrest : ∀ c ∈ rest.head?, c ∈ [',', ']', '\x7d', '#', '\n', '\r']) : Follows (cs ++ rest) := by
  cases h with
  | blanks hblanks => exact follows_of_gap (gap_of_blanks hblanks : Gap true cs) hrest
  | @comment blanks text hblanks _ =>
      rw [List.append_assoc]
      refine follows_of_gap (gap_of_blanks hblanks : Gap true blanks) ?_
      rintro c ⟨⟩
      decide

theorem Follows.head (h : Follows rest) :
    ∀ c ∈ rest.head?, TomlScalar.isWordChar c = false ∧ c ≠ '"' ∧ c ≠ '\'' := by
  cases h with
  | blank hc _ =>
      rintro c ⟨⟩
      rcases eq_of_isSpace hc with rfl | rfl <;> decide
  | closed hrest =>
      intro c hc
      have hmem := hrest c hc
      revert hmem
      simp only [List.mem_cons, List.not_mem_nil, or_false]
      rintro (rfl | rfl | rfl | rfl | rfl | rfl) <;> decide

/-- No digit comes behind the blank behind a value, so that a day is not taken for one with a time. -/
theorem Follows.isDigit_eq_false {c : Char} (h : Follows (' ' :: c :: rest)) : c.isDigit = false := by
  cases h with
  | blank _ h =>
      have hc := (h.head c rfl).1
      by_contra hdigit
      rw [Bool.not_eq_false] at hdigit
      rw [TomlScalar.isWordChar_of_isDigit hdigit] at hc
      cases hc
  | closed hrest => exact absurd (hrest ' ' rfl) (by decide)

end Follows

end PlanLowering.TomlGrammar
