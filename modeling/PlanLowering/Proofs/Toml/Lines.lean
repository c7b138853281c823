import PlanLowering.Proofs.Toml.Quoting
import PlanLowering.Proofs.Toml.Words
import PlanLowering.Toml.Reader

/-!
The lines of a TOML document: a header, or a key and its value. Each is read as one statement, and what
follows it is read on its own.
-/

namespace PlanLowering.TomlReader

open TomlBlank

section Keys

variable {name : String} {rest : List Char}

/-- A name that can stand as a key without quotes. -/
structure Bare (name : String) : Prop where
  nonempty : name.toList ≠ []
  chars : ∀ c ∈ name.toList, isKeyChar c = true

instance (name : String) : Decidable (Bare name) :=
  decidable_of_iff (name.toList ≠ [] ∧ name.toList.all isKeyChar = true)
    ⟨fun h => ⟨h.1, List.all_eq_true.mp h.2⟩, fun h => ⟨h.nonempty, List.all_eq_true.mpr h.chars⟩⟩

theorem Bare.exists_cons (hname : Bare name) :
    ∃ first others, name.toList = first :: others ∧ isKeyChar first = true := by
  obtain ⟨first, others, hchars⟩ := List.exists_cons_of_ne_nil hname.nonempty
  exact ⟨first, others, hchars, hname.chars first (hchars ▸ List.mem_cons_self)⟩

theorem Bare.append_ne_cons (hname : Bare name) {c : Char} (hc : isKeyChar c = false)
    (rest others : List Char) : name.toList ++ rest ≠ c :: others := by
  obtain ⟨first, behind, hchars, hfirst⟩ := hname.exists_cons
  rw [hchars, List.cons_append]
  rintro heq
  rw [(List.cons.inj heq).1, hc] at hfirst
  cases hfirst

theorem isSpace_of_isKeyChar {c : Char} (h : isKeyChar c = true) : isSpace c = false := by
  by_contra hspace
  simp only [isSpace, Bool.not_eq_false, decide_eq_true_eq] at hspace
  rcases hspace with rfl | rfl <;> exact absurd h (by decide)

theorem skipSpace_of_not_space {first : Char} (hfirst : isSpace first = false)
    (others : List Char) : skipSpace (first :: others) = first :: others := by
  rw [skipSpace, List.dropWhile_cons, hfirst, if_neg Bool.false_ne_true]

theorem skipSpace_append_of_bare (hname : Bare name) (rest : List Char) :
    skipSpace (name.toList ++ rest) = name.toList ++ rest := by
  obtain ⟨first, others, hchars, hfirst⟩ := hname.exists_cons
  rw [hchars, List.cons_append, skipSpace_of_not_space (isSpace_of_isKeyChar hfirst)]

theorem keyPart?_bare (hname : Bare name) (hrest : ∀ c ∈ rest.head?, isKeyChar c = false) :
    keyPart? (name.toList ++ rest) = some (name, rest) := by
  have hword : ¬ (name.toList ++ rest).takeWhile isKeyChar = [] := by
    rw [Text.takeWhile_run hname.chars hrest]
    exact hname.nonempty
  unfold keyPart?
  split
  · next heq => exact absurd (by rw [heq]; rfl) hword
  · next heq => exact absurd (by rw [heq]; rfl) hword
  · rw [if_neg (by simpa using hword), Text.takeWhile_run hname.chars hrest,
      Text.dropWhile_run hname.chars hrest, String.ofList_toList]

/-- A bare name with no dot behind it is a key of its own. -/
theorem key?_bare (hname : Bare name) (hrest : ∀ c ∈ rest.head?, isKeyChar c = false)
    (hdot : ∀ others, skipSpace rest ≠ '.' :: others) :
    key? (name.toList ++ rest) = some (⟨[], name⟩, skipSpace rest) := by
  have hdotted : dottedKey? (name.toList ++ rest) = some (⟨[], name⟩, skipSpace rest) := by
    rw [dottedKey?, skipSpace_append_of_bare hname, keyPart?_bare hname hrest]
    dsimp only
    split
    · next heq => exact absurd heq (hdot _)
    · rfl
  rw [key?, hdotted]
  rfl

end Keys

section Values

/-- The characters are read as a value wherever a line ends right behind them. -/
structure IsValue (chars : List Char) (value : Toml) : Prop where
  starts : ∃ first others, chars = first :: others ∧ isSpace first = false
  reads : ∀ more, value? nestingLimit (chars ++ '\n' :: more) = some (value, '\n' :: more)

theorem value?_eq_plainValue? {first : Char} (hfirst : first ≠ '[' ∧ first ≠ '\x7b') (depth : Nat)
    (cs : List Char) : value? depth (first :: cs) = plainValue? (first :: cs) := by
  cases depth with
  | zero => rfl
  | succ depth =>
      unfold value?
      split
      · next heq => exact absurd (List.cons.inj heq).1 hfirst.1
      · next heq => exact absurd (List.cons.inj heq).1 hfirst.2
      · rfl

theorem isValue_text (s : String) : IsValue (TomlWriter.text s) (.string s) := by
  obtain ⟨first, others, hchars, hfirst⟩ := TomlQuotes.written_eq_cons s
  rw [TomlWriter.text]
  constructor
  · refine ⟨first, others, hchars, ?_⟩
    rcases hfirst with rfl | rfl <;> rfl
  · intro more
    have hread : TomlQuotes.string? (TomlQuotes.written s ++ '\n' :: more) =
        some (s, '\n' :: more) :=
      TomlQuotes.string?_written s (by simp)
    rw [hchars, List.cons_append] at hread ⊢
    rw [value?_eq_plainValue? (by rcases hfirst with rfl | rfl <;> decide)]
    rcases hfirst with rfl | rfl <;> rw [plainValue?, hread, Option.map_some]

/-- A word that is read up to the end of its line is a value there. -/
theorem isValue_of_scalar? {chars : List Char} {value : Toml} {first : Char} {others : List Char}
    (hchars : chars = first :: others) (hfirst : first.isAlphanum = true)
    (hread : ∀ more, TomlScalar.scalar? (chars ++ '\n' :: more) = some (value, '\n' :: more)) :
    IsValue chars value := by
  subst hchars
  have hne : ∀ c : Char, c.isAlphanum = false → first ≠ c := by
    rintro c hc rfl
    rw [hc] at hfirst
    cases hfirst
  constructor
  · refine ⟨first, others, rfl, isSpace_of_isKeyChar ?_⟩
    simp [isKeyChar, hfirst]
  · intro more
    rw [List.cons_append, value?_eq_plainValue? ⟨hne '[' rfl, hne '\x7b' rfl⟩, ← hread more]
    unfold plainValue?
    split
    · next heq => exact absurd (List.cons.inj heq).1 (hne '"' rfl)
    · next heq => exact absurd (List.cons.inj heq).1 (hne '\'' rfl)
    · rfl

theorem isValue_word (n : UInt64) : IsValue (TomlWriter.word n) (.integer n.toNat) := by
  have hread (more : List Char) :
      TomlScalar.scalar? (TomlWriter.word n ++ '\n' :: more) =
        some (.integer n.toNat, '\n' :: more) :=
    TomlScalar.scalar?_word n (by rintro c ⟨⟩; rfl)
  obtain ⟨first, others, hchars⟩ : ∃ first others, TomlWriter.word n = first :: others := by
    rw [TomlScalar.word_eq_toDigits]
    rcases Numeral.leading_toDigits n.toNat with hzero | ⟨first, others, hdigits, _⟩
    · exact ⟨_, _, hzero⟩
    · exact ⟨_, _, hdigits⟩
  have hfirst : first.isDigit = true := by
    apply Numeral.isDigit_of_mem_toDigits (n := n.toNat)
    rw [← TomlScalar.word_eq_toDigits, hchars]
    exact List.mem_cons_self
  exact isValue_of_scalar? hchars (by simp [Char.isAlphanum, hfirst]) hread

theorem isValue_flag (value : Bool) : IsValue (TomlWriter.flag value) (.boolean value) := by
  have hread (more : List Char) :
      TomlScalar.scalar? (TomlWriter.flag value ++ '\n' :: more) =
        some (.boolean value, '\n' :: more) :=
    TomlScalar.scalar?_flag value (by rintro c ⟨⟩; rfl)
  cases value <;> exact isValue_of_scalar? rfl rfl hread

end Values

section Lines

variable {name : String} {chars more : List Char} {value : Toml}

theorem lineRest?_newline (more : List Char) : lineRest? ('\n' :: more) = some more :=
  rfl

theorem statement?_nil : statement? [] = none := by
  simp [statement?, pair?, key?, dottedKey?, keyPart?, skipSpace]

theorem statements?_nil : statements? [] = some [] := by
  rw [statements?, skipGaps]

/-- A statement at the start of a text, with gaps in front of it and the rest of its line behind. -/
theorem statements?_cons {cs start rest : List Char} {statement : TomlStatement}
    (hstart : skipGaps false cs = start) (hlength : more.length < cs.length)
    (hstatement : statement? start = some (statement, rest)) (hrest : lineRest? rest = some more) :
    statements? cs = (statements? more).map (statement :: ·) := by
  have hne : start ≠ [] := by
    rintro rfl
    rw [statement?_nil] at hstatement
    cases hstatement
  rw [statements?, hstart]
  split
  · next heq => exact absurd rfl hne
  · rw [hstatement]
    dsimp only
    rw [hrest]
    dsimp only
    rw [if_pos hlength]

/-- There is no gap in front of a character that starts neither a blank nor a comment. -/
theorem skipGaps_of_not_gap {first : Char} (hspace : isSpace first = false)
    (hfirst : first ≠ '\r' ∧ first ≠ '\n' ∧ first ≠ '#') (others : List Char) :
    skipGaps false (first :: others) = first :: others := by
  unfold skipGaps
  split
  · next heq => exact absurd heq (List.cons_ne_nil _ _)
  · next heq => exact absurd (List.cons.inj heq).1 hfirst.1
  · next heq =>
      obtain ⟨rfl, rfl⟩ := List.cons.inj heq
      rw [if_neg hfirst.2.1, if_neg Bool.false_ne_true, if_neg hfirst.2.2, hspace,
        if_neg Bool.false_ne_true]

theorem skipGaps_append_of_bare (hname : Bare name) (rest : List Char) :
    skipGaps false (name.toList ++ rest) = name.toList ++ rest := by
  obtain ⟨first, others, hchars, hfirst⟩ := hname.exists_cons
  rw [hchars, List.cons_append]
  apply skipGaps_of_not_gap (isSpace_of_isKeyChar hfirst)
  refine ⟨?_, ?_, ?_⟩ <;> rintro rfl <;> exact absurd hfirst (by decide)

theorem line_append (name : String) (chars more : List Char) :
    TomlWriter.line name chars ++ more =
      name.toList ++ ' ' :: '=' :: ' ' :: (chars ++ '\n' :: more) := by
  simp [TomlWriter.line]

theorem header_append (name : String) (more : List Char) :
    TomlWriter.header name ++ more = '[' :: (name.toList ++ ']' :: '\n' :: more) := by
  simp [TomlWriter.header]

theorem pair?_line (hname : Bare name) (hvalue : IsValue chars value) (more : List Char) :
    pair? skipSpace (value? nestingLimit) (TomlWriter.line name chars ++ more) =
      some ((⟨[], name⟩, value), '\n' :: more) := by
  rw [line_append]
  have hkey : key? (name.toList ++ ' ' :: '=' :: ' ' :: (chars ++ '\n' :: more)) =
      some (⟨[], name⟩, '=' :: ' ' :: (chars ++ '\n' :: more)) :=
    key?_bare hname (by rintro c ⟨⟩; rfl) (by rintro others ⟨⟩)
  have hequals : skipSpace ('=' :: ' ' :: (chars ++ '\n' :: more)) =
      '=' :: ' ' :: (chars ++ '\n' :: more) := rfl
  have hskip : skipSpace (' ' :: (chars ++ '\n' :: more)) = chars ++ '\n' :: more := by
    obtain ⟨first, others, rfl, hfirst⟩ := hvalue.starts
    exact skipSpace_of_not_space hfirst _
  rw [pair?, hkey, Option.bind_eq_bind, Option.bind_some]
  dsimp only
  rw [hequals]
  split
  · next heq =>
      rw [← (List.cons.inj heq).2, hskip, hvalue.reads more]
      rfl
  · next hother => exact absurd rfl (hother _)

theorem statement?_line (hname : Bare name) (hvalue : IsValue chars value) (more : List Char) :
    statement? (TomlWriter.line name chars ++ more) =
      some (.entry ⟨[], name⟩ value, '\n' :: more) := by
  have hbracket : ∀ rest, TomlWriter.line name chars ++ more ≠ '[' :: rest := by
    rw [line_append]
    exact hname.append_ne_cons rfl _
  unfold statement?
  split
  · next heq => exact absurd heq (hbracket _)
  · next heq => exact absurd heq (hbracket _)
  · rw [pair?_line hname hvalue]
    rfl

theorem statement?_header (hname : Bare name) (more : List Char) :
    statement? (TomlWriter.header name ++ more) =
      some (.header ⟨[], name⟩, '\n' :: more) := by
  have hkey : key? (name.toList ++ ']' :: '\n' :: more) =
      some (⟨[], name⟩, ']' :: '\n' :: more) :=
    key?_bare hname (by rintro c ⟨⟩; rfl) (by rintro others ⟨⟩)
  rw [header_append]
  unfold statement?
  split
  · next heq => exact absurd (List.cons.inj heq).2 (hname.append_ne_cons rfl _ _)
  · next heq =>
      rw [← (List.cons.inj heq).2, hkey]
      rfl
  · next hbracket => exact absurd rfl (hbracket _)

/-- A line with a key and its value is one statement. -/
theorem statements?_line (hname : Bare name) (hvalue : IsValue chars value) (more : List Char) :
    statements? (TomlWriter.line name chars ++ more) =
      (statements? more).map (.entry ⟨[], name⟩ value :: ·) := by
  refine statements?_cons ?_ ?_ (statement?_line hname hvalue more) (lineRest?_newline more)
  · rw [line_append, skipGaps_append_of_bare hname]
  · simp only [line_append, List.length_append, List.length_cons]
    omega

/-- A line with a header is one statement, and so it is behind an empty line. -/
theorem statements?_header {cs : List Char} (hname : Bare name) (more : List Char)
    (hcs : cs = TomlWriter.header name ++ more ∨ cs = '\n' :: (TomlWriter.header name ++ more)) :
    statements? cs = (statements? more).map (.header ⟨[], name⟩ :: ·) := by
  have hgaps : skipGaps false (TomlWriter.header name ++ more) = TomlWriter.header name ++ more := by
    rw [header_append]
    exact skipGaps_of_not_gap rfl (by decide) _
  refine statements?_cons ?_ ?_ (statement?_header hname more) (lineRest?_newline more)
  · rcases hcs with rfl | rfl <;> exact hgaps
  · rcases hcs with rfl | rfl <;>
      (simp only [header_append, List.length_append, List.length_cons]; omega)

end Lines

end PlanLowering.TomlReader
