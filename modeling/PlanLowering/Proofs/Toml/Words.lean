import PlanLowering.Proofs.Number.Spelling
import PlanLowering.Proofs.Text.Runs
import PlanLowering.Toml.Scalar
import PlanLowering.Toml.Settings
import PlanLowering.Toml.Writer

/-!
Values of a TOML document without quotes. A row of digits is read as the number it spells, and not as
a date or a time, which have other characters behind their first digits; the names of the two booleans
are read as such.
-/

namespace PlanLowering.TomlScalar

section Digits

variable {ds : List Char} (hdigits : ∀ c ∈ ds, c.isDigit = true)

include hdigits

theorem after?_eq_none {mark : Char} (hmark : mark.isDigit = false) {count : Nat} :
    after? mark (ds.drop count) = none := by
  cases hrest : ds.drop count with
  | nil => rfl
  | cons c others =>
      have hc : c.isDigit = true :=
        hdigits c (List.mem_of_mem_drop (hrest ▸ List.mem_cons_self))
      rw [after?, if_neg]
      rintro rfl
      exact absurd hc (by simp [hmark])

/-- Where a hyphen is due in a date there is another digit, or nothing. -/
theorem day?_eq_none : day? ds = none := by
  rw [day?, fixed?]
  split
  · simp [after?_eq_none hdigits]
  · rfl

theorem time?_eq_none : time? ds = none := by
  rw [time?, minutes?, fixed?]
  split
  · simp [after?_eq_none hdigits]
  · rfl

theorem isDateTime_eq_false : isDateTime ds = false := by
  rw [isDateTime, day?_eq_none hdigits, time?_eq_none hdigits]
  rfl

theorem digits?_eq (hne : ds ≠ []) : digits? Char.isDigit ds = some ds := by
  induction ds with
  | nil => exact absurd rfl hne
  | cons c ds ih =>
      obtain ⟨hc, hds⟩ := List.forall_mem_cons.mp hdigits
      cases ds with
      | nil => rw [digits?, if_pos hc]
      | cons d ds =>
          have hd : d ≠ '_' := by
            rintro rfl
            exact absurd (hds '_' List.mem_cons_self) (by decide)
          unfold digits?
          split
          · next heq => cases heq
          · next heq => cases heq
          · next heq => exact absurd (List.cons.inj (List.cons.inj heq).2).1 hd
          · next heq =>
              obtain ⟨rfl, rfl⟩ := List.cons.inj heq
              rw [if_pos hc, ih hds (List.cons_ne_nil d ds), Option.map_some]

theorem unsigned_eq : unsigned ds = ds := by
  unfold unsigned
  split <;> simp_all

end Digits

/-- Digits of base ten are what they are, and no digits of another base. -/
theorem integer?_digits {ds : List Char} (hdigits : ∀ c ∈ ds, c.isDigit = true)
    (hleading : ds = ['0'] ∨ ∃ first others, ds = first :: others ∧ first ≠ '0') :
    integer? ds = some (Numeral.natOfDigits ds : Int) := by
  have hne : ds ≠ [] := by
    rcases hleading with rfl | ⟨first, others, rfl, _⟩ <;> exact List.cons_ne_nil _ _
  have hpositive : isNegative ds = false := by
    unfold isNegative
    split <;> simp_all
  have hdecimal : decimal? ds = some ds := by
    rw [decimal?, digits?_eq hdigits hne]
    split
    · next heq =>
        rcases hleading with rfl | ⟨first, others, rfl, hfirst⟩
        · cases heq
        · exact absurd (List.cons.inj (Option.some.inj heq)).1 hfirst
    · rfl
  unfold integer?
  split
  · simp at hdigits
  · simp at hdigits
  · simp at hdigits
  · simp [unsigned_eq hdigits, hdecimal, hpositive]

/-- A row of digits is an integer if it has no superfluous zero in front. -/
theorem ofWord?_digits {ds : List Char} (hdigits : ∀ c ∈ ds, c.isDigit = true)
    (hleading : ds = ['0'] ∨ ∃ first others, ds = first :: others ∧ first ≠ '0') :
    ofWord? ds = some (.integer (Numeral.natOfDigits ds)) := by
  have hword : ∀ c : Char, c.isDigit = false → c ∉ ds := by
    intro c hc hmem
    rw [hdigits c hmem] at hc
    cases hc
  have hspecial : isSpecialFloat ds = false := by
    rw [isSpecialFloat, unsigned_eq hdigits, Bool.or_eq_false_iff]
    constructor
    all_goals
      apply decide_eq_false
      rintro rfl
      exact hword 'n' rfl (by simp)
  rw [ofWord?, if_neg, if_neg, if_neg, if_neg, integer?_digits hdigits hleading]
  · rw [isDateTime_eq_false hdigits]
    exact Bool.false_ne_true
  · rw [hspecial]
    exact Bool.false_ne_true
  · rintro rfl
    exact hword 'f' rfl (by simp)
  · rintro rfl
    exact hword 't' rfl (by simp)

/-- A word that is no day alone ends where its characters end. -/
theorem word_append {chars rest : List Char} (hchars : ∀ c ∈ chars, isWordChar c = true)
    (hrest : ∀ c ∈ rest.head?, isWordChar c = false) (hday : day? chars ≠ some []) :
    word (chars ++ rest) = (chars, rest) := by
  rw [word, Text.takeWhile_run hchars hrest, Text.dropWhile_run hchars hrest]
  split
  · next heq => exact absurd heq hday
  · rfl

theorem scalar?_of_word {cs chars rest : List Char} {value : Toml} (hword : word cs = (chars, rest))
    (hvalue : ofWord? chars = some value) : scalar? cs = some (value, rest) := by
  rw [scalar?, hword]
  dsimp only
  rw [hvalue]
  rfl

theorem scalar?_append {chars rest : List Char} {value : Toml}
    (hchars : ∀ c ∈ chars, isWordChar c = true) (hrest : ∀ c ∈ rest.head?, isWordChar c = false)
    (hday : day? chars = none) (hvalue : ofWord? chars = some value) :
    scalar? (chars ++ rest) = some (value, rest) := by
  have hsome : day? chars ≠ some [] := by
    rw [hday]
    exact Option.some_ne_none [] ∘ Eq.symm
  exact scalar?_of_word (word_append hchars hrest hsome) hvalue

theorem isWordChar_of_isDigit {c : Char} (h : c.isDigit = true) : isWordChar c = true := by
  simp [isWordChar, Char.isAlphanum, h]

theorem word_eq_toDigits (n : UInt64) : TomlWriter.word n = Nat.toDigits 10 n.toNat := by
  simp [TomlWriter.word, Numeral.chars, Numeral.ofNat]

/-- A number is read back as it is written. -/
theorem scalar?_word (n : UInt64) {rest : List Char}
    (hrest : ∀ c ∈ rest.head?, isWordChar c = false) :
    scalar? (TomlWriter.word n ++ rest) = some (.integer n.toNat, rest) := by
  have hdigits : ∀ c ∈ Nat.toDigits 10 n.toNat, c.isDigit = true := Numeral.isDigit_of_mem_toDigits
  rw [word_eq_toDigits]
  apply scalar?_append (fun c hc => isWordChar_of_isDigit (hdigits c hc)) hrest
    (day?_eq_none hdigits)
  rw [ofWord?_digits hdigits (Numeral.leading_toDigits n.toNat), Numeral.natOfDigits_toDigits]

theorem scalar?_flag (value : Bool) {rest : List Char}
    (hrest : ∀ c ∈ rest.head?, isWordChar c = false) :
    scalar? (TomlWriter.flag value ++ rest) = some (.boolean value, rest) := by
  cases value <;> exact scalar?_append (List.all_eq_true.mp rfl) hrest rfl rfl

end PlanLowering.TomlScalar

namespace PlanLowering.Toml

/-- A number of sixty-four bits fits. -/
theorem word?_integer (n : UInt64) : word? (.integer n.toNat) = some n := by
  have hlt : n.toNat < UInt64.size := n.toNat_lt
  rw [word?, if_pos (by omega)]
  simp

end PlanLowering.Toml
