import PlanLowering.Proofs.Toml.Gaps

/-!
The numbers of a TOML document are read whatever way they are spelled: with underscores between their
digits, with a sign, in another base, with a fraction or a power of ten. None of them is taken for a
date or a time, which have a hyphen or a colon right behind their first digits.
-/

namespace PlanLowering.TomlGrammar

open TomlScalar

section Digits

variable {isDigit : Char → Bool} {spelled digits : List Char}

theorem Digits.exists_cons (h : Digits isDigit spelled digits) :
    ∃ first others, spelled = first :: others ∧ isDigit first = true := by
  cases h with
  | one hc => exact ⟨_, _, rfl, hc⟩
  | next hc _ => exact ⟨_, _, rfl, hc⟩
  | underscore hc _ => exact ⟨_, _, rfl, hc⟩

theorem Digits.chars (h : Digits isDigit spelled digits) :
    ∀ c ∈ spelled, isDigit c = true ∨ c = '_' := by
  induction h with
  | one hc => simpa using Or.inl hc
  | next hc _ ih => exact List.forall_mem_cons.mpr ⟨.inl hc, ih⟩
  | underscore hc _ ih =>
      exact List.forall_mem_cons.mpr ⟨.inl hc, List.forall_mem_cons.mpr ⟨.inr rfl, ih⟩⟩

theorem digits?_of_digits (h : Digits isDigit spelled digits) (hunderscore : isDigit '_' = false) :
    digits? isDigit spelled = some digits := by
  induction h with
  | one hc => rw [digits?, if_pos hc]
  | @next c spelled digits hc h ih =>
      obtain ⟨first, others, rfl, hfirst⟩ := h.exists_cons
      have hne : first ≠ '_' := by
        rintro rfl
        rw [hunderscore] at hfirst
        cases hfirst
      unfold digits?
      split
      · next heq => cases heq
      · next heq => cases heq
      · next heq => exact absurd (List.cons.inj (List.cons.inj heq).2).1 hne
      · next heq =>
          obtain ⟨rfl, rfl⟩ := List.cons.inj heq
          rw [if_pos hc, ih, Option.map_some]
  | underscore hc _ ih => rw [digits?, if_pos hc, ih, Option.map_some]

/-- Nothing else is read as a row of digits. -/
theorem chars_of_digits? (h : digits? isDigit spelled = some digits) :
    ∀ c ∈ spelled, isDigit c = true ∨ c = '_' := by
  fun_induction digits? isDigit spelled generalizing digits with
  | case1 => cases h
  | case2 c hc => simpa using Or.inl hc
  | case3 c hc => cases h
  | case4 c rest hc ih =>
      obtain ⟨ds, hds, -⟩ := Option.map_eq_some_iff.mp h
      exact List.forall_mem_cons.mpr ⟨.inl hc, List.forall_mem_cons.mpr ⟨.inr rfl, ih hds⟩⟩
  | case5 c rest hc => cases h
  | case6 c rest _ _ hc ih =>
      obtain ⟨ds, hds, -⟩ := Option.map_eq_some_iff.mp h
      exact List.forall_mem_cons.mpr ⟨.inl hc, ih hds⟩
  | case7 c rest _ _ hc => cases h

theorem decimal?_of_whole (h : Whole spelled digits) : decimal? spelled = some digits := by
  rw [decimal?, digits?_of_digits h.1 rfl]
  split
  · next heq =>
      rcases h.2 with rfl | ⟨first, others, rfl, hfirst⟩
      · cases heq
      · exact absurd (List.cons.inj (Option.some.inj heq)).1 hfirst
  · rfl

theorem decimal?_eq_none (hmark : ∃ c ∈ spelled, c.isDigit = false ∧ c ≠ '_') :
    decimal? spelled = none := by
  obtain ⟨c, hc, hdigit, hunderscore⟩ := hmark
  have hnone : digits? Char.isDigit spelled = none := by
    rw [Option.eq_none_iff_forall_ne_some]
    intro digits hdigits
    rcases chars_of_digits? hdigits c hc with htrue | rfl
    · rw [hdigit] at htrue
      cases htrue
    · exact hunderscore rfl
  rw [decimal?, hnone]

end Digits

section Signs

variable {cs sign spelled digits : List Char} {negative : Bool}

/-- The first character is a digit, so that the word has no sign and names nothing. -/
def StartsWithDigit (cs : List Char) : Prop :=
  ∃ first others, cs = first :: others ∧ first.isDigit = true

theorem StartsWithDigit.append (h : StartsWithDigit cs) (rest : List Char) :
    StartsWithDigit (cs ++ rest) := by
  obtain ⟨first, others, rfl, hfirst⟩ := h
  exact ⟨first, others ++ rest, rfl, hfirst⟩

theorem StartsWithDigit.ne_cons (h : StartsWithDigit cs) {c : Char} (hc : c.isDigit = false)
    (others : List Char) : cs ≠ c :: others := by
  obtain ⟨first, behind, rfl, hfirst⟩ := h
  intro heq
  rw [(List.cons.inj heq).1, hc] at hfirst
  cases hfirst

theorem Digits.startsWithDigit (h : Digits Char.isDigit spelled digits) :
    StartsWithDigit spelled :=
  h.exists_cons

theorem unsigned_append (hsign : Sign sign negative) (h : StartsWithDigit cs) :
    unsigned (sign ++ cs) = cs := by
  cases hsign with
  | none =>
      unfold unsigned
      split
      · next heq => exact absurd heq (h.ne_cons rfl _)
      · next heq => exact absurd heq (h.ne_cons rfl _)
      · rfl
  | plus => rfl
  | minus => rfl

theorem isNegative_append (hsign : Sign sign negative) (h : StartsWithDigit cs) :
    isNegative (sign ++ cs) = negative := by
  cases hsign with
  | none =>
      unfold isNegative
      split
      · next heq => exact absurd heq (h.ne_cons rfl _)
      · rfl
  | plus => rfl
  | minus => rfl

end Signs

section Integers

variable {cs sign spelled digits : List Char} {negative : Bool} {value : Int}

/-- A character of a number in base ten: a digit, an underscore, a point, or a letter or a sign of a
power of ten. -/
def isNumberChar (c : Char) : Bool :=
  c.isDigit || c ∈ ['_', '+', '-', '.', 'e', 'E']

theorem Sign.chars (hsign : Sign sign negative) : ∀ c ∈ sign, isNumberChar c = true := by
  cases hsign with
  | none => exact List.forall_mem_nil _
  | plus => exact List.forall_mem_singleton.mpr rfl
  | minus => exact List.forall_mem_singleton.mpr rfl

theorem Digits.isNumberChar (h : Digits Char.isDigit spelled digits) :
    ∀ c ∈ spelled, isNumberChar c = true := by
  intro c hc
  rcases h.chars c hc with hdigit | rfl
  · simp [TomlGrammar.isNumberChar, hdigit]
  · rfl

/-- A number in base ten has no letter behind its first digit that would name another base. -/
theorem integer?_of_numberChars (hcs : ∀ c ∈ cs, isNumberChar c = true) :
    integer? cs = (decimal? (unsigned cs)).map fun digits =>
      if isNegative cs then -(Numeral.natOfDigits digits : Int) else Numeral.natOfDigits digits := by
  unfold integer?
  split
  · exact absurd (hcs 'x' (by simp)) (by decide)
  · exact absurd (hcs 'o' (by simp)) (by decide)
  · exact absurd (hcs 'b' (by simp)) (by decide)
  · cases decimal? (unsigned cs) <;> rfl

theorem inBase?_of_digits {base : Nat}
    (h : Digits (fun c => (Numeral.hexDigit? c).any (· < base)) spelled digits) :
    inBase? base spelled = some (worth base digits) := by
  rw [inBase?, digits?_of_digits h rfl]
  rfl

theorem integer?_of_integerWord (h : IntegerWord cs value) : integer? cs = some value := by
  cases h with
  | decimal hsign hwhole =>
      have hstart := hwhole.1.startsWithDigit
      have hchars := List.forall_mem_append.mpr ⟨hsign.chars, hwhole.1.isNumberChar⟩
      rw [integer?_of_numberChars hchars, unsigned_append hsign hstart,
        isNegative_append hsign hstart, decimal?_of_whole hwhole]
      rfl
  | based hbase hdigits =>
      have hvalue := inBase?_of_digits hdigits
      simp only [List.mem_cons, Prod.mk.injEq, List.not_mem_nil, or_false] at hbase
      rcases hbase with ⟨rfl, rfl⟩ | ⟨rfl, rfl⟩ | ⟨rfl, rfl⟩
      all_goals
        rw [integer?, hvalue]
        rfl

end Integers

section Floats

variable {cs spelled digits point fraction power : List Char} {exponent : Option Exponent}
variable {numeral : Numeral}

theorem fraction?_of_fraction (h : Fraction point fraction) : fraction? point = some fraction := by
  cases h with
  | none => rfl
  | some h => exact digits?_of_digits h rfl

theorem exponent?_of_power (h : Power power exponent) : exponent? power = some exponent := by
  cases h with
  | none => rfl
  | @some letter sign spelled digits hletter h =>
      have hstart := h.startsWithDigit
      have hunsigned : unsigned (sign.chars ++ spelled) = spelled := by
        cases sign with
        | bare => exact unsigned_append .none hstart
        | plus => rfl
        | minus => rfl
      have hsign : exponent?.sign (sign.chars ++ spelled) = sign := by
        cases sign with
        | bare =>
            unfold exponent?.sign
            split
            · next heq => exact absurd heq (hstart.ne_cons rfl _)
            · next heq => exact absurd heq (hstart.ne_cons rfl _)
            · rfl
        | plus => rfl
        | minus => rfl
      rw [exponent?, if_pos hletter, hunsigned, hsign, digits?_of_digits h rfl]
      rfl

theorem Fraction.chars (h : Fraction point fraction) :
    ∀ c ∈ point, c.isDigit = true ∨ c = '_' ∨ c = '.' := by
  cases h with
  | none => exact List.forall_mem_nil _
  | some h =>
      refine List.forall_mem_cons.mpr ⟨.inr (.inr rfl), fun c hc => ?_⟩
      exact (h.chars c hc).imp_right Or.inl

theorem Power.chars (h : Power power exponent) : ∀ c ∈ power, isNumberChar c = true := by
  cases h with
  | none => exact List.forall_mem_nil _
  | @some letter sign spelled digits hletter h =>
      have hfirst : isNumberChar letter = true := by
        rcases hletter with rfl | rfl <;> rfl
      have hsign : ∀ c ∈ sign.chars, isNumberChar c = true := by
        cases sign with
        | bare => exact List.forall_mem_nil _
        | plus => exact List.forall_mem_singleton.mpr rfl
        | minus => exact List.forall_mem_singleton.mpr rfl
      exact List.forall_mem_cons.mpr ⟨hfirst, List.forall_mem_append.mpr ⟨hsign, h.isNumberChar⟩⟩

theorem Fraction.head_eq (h : Fraction point fraction) : ∀ c ∈ point.head?, c = '.' := by
  cases h with
  | none => rintro c ⟨⟩
  | some _ =>
      rintro c ⟨⟩
      rfl

theorem Power.head_eq (h : Power power exponent) : ∀ c ∈ power.head?, c = 'e' ∨ c = 'E' := by
  cases h with
  | none => rintro c ⟨⟩
  | some hletter _ =>
      rintro c ⟨⟩
      exact hletter

theorem FloatWord.chars (h : FloatWord cs numeral) : ∀ c ∈ cs, isNumberChar c = true := by
  obtain ⟨hsign, hwhole, hfraction, hpower, -⟩ := h
  have hpoint : ∀ c ∈ _, isNumberChar c = true := fun c hc => by
    rcases hfraction.chars c hc with hdigit | rfl | rfl
    · simp [isNumberChar, hdigit]
    · rfl
    · rfl
  simp only [List.forall_mem_append]
  exact ⟨hsign.chars, hwhole.1.isNumberChar, hpoint, hpower.chars⟩

/-- The digits in front of a power have no letter that could start one. -/
theorem Fraction.mantissa (h : Fraction point fraction) (hwhole : Digits Char.isDigit spelled digits) :
    ∀ c ∈ spelled ++ point, (c ≠ 'e' && c ≠ 'E') = true := by
  intro c hc
  have hdigit : c.isDigit = true ∨ c = '_' ∨ c = '.' := by
    rcases List.mem_append.mp hc with hmem | hmem
    · exact (hwhole.chars c hmem).imp_right Or.inl
    · exact h.chars c hmem
  have hne : c ≠ 'e' ∧ c ≠ 'E' := by
    constructor <;> (rintro rfl; exact absurd hdigit (by decide))
  simp [hne]

/-- The sign is passed, and the digits end at the point or at the letter of the power. -/
theorem float?_of_floatWord (h : FloatWord cs numeral) : float? cs = some numeral := by
  cases h with
  | @intro sign spelled whole point fraction power negative exponent hsign hwhole hfraction hpower
      hfloat =>
      have hstart := hwhole.1.startsWithDigit.append (point ++ power)
      have hmantissa := hfraction.mantissa hwhole.1
      have hletter : ∀ c ∈ power.head?, (c ≠ 'e' && c ≠ 'E') = false := by
        intro c hc
        rcases hpower.head_eq c hc with rfl | rfl <;> rfl
      have hpoint : ∀ c ∈ spelled, decide (c ≠ '.') = true := by
        intro c hc
        rw [decide_eq_true_eq]
        rintro rfl
        exact absurd (hwhole.1.chars '.' hc) (by decide)
      have hdot : ∀ c ∈ point.head?, decide (c ≠ '.') = false := by
        intro c hc
        rw [hfraction.head_eq c hc]
        rfl
      rw [float?, unsigned_append hsign hstart, isNegative_append hsign hstart, ← List.append_assoc]
      simp only [Text.takeWhile_run hmantissa hletter, Text.dropWhile_run hmantissa hletter,
        Text.takeWhile_run hpoint hdot, Text.dropWhile_run hpoint hdot, decimal?_of_whole hwhole,
        fraction?_of_fraction hfraction, exponent?_of_power hpower, Option.bind_eq_bind,
        Option.bind_some]
      exact if_neg fun hnone => hfloat.elim (absurd hnone.1) (absurd hnone.2)

/-- A float is no integer: it has a point or the letter of a power. -/
theorem integer?_of_floatWord (h : FloatWord cs numeral) : integer? cs = none := by
  rw [integer?_of_numberChars h.chars]
  cases h with
  | @intro sign spelled whole point fraction power negative exponent hsign hwhole hfraction hpower
      hfloat =>
      have hnone : decimal? (spelled ++ (point ++ power)) = none := by
        rcases hfraction with _ | hdigits
        · rcases hpower with _ | @⟨letter, _, _, _, hletter, _⟩
          · exact absurd rfl (hfloat.resolve_left (absurd rfl))
          · refine decimal?_eq_none ⟨letter, by simp, ?_⟩
            rcases hletter with rfl | rfl <;> decide
        · exact decimal?_eq_none ⟨'.', by simp, by decide⟩
      rw [unsigned_append hsign (hwhole.1.startsWithDigit.append _), hnone]
      rfl

end Floats

end PlanLowering.TomlGrammar
