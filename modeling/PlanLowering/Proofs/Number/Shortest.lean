import PlanLowering.Proofs.Number.Spelling

/-!
The shortest decimal of a finite number is a positive one. On every grid the reals that round to
the number are positive, and the last grid that is searched is so fine that the number itself is not
below its unit. So the spelling of a finite double is a proper numeral.
-/

namespace PlanLowering

theorem ten_pow_le_two_pow (n : Nat) : 10 ^ n ≤ 2 ^ (10 * ((n + 2) / 3)) := by
  calc 10 ^ n ≤ 10 ^ (3 * ((n + 2) / 3)) := Nat.pow_le_pow_right (by decide) (by omega)
    _ = (10 ^ 3) ^ ((n + 2) / 3) := Nat.pow_mul 10 3 _
    _ ≤ (2 ^ 10) ^ ((n + 2) / 3) := Nat.pow_le_pow_left (by decide) _
    _ = 2 ^ (10 * ((n + 2) / 3)) := (Nat.pow_mul 2 10 _).symm

theorem two_pow_le_ten_pow (n : Nat) : 2 ^ (13 * (n / 4)) ≤ 10 ^ n := by
  calc 2 ^ (13 * (n / 4)) = (2 ^ 13) ^ (n / 4) := Nat.pow_mul 2 13 _
    _ ≤ (10 ^ 4) ^ (n / 4) := Nat.pow_le_pow_left (by decide) _
    _ = 10 ^ (4 * (n / 4)) := (Nat.pow_mul 10 4 _).symm
    _ ≤ 10 ^ n := Nat.pow_le_pow_right (by decide) (Nat.mul_div_le n 4)

namespace Binary64

variable {x : Binary64}

theorem significand_pos (h : x.isZero = false) : 0 < x.significand := by
  have hmagnitude : x.magnitude ≠ 0 := by simpa [isZero] using h
  rw [significand]
  split
  · next hexponent =>
      rw [exponentField, Nat.pow_eq] at hexponent
      rw [fractionField, Nat.pow_eq]
      omega
  · rw [Nat.pow_eq]
    omega

theorem significand_lt (x : Binary64) : x.significand < 2 ^ 53 := by
  rw [significand, fractionField, Nat.pow_eq]
  split <;> omega

/-- The first binary digit of a finite number has an exponent in the range of doubles. -/
theorem log2_add_scale_mem (hfinite : x.isFinite = true) :
    -1074 ≤ (x.significand.log2 : Int) + x.scale ∧
      (x.significand.log2 : Int) + x.scale ≤ 1023 := by
  have hlog : x.significand.log2 < 53 := by
    by_cases hzero : x.significand = 0
    · rw [hzero]
      decide
    · exact (Nat.log2_lt hzero).mpr x.significand_lt
  have hexponent : x.exponentField < 2047 := by
    have hne : x.exponentField ≠ 2047 := by simpa [isFinite] using hfinite
    rw [exponentField, magnitude, Nat.pow_eq, Nat.pow_eq] at hne ⊢
    omega
  rw [scale]
  split <;> omega

end Binary64

namespace Shortest

variable {x : Binary64} {tie : Tie}

theorem low_pos (hx : x.isZero = false) (place : Int) : 0 < (Cell.of x place).low := by
  have hsignificand := Binary64.significand_pos hx
  have hquarters : ∀ down ≤ 2, 0 < 4 * x.significand - down := by omega
  apply Nat.mul_pos
  · apply hquarters
    split <;> decide
  · exact Nat.mul_pos (Nat.pow_pos (by decide)) (Nat.pow_pos (by decide))

/-- Zero does not round to a positive number. -/
theorem holds_zero {cell : Cell} (h : 0 < cell.low) : cell.holds 0 = false := by
  rw [Cell.holds, Nat.zero_mul]
  split
  · simp [Nat.not_le_of_lt h]
  · simp

theorem holds_of_nearest {cell : Cell} {point : Nat}
    (h : cell.nearest tie = some point) : cell.holds point = true := by
  simp only [Cell.nearest] at h
  split at h
  · cases h
  · next hbelow _ => exact Option.some.inj h ▸ hbelow
  · next _ habove => exact Option.some.inj h ▸ habove
  · next hbelow habove =>
      split at h
      · exact Option.some.inj h ▸ hbelow
      · split at h
        · exact Option.some.inj h ▸ habove
        · split at h
          · exact Option.some.inj h ▸ habove
          · obtain rfl := Option.some.inj h
            split
            · exact hbelow
            · exact habove

theorem pos_of_nearest {cell : Cell} (h : 0 < cell.low) {point : Nat}
    (hnearest : cell.nearest tie = some point) : 0 < point := by
  apply Nat.pos_of_ne_zero
  rintro rfl
  have hzero := holds_of_nearest hnearest
  rw [holds_zero h] at hzero
  cases hzero

/-- Eighteen decimal places below `2 ^ first`, a unit is not above it. -/
theorem two_pow_mul_ten_pow_le {first place : Int}
    (hplace : place ≤ (first + 1) * 30103 / 100000 - 19)
    (hlow : -1074 ≤ first) (hhigh : first ≤ 1023) {up down : Nat}
    (hdiff : (up : Int) - down = first) :
    2 ^ down * 10 ^ place.toNat ≤ 2 ^ up * 10 ^ (-place).toNat := by
  rcases Int.le_total 0 place with hsign | hsign
  · have hten : 10 ^ place.toNat ≤ 2 ^ (10 * ((place.toNat + 2) / 3)) := ten_pow_le_two_pow _
    calc 2 ^ down * 10 ^ place.toNat
        ≤ 2 ^ down * 2 ^ (10 * ((place.toNat + 2) / 3)) := Nat.mul_le_mul_left _ hten
      _ = 2 ^ (down + 10 * ((place.toNat + 2) / 3)) := (Nat.pow_add 2 _ _).symm
      _ ≤ 2 ^ up := Nat.pow_le_pow_right (by decide) (by omega)
      _ ≤ 2 ^ up * 10 ^ (-place).toNat := Nat.le_mul_of_pos_right _ (Nat.pow_pos (by decide))
  · have hten : 2 ^ (13 * ((-place).toNat / 4)) ≤ 10 ^ (-place).toNat := two_pow_le_ten_pow _
    have hzero : place.toNat = 0 := by omega
    calc 2 ^ down * 10 ^ place.toNat = 2 ^ down := by rw [hzero, Nat.pow_zero, Nat.mul_one]
      _ ≤ 2 ^ (up + 13 * ((-place).toNat / 4)) := Nat.pow_le_pow_right (by decide) (by omega)
      _ = 2 ^ up * 2 ^ (13 * ((-place).toNat / 4)) := Nat.pow_add 2 _ _
      _ ≤ 2 ^ up * 10 ^ (-place).toNat := Nat.mul_le_mul_left _ hten

/-- On the last grid the unit is not above the number. -/
theorem unit_le_value (hx : x.isZero = false) (hfinite : x.isFinite = true) :
    (Cell.of x (firstPlace x - 20)).unit ≤ (Cell.of x (firstPlace x - 20)).value := by
  obtain ⟨hlow, hhigh⟩ := Binary64.log2_add_scale_mem hfinite
  have hsignificand : 2 ^ x.significand.log2 ≤ x.significand :=
    Nat.log2_self_le (Nat.ne_of_gt (Binary64.significand_pos hx))
  let up := 2 + x.significand.log2 + (x.scale - 2).toNat
  have hunit : 2 ^ (-(x.scale - 2)).toNat * 10 ^ (firstPlace x - 20).toNat ≤
      2 ^ up * 10 ^ (-(firstPlace x - 20)).toNat :=
    two_pow_mul_ten_pow_le (by rw [firstPlace]; omega) hlow hhigh (by omega)
  refine Nat.le_trans hunit ?_
  have hup : 2 ^ up = 4 * 2 ^ x.significand.log2 * 2 ^ (x.scale - 2).toNat := by
    rw [Nat.pow_add, Nat.pow_add]
  rw [hup, Nat.mul_assoc (4 * 2 ^ x.significand.log2)]
  exact Nat.mul_le_mul_right _ (Nat.mul_le_mul_left 4 hsignificand)

/-- The search ends with a positive coefficient, with a hit or on the last grid. -/
theorem coefficient_search_pos (hx : x.isZero = false) {fuel : Nat} {place : Int}
    (hlast : (Cell.of x (place - fuel)).unit ≤ (Cell.of x (place - fuel)).value) :
    0 < (search tie x fuel place).coefficient := by
  induction fuel generalizing place with
  | zero =>
      rw [Nat.cast_zero, Int.sub_zero] at hlast
      have hunit : 0 < (Cell.of x place).unit :=
        Nat.mul_pos (Nat.pow_pos (by decide)) (Nat.pow_pos (by decide))
      exact Nat.div_pos hlast hunit
  | succ fuel ih =>
      rw [search]
      cases hnearest : (Cell.of x place).nearest tie with
      | some point => exact pos_of_nearest (low_pos hx place) hnearest
      | none =>
          apply ih
          have hplace : place - 1 - (fuel : Int) = place - (fuel + 1 : Nat) := by omega
          rwa [hplace]

end Shortest

theorem coefficient_shortest_pos {x : Binary64} (tie : Tie) (hx : x.isZero = false)
    (hfinite : x.isFinite = true) : 0 < (shortest tie x).coefficient :=
  Shortest.coefficient_search_pos hx (Shortest.unit_le_value hx hfinite)

namespace FloatFormat

/-- Digits stay digits wherever the point is put, and a zero leads them only in front of it. -/
theorem split_spec (format : FloatFormat) {digits : List Char} (exponent : Int)
    (hdigits : ∀ c ∈ digits, c.isDigit)
    (hleading : ∃ first others, digits = first :: others ∧ first ≠ '0') :
    ((format.split digits exponent).1 = ['0'] ∨
      ∃ first others, (format.split digits exponent).1 = first :: others ∧ first ≠ '0') ∧
    (∀ c ∈ (format.split digits exponent).1, c.isDigit) ∧
    ∀ c ∈ (format.split digits exponent).2, c.isDigit := by
  have hzero : ('0').isDigit = true := rfl
  have hzeros : ∀ count, ∀ c ∈ List.replicate count '0', c.isDigit := by
    intro count c hc
    rw [List.eq_of_mem_replicate hc]
    rfl
  obtain ⟨first, others, rfl, hfirst⟩ := hleading
  rw [split]
  split
  · refine ⟨Or.inl rfl, List.forall_mem_singleton.mpr hzero, ?_⟩
    exact List.forall_mem_append.mpr ⟨hzeros _, hdigits⟩
  · dsimp only
    by_cases hinside : exponent.toNat + 1 < (first :: others).length
    · rw [if_pos hinside]
      refine ⟨Or.inr ⟨first, others.take exponent.toNat, rfl, hfirst⟩, ?_, ?_⟩
      · exact fun c hc => hdigits c (List.mem_of_mem_take hc)
      · exact fun c hc => hdigits c (List.mem_of_mem_drop hc)
    · rw [if_neg hinside]
      refine ⟨Or.inr ⟨first, _, rfl, hfirst⟩, ?_, ?_⟩
      · exact List.forall_mem_append.mpr ⟨hdigits, hzeros _⟩
      · split
        · exact List.forall_mem_singleton.mpr hzero
        · exact nofun

/-- A finite number is spelled by a proper numeral. -/
theorem proper_numeral (format : FloatFormat) {x : Binary64} (hfinite : x.isFinite = true) :
    (format.numeral x).Proper := by
  rw [numeral]
  cases hx : x.isZero with
  | true =>
      rw [if_pos rfl]
      refine ⟨Or.inl rfl, by simp, ?_, nofun⟩
      cases format.keepsPoint <;> simp
  | false =>
      have hpos := coefficient_shortest_pos format.tie hx hfinite
      have hleading := exists_toDigits_eq_cons hpos
      have hdigits := @Numeral.isDigit_of_mem_toDigits (shortest format.tie x).coefficient
      rw [if_neg Bool.false_ne_true]
      dsimp only
      split
      · obtain ⟨hsplit, hwhole, hfraction⟩ := split_spec format
          ((shortest format.tie x).place +
            ((Nat.toDigits 10 (shortest format.tie x).coefficient).length - 1 : Nat))
          hdigits hleading
        exact ⟨hsplit, hwhole, hfraction, nofun⟩
      · obtain ⟨first, others, heq, hfirst⟩ := hleading
        refine ⟨Or.inr ⟨first, [], by rw [heq]; rfl, hfirst⟩, ?_, ?_, ?_⟩
        · exact fun c hc => hdigits c (List.mem_of_mem_take hc)
        · exact fun c hc => hdigits c (List.mem_of_mem_drop hc)
        · rintro e he
          obtain rfl := Option.some.inj he
          exact ⟨Nat.toDigits_ne_nil, Numeral.isDigit_of_mem_toDigits⟩

end FloatFormat

end PlanLowering
