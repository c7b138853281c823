import PlanLowering.Json.Number
import Mathlib.Tactic.IntervalCases

/-!
Numerals as they are written. A natural number comes back from its digits, and the numerals of whole
numbers are proper: all digits, no leading zero, and a digit wherever one is due.
-/

namespace PlanLowering

theorem Numeral.natOfDigits_toDigits (n : Nat) : natOfDigits (Nat.toDigits 10 n) = n :=
  Nat.ofDigitChars_ten_toDigits

/-- The digits of a positive number do not start with a zero. -/
theorem exists_toDigits_eq_cons {n : Nat} (h : 0 < n) :
    ∃ first others, Nat.toDigits 10 n = first :: others ∧ first ≠ '0' := by
  induction n using Nat.strong_induction_on with
  | h n ih =>
      by_cases hsmall : n < 10
      · refine ⟨n.digitChar, [], Nat.toDigits_of_lt_base hsmall, ?_⟩
        interval_cases n <;> decide
      · have hlarge : 10 ≤ n := Nat.le_of_not_lt hsmall
        obtain ⟨first, others, hdigits, hfirst⟩ := ih (n / 10) (by omega) (by omega)
        refine ⟨first, others ++ [(n % 10).digitChar], ?_, hfirst⟩
        rw [Nat.toDigits_of_base_le (by decide) hlarge, hdigits, List.cons_append]

namespace Numeral

/-- A numeral that follows the grammar of JSON. -/
structure Proper (n : Numeral) : Prop where
  /-- A lone zero, or digits that do not start with one. -/
  leading : n.whole = ['0'] ∨ ∃ first others, n.whole = first :: others ∧ first ≠ '0'
  whole : ∀ c ∈ n.whole, c.isDigit
  fraction : ∀ c ∈ n.fraction, c.isDigit
  power : ∀ e ∈ n.exponent, e.digits ≠ [] ∧ ∀ c ∈ e.digits, c.isDigit

theorem isDigit_of_mem_toDigits {n : Nat} : ∀ c ∈ Nat.toDigits 10 n, c.isDigit :=
  fun _ => Nat.isDigit_of_mem_toDigits (by decide) (by decide)

theorem notMem_toDigits {c : Char} (h : c.isDigit = false) (n : Nat) : c ∉ Nat.toDigits 10 n :=
  fun hc => Bool.false_ne_true (h.symm.trans (isDigit_of_mem_toDigits c hc))

theorem leading_toDigits (n : Nat) : Nat.toDigits 10 n = ['0'] ∨
    ∃ first others, Nat.toDigits 10 n = first :: others ∧ first ≠ '0' := by
  rcases Nat.eq_zero_or_pos n with rfl | hpos
  · exact Or.inl (Nat.toDigits_zero 10)
  · exact Or.inr (exists_toDigits_eq_cons hpos)

theorem proper_ofNat (n : Nat) : (ofNat n).Proper :=
  ⟨leading_toDigits n, isDigit_of_mem_toDigits, nofun, nofun⟩

theorem proper_ofInt (i : Int) : (ofInt i).Proper :=
  ⟨leading_toDigits i.natAbs, isDigit_of_mem_toDigits, nofun, nofun⟩

end Numeral

/-- A number is not negative if its word stays below the sign bit. -/
theorem toInt_nonneg_iff {n : Int64} : 0 ≤ n.toInt ↔ n.toUInt64.toNat ≤ 2 ^ 63 - 1 := by
  have hint : n.toInt = n.toBitVec.toInt := rfl
  have hword : n.toUInt64.toNat = n.toBitVec.toNat := rfl
  have hlt := n.toBitVec.isLt
  rw [hint, hword, BitVec.toInt_eq_toNat_cond]
  split <;> omega

namespace JsonNumber

/-- A word is read back as it was written. -/
theorem ofNumeral?_ofNat (n : UInt64) :
    ofNumeral? (.ofNat n.toNat) = some (.unsigned n) := by
  have hlt : n.toNat < UInt64.size := n.toNat_lt
  simp [ofNumeral?, Numeral.ofNat, Numeral.natOfDigits_toDigits, hlt]

/-- An integer from zero up is read as a word. -/
theorem ofNumeral?_ofInt_of_nonneg {n : Int64} (h : 0 ≤ n.toInt) :
    ofNumeral? (.ofInt n.toInt) = some (.unsigned n.toUInt64) := by
  have hnat : n.toUInt64.toNat = n.toInt.natAbs := by
    rw [Int64.toNat_toUInt64_of_le (Int64.le_iff_toInt_le.mpr h), Int64.toNatClampNeg]
    omega
  have hspelled : Numeral.ofInt n.toInt = .ofNat n.toUInt64.toNat := by
    rw [Numeral.ofInt, Numeral.ofNat, hnat, decide_eq_false (Int.not_lt.mpr h)]
  rw [hspelled, ofNumeral?_ofNat]

/-- An integer below zero is read as itself. -/
theorem ofNumeral?_ofInt_of_neg {n : Int64} (h : n.toInt < 0) :
    ofNumeral? (.ofInt n.toInt) = some (.negative n) := by
  have hpos : 0 < n.toInt.natAbs := by omega
  have hle : n.toInt.natAbs ≤ Nat.pow 2 63 := by
    have hmin := n.le_toInt
    change n.toInt.natAbs ≤ 2 ^ 63
    omega
  have hvalue : Int64.ofInt (-(n.toInt.natAbs : Int)) = n := by
    rw [Int.ofNat_natAbs_of_nonpos (Int.le_of_lt h), Int.neg_neg, Int64.ofInt_toInt]
  have hsign : decide (n.toInt < 0) = true := decide_eq_true h
  simp only [ofNumeral?, Numeral.ofInt, Numeral.natOfDigits_toDigits, hsign, hpos, hle, hvalue,
    and_self, if_true, Bool.not_true, Bool.false_and, Bool.false_eq_true, if_false, decide_true,
    Bool.and_self]

end JsonNumber

end PlanLowering
