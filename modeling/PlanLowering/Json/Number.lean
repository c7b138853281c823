import PlanLowering.Json.Basic
import PlanLowering.Number.Shortest

/-!
What a numeral in a JSON text is worth. A whole number is an integer if sixty-four bits hold it. Any
other number is a double, found in few steps rather than correctly rounded: as many digits as fit into
sixty-four bits make a significand, which is rounded, and then multiplied or divided by a rounded
power of ten.
-/

namespace PlanLowering

inductive JsonNumber where
  | unsigned (value : UInt64)
  /-- An integer below zero. -/
  | negative (value : Int64)
  | real (value : Binary64)
deriving DecidableEq, Repr

namespace JsonNumber

/-- Appends digits to a significand while it fits into sixty-four bits, and gives those left over. -/
def absorb (significand : Nat) : List Char → Nat × List Char
  | [] => (significand, [])
  | c :: rest =>
    let next := 10 * significand + Numeral.digit c
    if next < UInt64.size then absorb next rest else (significand, c :: rest)

def powerOfTen (n : Nat) : Binary64 :=
  Binary64.ofNat (Nat.pow 10 n)

/-- The number times a power of ten, in steps of `10 ^ 308` while the power is below the range of
doubles; there is none beyond the largest double. -/
def scaledByTen (x : Binary64) (exponent : Int) : Option Binary64 :=
  if exponent.natAbs ≤ 308 then
    if 0 ≤ exponent then
      let product := x.mul (powerOfTen exponent.toNat)
      if product.isInfinite then none else some product
    else some (x.div (powerOfTen exponent.natAbs))
  else if x.isZero then some x
  else if 0 ≤ exponent then none
  else scaledByTen (x.div (powerOfTen 308)) (exponent + 308)
termination_by exponent.natAbs

def signed (negative : Bool) (x : Binary64) : Binary64 :=
  if negative then x.neg else x

/-- The power of ten that an exponent stands for. -/
def power : Option Exponent → Int
  | none => 0
  | some ⟨.minus, digits⟩ => -(Numeral.natOfDigits digits)
  | some ⟨_, digits⟩ => Numeral.natOfDigits digits

/-- The double that a numeral is read as. Whole digits that do not fit into the significand count as
zeros, digits of the fraction that do not fit are dropped. -/
def real? (n : Numeral) : Option Binary64 :=
  let (whole, zeros) := absorb 0 n.whole
  let (significand, dropped) := absorb whole n.fraction
  let places : Int := (zeros.length : Int) - (n.fraction.length - dropped.length : Nat)
  (scaledByTen (Binary64.ofNat significand) (places + power n.exponent)).map (signed n.negative)

/-- The worth of a numeral; numbers beyond the range of doubles have none. Minus zero is a double. -/
def ofNumeral? (n : Numeral) : Option JsonNumber :=
  let value := Numeral.natOfDigits n.whole
  if n.fraction = [] ∧ n.exponent = none then
    if !n.negative && value < UInt64.size then some (unsigned (UInt64.ofNat value))
    else if n.negative && 0 < value && value ≤ Nat.pow 2 63 then
      some (negative (Int64.ofInt (-value)))
    else (real? n).map real
  else (real? n).map real

/-- A double in a text shows its point and at least one decimal from `10 ^ -5` up to below `10 ^ 16`,
and a signed power of ten elsewhere; of two equally near decimals it is the even one. -/
def floatFormat : FloatFormat where
  tie := .toEven
  positional exponent := -5 ≤ exponent && exponent ≤ 15
  keepsPoint := true
  plusSign := .plus

end JsonNumber

namespace Json

/-- A double as JSON; what is not finite becomes `null`. -/
def float (x : Binary64) : Json :=
  if x.isFinite then number (JsonNumber.floatFormat.numeral x) else null

end Json

end PlanLowering
