import PlanLowering.Number.Binary64
import PlanLowering.Toml.Basic

/-!
The range of the numbers in a TOML value. A document may spell numbers of any size, but whoever looks
at a value can do so only if its integers fit into 128 bits and its floats are within the range of
doubles.
-/

namespace PlanLowering

namespace Numeral

/-- The power of ten that the last digit of a numeral stands for. -/
def lastPower (n : Numeral) : Int :=
  let shift : Int :=
    match n.exponent with
    | none => 0
    | some ⟨.minus, digits⟩ => -(natOfDigits digits : Int)
    | some ⟨_, digits⟩ => natOfDigits digits
  shift - n.fraction.length

/-- The double nearest to a numeral is finite. The exponent may be huge, so that only numbers near the
largest double are worked out. -/
def fitsDouble (n : Numeral) : Bool :=
  let significant := (n.whole ++ n.fraction).dropWhile (· = '0')
  let magnitude := (significant.length : Int) + n.lastPower
  if significant.isEmpty || magnitude < 309 then true
  else if 309 < magnitude then false
  else
    let significand := natOfDigits significant
    let nearest :=
      if 0 ≤ n.lastPower then Binary64.ofNat (significand * Nat.pow 10 n.lastPower.toNat)
      else Binary64.ofRatio false significand (Nat.pow 10 n.lastPower.natAbs)
    nearest.isFinite

end Numeral

namespace Toml

mutual

/-- All numbers in the value are within their range. -/
def inRange : Toml → Bool
  | integer value => -(Nat.pow 2 127 : Nat) ≤ value && value < (Nat.pow 2 128 : Nat)
  | float numeral => numeral.fitsDouble
  | array items => allInRange items
  | table _ entries => entriesInRange entries
  | tables complete latest => allInRange complete && entriesInRange latest
  | string _ | boolean _ | special _ | dateTime _ => true

def allInRange : List Toml → Bool
  | [] => true
  | item :: items => item.inRange && allInRange items

def entriesInRange : List (String × Toml) → Bool
  | [] => true
  | (_, value) :: entries => value.inRange && entriesInRange entries

end

end Toml

end PlanLowering
