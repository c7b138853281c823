import PlanLowering.Number.Binary64
import PlanLowering.Number.Numeral

/-!
The shortest decimal that stands for a double: the fewest digits that read back, and of those the
nearest. The search runs over decimal grids from coarse to fine; on each grid only the two neighbours
of the number can lie among the reals that round to it.
-/

namespace PlanLowering

/-- Where a number goes that lies halfway between two decimals of the same length. -/
inductive Tie where
  | toEven
  | up
deriving DecidableEq, Repr

/-- A positive decimal: `coefficient * 10 ^ place`. -/
structure Decimal where
  coefficient : Nat
  place : Int
deriving DecidableEq, Repr

namespace Shortest

/-- The reals that round to a number, on a decimal grid. `value`, `low` and `high` are the number and
the ends of the interval as multiples of `1 / unit` on the grid; the ends belong to it when `closed`. -/
structure Cell where
  value : Nat
  low : Nat
  high : Nat
  unit : Nat
  closed : Bool

/-- The interval of a finite number other than zero on the grid of multiples of `10 ^ place`. In
quarters of its last place the number is four times its significand, and the interval reaches two
quarters to each side, or one quarter down when the numbers below lie closer. -/
def Cell.of (x : Binary64) (place : Int) : Cell :=
  let scale := x.scale - 2
  let factor := Nat.pow 2 scale.toNat * Nat.pow 10 (-place).toNat
  let down := if x.fractionField = 0 ∧ 1 < x.exponentField then 1 else 2
  { value := 4 * x.significand * factor
    low := (4 * x.significand - down) * factor
    high := (4 * x.significand + 2) * factor
    unit := Nat.pow 2 (-scale).toNat * Nat.pow 10 place.toNat
    closed := x.significand % 2 = 0 }

/-- The grid point is among the reals that round to the number. -/
def Cell.holds (cell : Cell) (point : Nat) : Bool :=
  if cell.closed then cell.low ≤ point * cell.unit && point * cell.unit ≤ cell.high
  else cell.low < point * cell.unit && point * cell.unit < cell.high

/-- The grid point nearest to the number among those that round to it, if there is one. -/
def Cell.nearest (tie : Tie) (cell : Cell) : Option Nat :=
  let below := cell.value / cell.unit
  let gapBelow := cell.value - below * cell.unit
  let gapAbove := (below + 1) * cell.unit - cell.value
  match cell.holds below, cell.holds (below + 1) with
  | false, false => none
  | true, false => some below
  | false, true => some (below + 1)
  | true, true =>
    if gapBelow < gapAbove then some below
    else if gapAbove < gapBelow then some (below + 1)
    else
      match tie with
      | .up => some (below + 1)
      | .toEven => some (if below % 2 = 0 then below else below + 1)

/-- A place whose unit is larger than the number: `30103 / 100000` is just above the decimal logarithm
of two. -/
def firstPlace (x : Binary64) : Int :=
  ((x.significand.log2 : Int) + 1 + x.scale) * 30103 / 100000 + 1

/-- The first hit over the next `fuel` grids, from `place` downwards. -/
def search (tie : Tie) (x : Binary64) : Nat → Int → Decimal
  | 0, place => ⟨(Cell.of x place).value / (Cell.of x place).unit, place⟩
  | fuel + 1, place =>
    match (Cell.of x place).nearest tie with
    | some point => ⟨point, place⟩
    | none => search tie x fuel (place - 1)

end Shortest

/-- The shortest decimal of a finite number other than zero. A grid of seventeen digits always has a
hit, and the search starts at most two places above the first digit. -/
def shortest (tie : Tie) (x : Binary64) : Decimal :=
  Shortest.search tie x 20 (Shortest.firstPlace x)

/-- How a finite double is spelled. -/
structure FloatFormat where
  /-- Which of two equally near decimals is chosen. -/
  tie : Tie
  /-- The decimal exponents written without a power of ten. -/
  positional : Int → Bool
  /-- A whole number shows one decimal. -/
  keepsPoint : Bool
  /-- The sign of an exponent that is not negative. -/
  plusSign : ExponentSign

namespace FloatFormat

/-- The digits around the point, for a decimal whose first digit has the exponent `exponent`. -/
def split (format : FloatFormat) (digits : List Char) (exponent : Int) : List Char × List Char :=
  if exponent < 0 then (['0'], List.replicate (-exponent - 1).toNat '0' ++ digits)
  else
    let size := exponent.toNat + 1
    if size < digits.length then (digits.take size, digits.drop size)
    else
      (digits ++ List.replicate (size - digits.length) '0', if format.keepsPoint then ['0'] else [])

/-- The spelling of a finite number. -/
def numeral (format : FloatFormat) (x : Binary64) : Numeral :=
  if x.isZero then ⟨x.isNegative, ['0'], if format.keepsPoint then ['0'] else [], none⟩
  else
    let decimal := shortest format.tie x
    let digits := Nat.toDigits 10 decimal.coefficient
    let exponent := decimal.place + (digits.length - 1 : Nat)
    if format.positional exponent then
      let parts := format.split digits exponent
      ⟨x.isNegative, parts.1, parts.2, none⟩
    else
      let sign := if exponent < 0 then ExponentSign.minus else format.plusSign
      ⟨x.isNegative, digits.take 1, digits.drop 1, some ⟨sign, Nat.toDigits 10 exponent.natAbs⟩⟩

end FloatFormat

end PlanLowering
