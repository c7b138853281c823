/-!
Numerals: a sign, whole digits, an optional fraction and an optional power of ten, as they are
spelled. What a numeral is worth is decided by who reads it.
-/

namespace PlanLowering

/-- How the sign of an exponent is spelled. -/
inductive ExponentSign where
  | bare
  | plus
  | minus
deriving DecidableEq, Repr, Inhabited

/-- The exponent of a numeral, its digits in order. -/
structure Exponent where
  sign : ExponentSign
  digits : List Char
deriving DecidableEq, Repr, Inhabited

/-- A spelled number. An empty fraction means that no point is written. -/
structure Numeral where
  negative : Bool
  whole : List Char
  fraction : List Char
  exponent : Option Exponent
deriving DecidableEq, Repr, Inhabited

namespace ExponentSign

def chars : ExponentSign → List Char
  | bare => []
  | plus => ['+']
  | minus => ['-']

end ExponentSign

namespace Numeral

/-- The digits of a natural number as a numeral. -/
def ofNat (n : Nat) : Numeral :=
  ⟨false, Nat.toDigits 10 n, [], none⟩

def ofInt (i : Int) : Numeral :=
  ⟨i < 0, Nat.toDigits 10 i.natAbs, [], none⟩

def chars (n : Numeral) : List Char :=
  (if n.negative then ['-'] else []) ++ n.whole ++
    (if n.fraction.isEmpty then [] else '.' :: n.fraction) ++
    match n.exponent with
    | none => []
    | some e => 'e' :: e.sign.chars ++ e.digits

def text (n : Numeral) : String :=
  String.ofList n.chars

/-- What a digit is worth; any other character counts as its distance from `0`. -/
def digit (c : Char) : Nat :=
  c.toNat - '0'.toNat

/-- What a digit of base sixteen is worth. -/
def hexDigit? (c : Char) : Option Nat :=
  if '0' ≤ c ∧ c ≤ '9' then some (c.toNat - '0'.toNat)
  else if 'a' ≤ c ∧ c ≤ 'f' then some (c.toNat - 'a'.toNat + 10)
  else if 'A' ≤ c ∧ c ≤ 'F' then some (c.toNat - 'A'.toNat + 10)
  else none

/-- What a row of digits is worth. -/
def natOfDigits (ds : List Char) : Nat :=
  ds.foldl (fun n c => 10 * n + digit c) 0

end Numeral

end PlanLowering
