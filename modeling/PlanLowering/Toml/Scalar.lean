import PlanLowering.Toml.Basic

/-!
Values of a TOML document that are written without quotes: the two booleans, integers in four bases,
floats, dates and times. A word is a value only as a whole.
-/

namespace PlanLowering.TomlScalar

/-- The digits of a row in which an underscore may stand between any two of them. -/
def digits? (isDigit : Char → Bool) : List Char → Option (List Char)
  | [] => none
  | [c] => if isDigit c then some [c] else none
  | c :: '_' :: rest =>
    if isDigit c then (digits? isDigit rest).map (c :: ·) else none
  | c :: rest => if isDigit c then (digits? isDigit rest).map (c :: ·) else none

/-- Digits of base ten that do not start with a superfluous zero. -/
def decimal? (cs : List Char) : Option (List Char) :=
  match digits? Char.isDigit cs with
  | some ('0' :: _ :: _) => none
  | result => result

/-- The value of digits of a base up to sixteen. -/
def inBase? (base : Nat) (cs : List Char) : Option Nat := do
  let isDigit c := (Numeral.hexDigit? c).any (· < base)
  let digits ← digits? isDigit cs
  return digits.foldl (fun value c => base * value + (Numeral.hexDigit? c).getD 0) 0

/-- A word without its sign. -/
def unsigned : List Char → List Char
  | '+' :: rest | '-' :: rest => rest
  | cs => cs

def isNegative : List Char → Bool
  | '-' :: _ => true
  | _ => false

/-- An integer of any size. Only in base ten may it have a sign. -/
def integer? (cs : List Char) : Option Int :=
  match cs with
  | '0' :: 'x' :: rest => (inBase? 16 rest).map Int.ofNat
  | '0' :: 'o' :: rest => (inBase? 8 rest).map Int.ofNat
  | '0' :: 'b' :: rest => (inBase? 2 rest).map Int.ofNat
  | _ => do
    let value := Numeral.natOfDigits (← decimal? (unsigned cs))
    return if isNegative cs then -value else value

/-- The sign and the digits of an exponent, if there is one. -/
def exponent? : List Char → Option (Option Exponent)
  | [] => some none
  | c :: rest =>
    if c = 'e' ∨ c = 'E' then
      (digits? Char.isDigit (unsigned rest)).map fun digits => some ⟨sign rest, digits⟩
    else none
where
  sign : List Char → ExponentSign
    | '+' :: _ => .plus
    | '-' :: _ => .minus
    | _ => .bare

/-- The digits behind the point of a float. -/
def fraction? : List Char → Option (List Char)
  | [] => some []
  | '.' :: rest => digits? Char.isDigit rest
  | _ => none

/-- A float: whole digits, and a fraction or an exponent or both. -/
def float? (cs : List Char) : Option Numeral := do
  let isMantissa c := c ≠ 'e' && c ≠ 'E'
  let mantissa := (unsigned cs).takeWhile isMantissa
  let whole ← decimal? (mantissa.takeWhile (· ≠ '.'))
  let fraction ← fraction? (mantissa.dropWhile (· ≠ '.'))
  let exponent ← exponent? ((unsigned cs).dropWhile isMantissa)
  if fraction = [] ∧ exponent = none then none
  else some ⟨isNegative cs, whole, fraction, exponent⟩

/-- The floats that are no ordinary numbers. -/
def isSpecialFloat (cs : List Char) : Bool :=
  unsigned cs = ['i', 'n', 'f'] || unsigned cs = ['n', 'a', 'n']

/-! ### Dates and times -/

/-- A number of exactly so many digits, and what follows it. -/
def fixed? (count : Nat) (cs : List Char) : Option (Nat × List Char) :=
  let digits := cs.take count
  if digits.length = count ∧ digits.all Char.isDigit then
    some (Numeral.natOfDigits digits, cs.drop count)
  else none

/-- What follows a given character. -/
def after? (c : Char) : List Char → Option (List Char)
  | [] => none
  | first :: rest => if first = c then some rest else none

def isLeapYear (year : Nat) : Bool :=
  year % 4 = 0 && (year % 100 ≠ 0 || year % 400 = 0)

def daysIn (year month : Nat) : Nat :=
  if month = 2 then if isLeapYear year then 29 else 28
  else if month = 4 ∨ month = 6 ∨ month = 9 ∨ month = 11 then 30
  else 31

/-- Passes a day of the calendar. -/
def day? (cs : List Char) : Option (List Char) := do
  let (year, cs) ← fixed? 4 cs
  let (month, cs) ← fixed? 2 (← after? '-' cs)
  let (day, cs) ← fixed? 2 (← after? '-' cs)
  if 1 ≤ month ∧ month ≤ 12 ∧ 1 ≤ day ∧ day ≤ daysIn year month then some cs else none

/-- Passes hours and minutes. -/
def minutes? (cs : List Char) : Option (List Char) := do
  let (hour, cs) ← fixed? 2 cs
  let (minute, cs) ← fixed? 2 (← after? ':' cs)
  if hour ≤ 23 ∧ minute ≤ 59 then some cs else none

/-- Passes a time of the day: hours and minutes, and possibly seconds and a fraction of them. The last
minute of a day may have a leap second. -/
def time? (cs : List Char) : Option (List Char) := do
  let cs ← minutes? cs
  match cs with
  | ':' :: rest =>
    let (second, cs) ← fixed? 2 rest
    if second ≤ 60 then
      match cs with
      | '.' :: rest =>
        if (rest.takeWhile Char.isDigit).isEmpty then none
        else some (rest.dropWhile Char.isDigit)
      | _ => some cs
    else none
  | _ => some cs

/-- The distance from universal time, or nothing for a local time. -/
def isOffset : List Char → Bool
  | [] | ['Z'] | ['z'] => true
  | c :: rest => (c = '+' || c = '-') && minutes? rest = some []

/-- A date, a time, or both; only both together may have an offset. -/
def isDateTime (cs : List Char) : Bool :=
  match day? cs with
  | some [] => true
  | some (separator :: rest) =>
    (separator = 'T' || separator = 't' || separator = ' ') && (time? rest).any isOffset
  | none => time? cs = some []

/-! ### Words -/

/-- A character of a word. -/
def isWordChar (c : Char) : Bool :=
  c.isAlphanum || c = '_' || c = '+' || c = '-' || c = '.' || c = ':'

/-- The word at the start of a text. One blank between a date and a time belongs to the word. -/
def word (cs : List Char) : List Char × List Char :=
  let first := cs.takeWhile isWordChar
  match day? first, cs.dropWhile isWordChar with
  | some [], ' ' :: c :: rest =>
    if c.isDigit then
      (first ++ ' ' :: (c :: rest).takeWhile isWordChar, (c :: rest).dropWhile isWordChar)
    else (first, ' ' :: c :: rest)
  | _, following => (first, following)

/-- The value that a word stands for. -/
def ofWord? (cs : List Char) : Option Toml :=
  if cs = ['t', 'r', 'u', 'e'] then some (.boolean true)
  else if cs = ['f', 'a', 'l', 's', 'e'] then some (.boolean false)
  else if isSpecialFloat cs then some (.special (String.ofList cs))
  else if isDateTime cs then some (.dateTime (String.ofList cs))
  else
    match integer? cs with
    | some value => some (.integer value)
    | none => (float? cs).map .float

/-- A value without quotes, and what follows it. -/
def scalar? (cs : List Char) : Option (Toml × List Char) := do
  let (first, rest) := word cs
  let value ← ofWord? first
  return (value, rest)

end PlanLowering.TomlScalar
