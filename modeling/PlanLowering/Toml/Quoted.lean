import PlanLowering.Number.Numeral
import PlanLowering.Toml.Blank

/-!
Strings of a TOML document, in four styles. Between double quotes a backslash starts an escape; between
single quotes every character stands for itself. Between three quotes a string may go over several
lines, and a line end right after the opening quotes does not count.
-/

namespace PlanLowering

structure TomlQuotes where
  /-- Double quotes, and escapes. -/
  escapes : Bool
  /-- Three quotes, and more than one line. -/
  lines : Bool
deriving DecidableEq, Repr

namespace TomlQuotes

open TomlBlank

def quote (style : TomlQuotes) : Char :=
  if style.escapes then '"' else '\''

def delimiter (style : TomlQuotes) : List Char :=
  List.replicate (if style.lines then 3 else 1) style.quote

/-! ### Reading -/

/-- The value of a row of so many digits of base sixteen, behind those that `value` stands for. -/
def hexNumber? : Nat → Nat → List Char → Option (Nat × List Char)
  | 0, value, cs => some (value, cs)
  | _ + 1, _, [] => none
  | count + 1, value, c :: cs => do
    let digit ← Numeral.hexDigit? c
    hexNumber? count (16 * value + digit) cs

/-- The character with the number given by so many digits. -/
def numbered? (count : Nat) (cs : List Char) : Option (List Char × List Char) := do
  let (code, rest) ← hexNumber? count 0 cs
  if code.isValidChar then some ([Char.ofNat code], rest) else none

/-- What an escape stands for; its backslash was just passed. -/
def escape? : List Char → Option (List Char × List Char)
  | [] => none
  | c :: rest =>
    match c with
    | '"' => some (['"'], rest)
    | '\\' => some (['\\'], rest)
    | 'b' => some (['\x08'], rest)
    | 'e' => some (['\x1b'], rest)
    | 'f' => some (['\x0c'], rest)
    | 'n' => some (['\n'], rest)
    | 'r' => some (['\r'], rest)
    | 't' => some (['\t'], rest)
    | 'x' => numbered? 2 rest
    | 'u' => numbered? 4 rest
    | 'U' => numbered? 8 rest
    | _ => none

/-- A backslash at the end of a line joins it with the next text: blanks and line ends between them
count for nothing. -/
def joinedLine? (cs : List Char) : Option (List Char × List Char) :=
  match lineEnd? (skipSpace cs) with
  | some (_, rest) => some ([], skipLines rest)
  | none => none

/-- A piece of a string that does not start with its closing quotes. -/
def piece? (style : TomlQuotes) : List Char → Option (List Char × List Char)
  | [] => none
  | c :: rest =>
    if style.escapes ∧ c = '\\' then
      match if style.lines then joinedLine? rest else none with
      | some joined => some joined
      | none => escape? rest
    else if isPlain c then some ([c], rest)
    else if style.lines then lineEnd? (c :: rest)
    else none

/-- The end of a string, if it is here. Of more than three quotes in a row, one or two still belong to
the string. -/
def closing? (style : TomlQuotes) (cs : List Char) : Option (List Char × List Char) :=
  let quotes := (cs.takeWhile (· = style.quote)).length
  if style.lines then
    if quotes < 3 then none
    else
      let kept := min (quotes - 3) 2
      some (List.replicate kept style.quote, cs.drop (3 + kept))
  else if quotes = 0 then none
  else some ([], cs.drop 1)

/-- A string whose opening quotes were just passed, and what follows its closing quotes. -/
def body? (style : TomlQuotes) (cs : List Char) : Option (List Char × List Char) :=
  match style.closing? cs with
  | some ending => some ending
  | none =>
    match style.piece? cs with
    | none => none
    | some (chars, rest) =>
      if rest.length < cs.length then
        match body? style rest with
        | none => none
        | some (more, following) => some (chars ++ more, following)
      else none
termination_by cs.length

/-- A string on one line. -/
def line? : List Char → Option (String × List Char)
  | '"' :: rest => finish ⟨true, false⟩ rest
  | '\'' :: rest => finish ⟨false, false⟩ rest
  | _ => none
where
  finish (style : TomlQuotes) (cs : List Char) : Option (String × List Char) := do
    let (chars, rest) ← style.body? cs
    return (String.ofList chars, rest)

/-- A string in any style. -/
def string? : List Char → Option (String × List Char)
  | '"' :: '"' :: '"' :: rest => line?.finish ⟨true, true⟩ (dropLineEnd rest)
  | '\'' :: '\'' :: '\'' :: rest => line?.finish ⟨false, true⟩ (dropLineEnd rest)
  | cs => line? cs

/-! ### Writing -/

/-- Control characters other than the tabulator and the line feed cannot stand for themselves. -/
def needsEscape (c : Char) : Bool :=
  c ≠ '\n' ∧ !isPlain c

/-- The most quotes that stand in a row. -/
def longestRun (quote : Char) (cs : List Char) : Nat :=
  (cs.foldl (fun (run, longest) c =>
    if c = quote then (run + 1, max longest (run + 1)) else (0, longest)) (0, 0)).2

/-- The styles that can hold a text as it is, the simplest first; at last a style with escapes. -/
def choose (cs : List Char) : TomlQuotes :=
  let control := cs.any needsEscape
  let newline := cs.contains '\n'
  let backslash := cs.contains '\\'
  let double := longestRun '"' cs
  let single := longestRun '\'' cs
  if !control && !backslash && double = 0 && !newline then ⟨true, false⟩
  else if !control && single = 0 && !newline then ⟨false, false⟩
  else if !control && !backslash && double ≤ 2 then ⟨true, true⟩
  else if !control && single ≤ 2 then ⟨false, true⟩
  else ⟨true, newline⟩

/-- A control character by its number. -/
def numberedEscape (c : Char) : List Char :=
  let digits := (Nat.toDigits 16 c.toNat).map Char.toUpper
  ['\\', 'u'] ++ List.replicate (4 - digits.length) '0' ++ digits

/-- A character, not a quote, between double quotes. -/
def escaped (lines : Bool) (c : Char) : List Char :=
  if c = '\\' then ['\\', '\\']
  else if c = '\x08' then ['\\', 'b']
  else if c = '\t' then ['\\', 't']
  else if c = '\n' then if lines then ['\n'] else ['\\', 'n']
  else if c = '\x0c' then ['\\', 'f']
  else if c = '\r' then ['\\', 'r']
  else if isPlain c then [c]
  else numberedEscape c

/-- A text between double quotes, where `run` quotes have just been written. Two quotes in a row may
stand between three. -/
def escapedAll (lines : Bool) : Nat → List Char → List Char
  | _, [] => []
  | run, c :: cs =>
    if c = '"' then
      if run < (if lines then 2 else 0) then '"' :: escapedAll lines (run + 1) cs
      else '\\' :: '"' :: escapedAll lines 0 cs
    else escaped lines c ++ escapedAll lines 0 cs

/-- A text in a style. A text of several lines starts on a line of its own. -/
def write (style : TomlQuotes) (cs : List Char) : List Char :=
  style.delimiter ++
    (if style.lines && cs.contains '\n' then ['\n'] else []) ++
    (if style.escapes then escapedAll style.lines 0 cs else cs) ++ style.delimiter

/-- A text as a string of a document. -/
def written (text : String) : List Char :=
  (choose text.toList).write text.toList

end TomlQuotes

end PlanLowering
