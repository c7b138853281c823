/-!
What stands between the parts of a TOML document: blanks, line ends and comments.
-/

namespace PlanLowering.TomlBlank

/-- A blank inside a line. -/
def isSpace (c : Char) : Bool :=
  c = ' ' ∨ c = '\t'

def skipSpace (cs : List Char) : List Char :=
  cs.dropWhile isSpace

/-- The character may stand in a string or a comment: it is the tabulator or no control character. -/
def isPlain (c : Char) : Bool :=
  c = '\t' ∨ (32 ≤ c.toNat ∧ c.toNat ≠ 127)

/-- A line end, as it is written. -/
def lineEnd? : List Char → Option (List Char × List Char)
  | '\n' :: rest => some (['\n'], rest)
  | '\r' :: '\n' :: rest => some (['\r', '\n'], rest)
  | _ => none

/-- Passes blanks and line ends. -/
def skipLines : List Char → List Char
  | [] => []
  | '\r' :: '\n' :: rest => skipLines rest
  | c :: rest => if isSpace c ∨ c = '\n' then skipLines rest else c :: rest

/-- The text without a line end at its start. -/
def dropLineEnd (cs : List Char) : List Char :=
  match lineEnd? cs with
  | some (_, rest) => rest
  | none => cs

/-- Passes blanks, line ends and comments. A comment is left at a control character, which nothing
else accepts. -/
def skipGaps (inComment : Bool) : List Char → List Char
  | [] => []
  | '\r' :: '\n' :: rest => skipGaps false rest
  | c :: rest =>
    if c = '\n' then skipGaps false rest
    else if inComment then
      if isPlain c then skipGaps true rest else c :: rest
    else if c = '#' then skipGaps true rest
    else if isSpace c then skipGaps false rest
    else c :: rest

/-- The text behind the end of a line, where only blanks and a comment may stand before it. -/
def lineRest? (cs : List Char) : Option (List Char) :=
  let rest :=
    match skipSpace cs with
    | '#' :: rest => rest.dropWhile isPlain
    | rest => rest
  match rest with
  | [] => some []
  | rest => (lineEnd? rest).map Prod.snd

end PlanLowering.TomlBlank
