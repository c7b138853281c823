import PlanLowering.Number.Numeral

/-!
JSON as a tree, as a row of tokens, and as text. The text is compact: fields in the order given, no
blanks, and no escapes but those that a string needs.
-/

namespace PlanLowering

/-- What is wrong with a text that is no JSON. -/
inductive JsonFault where
  /-- The text ends too early. -/
  | cutOff
  /-- The text breaks the grammar, or goes beyond what may be read. -/
  | grammar
deriving DecidableEq, Repr

inductive JsonWord where
  | null
  | true
  | false
deriving DecidableEq, Repr

def JsonWord.chars : JsonWord → List Char
  | null => ['n', 'u', 'l', 'l']
  | true => ['t', 'r', 'u', 'e']
  | false => ['f', 'a', 'l', 's', 'e']

/-- The pieces of a text. The last five stand for what is no proper token; a text has nothing after a
piece that was cut. -/
inductive JsonToken where
  | openArray
  | closeArray
  | openObject
  | closeObject
  | comma
  | colon
  | word (word : JsonWord)
  | number (numeral : Numeral)
  | string (text : String)
  /-- A whole string that names half of a surrogate pair: it can be skipped but not read. -/
  | unpaired
  /-- A string that is not closed properly, with the faults met by reading and by skipping it. -/
  | cutString (read skip : JsonFault)
  /-- A number that breaks off, with the fault met by reading it. -/
  | cutNumber (read : JsonFault)
  | cutWord (fault : JsonFault)
  /-- A character that starts no token. -/
  | stray
deriving DecidableEq, Repr

/-- A JSON value; numbers are kept as they are spelled. -/
inductive Json where
  | null
  | bool (value : Bool)
  | number (numeral : Numeral)
  | string (text : String)
  | array (items : List Json)
  | object (fields : List (String × Json))
deriving Inhabited, Repr

namespace Json

def nat (n : Nat) : Json :=
  number (.ofNat n)

def int (i : Int) : Json :=
  number (.ofInt i)

def strings (texts : List String) : Json :=
  array (texts.map string)

def field? (key : String) : Json → Option Json
  | object fields => fields.lookup key
  | _ => none

mutual

/-- The tokens of a value. -/
def tokens : Json → List JsonToken
  | null => [.word .null]
  | bool value => [.word (if value then .true else .false)]
  | number numeral => [.number numeral]
  | string text => [.string text]
  | array [] => [.openArray, .closeArray]
  | array (item :: items) => .openArray :: item.tokens ++ itemTokens items ++ [.closeArray]
  | object [] => [.openObject, .closeObject]
  | object ((key, value) :: fields) =>
    .openObject :: .string key :: .colon :: value.tokens ++ fieldTokens fields ++ [.closeObject]

/-- Further items of an array, each after a comma. -/
def itemTokens : List Json → List JsonToken
  | [] => []
  | item :: items => .comma :: item.tokens ++ itemTokens items

/-- Further fields of an object, each after a comma. -/
def fieldTokens : List (String × Json) → List JsonToken
  | [] => []
  | (key, value) :: fields =>
    .comma :: .string key :: .colon :: value.tokens ++ fieldTokens fields

end

/-- How many arrays and objects lie in each other at most. -/
def nesting : List JsonToken → Nat
  | tokens => (tokens.foldl step (0, 0)).2
where
  /-- The nesting at the current token, and the deepest so far. -/
  step (state : Nat × Nat) : JsonToken → Nat × Nat
    | .openArray | .openObject => (state.1 + 1, max state.2 (state.1 + 1))
    | .closeArray | .closeObject => (state.1 - 1, state.2)
    | _ => state

end Json

namespace JsonToken

/-- The number of a control character in four digits of base sixteen. -/
def unitEscape (c : Char) : List Char :=
  let digits := Nat.toDigits 16 c.toNat
  ['\\', 'u'] ++ List.replicate (4 - digits.length) '0' ++ digits

/-- A character as it stands in a written string. -/
def escaped (c : Char) : List Char :=
  if c = '"' then ['\\', '"']
  else if c = '\\' then ['\\', '\\']
  else if c = '\x08' then ['\\', 'b']
  else if c = '\t' then ['\\', 't']
  else if c = '\n' then ['\\', 'n']
  else if c = '\x0c' then ['\\', 'f']
  else if c = '\r' then ['\\', 'r']
  else if c.toNat < 32 then unitEscape c
  else [c]

def stringChars (text : String) : List Char :=
  '"' :: text.toList.flatMap escaped ++ ['"']

/-- The text of a proper token. -/
def chars : JsonToken → List Char
  | openArray => ['[']
  | closeArray => [']']
  | openObject => ['\x7b']
  | closeObject => ['\x7d']
  | comma => [',']
  | colon => [':']
  | word w => w.chars
  | number numeral => numeral.chars
  | string text => stringChars text
  | unpaired | cutString _ _ | cutNumber _ | cutWord _ | stray => []

end JsonToken

namespace Json

/-- The compact text of a value. -/
def text (json : Json) : String :=
  String.ofList (json.tokens.flatMap JsonToken.chars)

end Json

end PlanLowering
