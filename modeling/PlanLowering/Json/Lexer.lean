import PlanLowering.Json.Basic

/-!
The tokens of a text. Every text has tokens; where it breaks off or breaks the grammar inside a token,
the last token says so and what follows is dropped, because nobody gets past it.
-/

namespace PlanLowering.JsonLexer

/-- A scanned token and what is left of the text. -/
abbrev Scan := JsonToken × List Char

/-- Reads the letters of a word that is known by its first letter. -/
def scanWord (word : JsonWord) : List Char → List Char → Scan
  | [], rest => (.word word, rest)
  | _ :: _, [] => (.cutWord .cutOff, [])
  | letter :: letters, c :: rest =>
    if c = letter then scanWord word letters rest else (.cutWord .grammar, [])

/-- A piece of a string: a character, or the UTF-16 unit that an escape names. -/
inductive Piece where
  | char (c : Char)
  | unit (code : Nat)
deriving DecidableEq, Repr

/-- The unit named by four digits of base sixteen. -/
def hexUnit? (a b c d : Char) : Option Nat := do
  return ((← Numeral.hexDigit? a) * 16 + (← Numeral.hexDigit? b)) * 256 + ((← Numeral.hexDigit? c) * 16 + (← Numeral.hexDigit? d))

/-- The character named by a one-letter escape. -/
def shortEscape? : Char → Option Char
  | '"' => some '"'
  | '\\' => some '\\'
  | '/' => some '/'
  | 'b' => some '\x08'
  | 'f' => some '\x0c'
  | 'n' => some '\n'
  | 'r' => some '\r'
  | 't' => some '\t'
  | _ => none

/-- The fault of an escape whose four digits are not there: the text has ended when fewer than four
bytes are left. -/
def shortUnitFault (rest : List Char) : JsonFault :=
  if rest.foldl (fun size c => size + c.utf8Size) 0 < 4 then .cutOff else .grammar

/-- The pieces of a string up to its closing quote, and what follows it or why there is none. -/
def scanPieces : List Char → List Piece × Except JsonFault (List Char)
  | [] => ([], .error .cutOff)
  | '"' :: rest => ([], .ok rest)
  | '\\' :: 'u' :: a :: b :: c :: d :: rest =>
    match hexUnit? a b c d with
    | some code =>
      let (pieces, ending) := scanPieces rest
      (.unit code :: pieces, ending)
    | none => ([], .error (shortUnitFault (a :: b :: c :: d :: rest)))
  | '\\' :: 'u' :: rest => ([], .error (shortUnitFault rest))
  | '\\' :: c :: rest =>
    match shortEscape? c with
    | some named =>
      let (pieces, ending) := scanPieces rest
      (.char named :: pieces, ending)
    | none => ([], .error .grammar)
  | ['\\'] => ([], .error .cutOff)
  | c :: rest =>
    if c.toNat < 32 then ([], .error .grammar)
    else
      let (pieces, ending) := scanPieces rest
      (.char c :: pieces, ending)

/-- What surrogate pairs make of the pieces of a string. -/
inductive Pairing where
  | whole (chars : List Char)
  /-- The last piece is the first half of a pair. -/
  | pending
  /-- Half of a pair stands alone. -/
  | broken
deriving DecidableEq, Repr

def Pairing.cons (c : Char) : Pairing → Pairing
  | whole chars => whole (c :: chars)
  | pending => pending
  | broken => broken

def isLead (code : Nat) : Bool :=
  0xd800 ≤ code && code ≤ 0xdbff

def isTrail (code : Nat) : Bool :=
  0xdc00 ≤ code && code ≤ 0xdfff

/-- The character that two halves of a pair stand for. -/
def joined (lead trail : Nat) : Char :=
  Char.ofNat (0x10000 + (lead - 0xd800) * 1024 + (trail - 0xdc00))

def pairUp : List Piece → Pairing
  | [] => .whole []
  | .char c :: rest => (pairUp rest).cons c
  | .unit code :: rest =>
    if isTrail code then .broken
    else if isLead code then
      match rest with
      | [] => .pending
      | .unit next :: others =>
        if isTrail next then (pairUp others).cons (joined code next) else .broken
      | .char _ :: _ => .broken
    else (pairUp rest).cons (Char.ofNat code)

/-- The string whose opening quote was just passed. -/
def scanString (cs : List Char) : Scan :=
  match scanPieces cs with
  | (pieces, .ok rest) =>
    match pairUp pieces with
    | .whole chars => (.string (String.ofList chars), rest)
    | .pending | .broken => (.unpaired, rest)
  | (pieces, .error fault) =>
    match pairUp pieces with
    | .whole _ | .pending => (.cutString fault fault, [])
    | .broken => (.cutString .grammar fault, [])

/-- The fault of a number that lacks a digit before `rest`. -/
def missingDigit (rest : List Char) : Scan :=
  (.cutNumber (if rest.isEmpty then .cutOff else .grammar), [])

/-- The exponent of a number whose `e` was just passed. -/
def scanExponent (negative : Bool) (whole fraction : List Char) (cs : List Char) : Scan :=
  let (sign, cs) :=
    match cs with
    | '+' :: rest => (ExponentSign.plus, rest)
    | '-' :: rest => (ExponentSign.minus, rest)
    | _ => (ExponentSign.bare, cs)
  let digits := cs.takeWhile Char.isDigit
  let rest := cs.dropWhile Char.isDigit
  if digits.isEmpty then missingDigit rest
  else (.number ⟨negative, whole, fraction, some ⟨sign, digits⟩⟩, rest)

/-- What may follow the fraction of a number. -/
def scanPower (negative : Bool) (whole fraction : List Char) : List Char → Scan
  | 'e' :: rest | 'E' :: rest => scanExponent negative whole fraction rest
  | rest => (.number ⟨negative, whole, fraction, none⟩, rest)

/-- What may follow the whole digits of a number. -/
def scanFraction (negative : Bool) (whole : List Char) : List Char → Scan
  | '.' :: cs =>
    let digits := cs.takeWhile Char.isDigit
    let rest := cs.dropWhile Char.isDigit
    if digits.isEmpty then missingDigit rest else scanPower negative whole digits rest
  | rest => scanPower negative whole [] rest

/-- The number after its sign: a lone zero, or digits that do not start with one. -/
def scanWhole (negative : Bool) (cs : List Char) : Scan :=
  match cs with
  | '0' :: rest =>
    if (rest.takeWhile Char.isDigit).isEmpty then scanFraction negative ['0'] rest
    else (.cutNumber .grammar, [])
  | _ =>
    let digits := cs.takeWhile Char.isDigit
    let rest := cs.dropWhile Char.isDigit
    if digits.isEmpty then missingDigit rest else scanFraction negative digits rest

/-- The token that starts with the character `c`, which is no blank. -/
def scan (c : Char) (rest : List Char) : Scan :=
  match c with
  | '[' => (.openArray, rest)
  | ']' => (.closeArray, rest)
  | '\x7b' => (.openObject, rest)
  | '\x7d' => (.closeObject, rest)
  | ',' => (.comma, rest)
  | ':' => (.colon, rest)
  | 'n' => scanWord .null ['u', 'l', 'l'] rest
  | 't' => scanWord .true ['r', 'u', 'e'] rest
  | 'f' => scanWord .false ['a', 'l', 's', 'e'] rest
  | '"' => scanString rest
  | '-' => scanWhole true rest
  | _ => if c.isDigit then scanWhole false (c :: rest) else (.stray, [])

/-- Blanks between tokens. -/
def isSpace (c : Char) : Bool :=
  c == ' ' || c == '\n' || c == '\t' || c == '\r'

theorem length_scanWord_le (word : JsonWord) (letters cs : List Char) :
    (scanWord word letters cs).2.length ≤ cs.length := by
  induction letters generalizing cs with
  | nil => simp [scanWord]
  | cons letter letters ih =>
    cases cs with
    | nil => simp [scanWord]
    | cons c rest =>
      simp only [scanWord]
      split
      · exact Nat.le_succ_of_le (ih rest)
      · simp

theorem length_lt_of_scanPieces {cs rest : List Char} (h : (scanPieces cs).2 = .ok rest) :
    rest.length < cs.length := by
  fun_induction scanPieces cs with
  | case1 => simp at h
  | case2 => simp_all
  | case3 => simp_all; omega
  | case4 => simp at h
  | case5 => simp at h
  | case6 => simp_all; omega
  | case7 => simp at h
  | case8 => simp at h
  | case9 => simp at h
  | case10 => simp_all; omega

theorem length_scanString_le (cs : List Char) : (scanString cs).2.length ≤ cs.length := by
  unfold scanString
  split
  · next pieces rest h =>
    have := @length_lt_of_scanPieces cs rest (by rw [h])
    split <;> simp <;> omega
  · split <;> simp

theorem length_missingDigit (rest : List Char) : (missingDigit rest).2.length = 0 := rfl

theorem length_scanExponent_le (negative : Bool) (whole fraction cs : List Char) :
    (scanExponent negative whole fraction cs).2.length ≤ cs.length := by
  unfold scanExponent
  split
  next sign digits h =>
  have hle : digits.length ≤ cs.length := by
    split at h <;> cases h <;> simp
  have := (List.dropWhile_suffix (l := digits) Char.isDigit).length_le
  simp only
  split
  · simp [length_missingDigit]
  · simp only; omega

theorem length_scanPower_le (negative : Bool) (whole fraction cs : List Char) :
    (scanPower negative whole fraction cs).2.length ≤ cs.length := by
  unfold scanPower
  split
  · exact Nat.le_succ_of_le (length_scanExponent_le ..)
  · exact Nat.le_succ_of_le (length_scanExponent_le ..)
  · simp

theorem length_scanFraction_le (negative : Bool) (whole cs : List Char) :
    (scanFraction negative whole cs).2.length ≤ cs.length := by
  unfold scanFraction
  split
  · next cs =>
    have := (List.dropWhile_suffix (l := cs) Char.isDigit).length_le
    have := length_scanPower_le negative whole (cs.takeWhile Char.isDigit)
      (cs.dropWhile Char.isDigit)
    simp only
    split
    · simp [length_missingDigit]
    · simp only [List.length_cons]; omega
  · exact length_scanPower_le ..

/-- A number uses up a character at least, or the whole text. -/
theorem length_scanWhole_le (negative : Bool) (cs : List Char) :
    (scanWhole negative cs).2.length ≤ cs.length - 1 := by
  unfold scanWhole
  split
  · split
    · exact length_scanFraction_le ..
    · simp
  · have hsplit := List.takeWhile_append_dropWhile (p := Char.isDigit) (l := cs)
    have hlength := congrArg List.length hsplit
    have := length_scanFraction_le negative (cs.takeWhile Char.isDigit) (cs.dropWhile Char.isDigit)
    simp only [List.length_append] at hlength
    simp only
    split
    · simp [length_missingDigit]
    · next h =>
      have : 0 < (cs.takeWhile Char.isDigit).length := by
        simpa [List.length_pos_iff] using h
      omega

theorem length_scan_le (c : Char) (rest : List Char) : (scan c rest).2.length ≤ rest.length := by
  unfold scan
  split
  all_goals try simp only [Nat.le_refl]
  · exact length_scanWord_le ..
  · exact length_scanWord_le ..
  · exact length_scanWord_le ..
  · exact length_scanString_le ..
  · exact Nat.le_trans (length_scanWhole_le ..) (Nat.sub_le ..)
  · split
    · exact length_scanWhole_le ..
    · simp

/-- The tokens of a text. -/
def lex : List Char → List JsonToken
  | [] => []
  | c :: rest =>
    if isSpace c then lex rest
    else (scan c rest).1 :: lex (scan c rest).2
termination_by cs => cs.length
decreasing_by
  · simp
  · have := length_scan_le c rest
    simp only [List.length_cons]
    omega

end PlanLowering.JsonLexer
