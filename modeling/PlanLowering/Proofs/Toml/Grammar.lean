import PlanLowering.Proofs.Toml.Consistency
import PlanLowering.Proofs.Toml.Quoting
import PlanLowering.Toml.Reader
import PlanLowering.Toml.Writer

/-!
The grammar of a TOML document, written down without the reader: which characters spell which value,
and which text is made of which statements. Integers are those of sixty-four bits. The language sets no
limit to how deep values and keys may lead, but whoever reads it does, so that documents are told apart
by a limit that they keep to; each document keeps to some.
-/

namespace PlanLowering.TomlGrammar

open TomlBlank

/-! ### Between the parts -/

/-- Blanks inside a line. -/
def Blanks (cs : List Char) : Prop :=
  ∀ c ∈ cs, isSpace c = true

inductive LineEnd : List Char → Prop where
  | feed : LineEnd ['\n']
  | carriage : LineEnd ['\r', '\n']

/-- Blanks and line ends, and comments where they are allowed. -/
inductive Gap (comments : Bool) : List Char → Prop where
  | nil : Gap comments []
  | blank {c : Char} {rest : List Char} (hc : isSpace c = true) (h : Gap comments rest) :
      Gap comments (c :: rest)
  | lineEnd {ending rest : List Char} (hending : LineEnd ending) (h : Gap comments rest) :
      Gap comments (ending ++ rest)
  | comment {text ending rest : List Char} (hallowed : comments = true)
      (htext : ∀ c ∈ text, isPlain c = true) (hending : LineEnd ending) (h : Gap comments rest) :
      Gap comments ('#' :: (text ++ (ending ++ rest)))

/-- Neither a blank nor a line end is ahead. -/
def Visible (cs : List Char) : Prop :=
  ∀ c ∈ cs.head?, isSpace c = false ∧ c ≠ '\n' ∧ c ≠ '\r'

/-! ### Strings -/

/-- What digits of a base up to sixteen are worth together. -/
def worth (base : Nat) (digits : List Char) : Nat :=
  digits.foldl (fun value c => base * value + (Numeral.hexDigit? c).getD 0) 0

/-- What stands behind a backslash, and the character that it is for. -/
inductive Escape : List Char → Char → Prop where
  | quote : Escape ['"'] '"'
  | backslash : Escape ['\\'] '\\'
  | backspace : Escape ['b'] '\x08'
  | escape : Escape ['e'] '\x1b'
  | formFeed : Escape ['f'] '\x0c'
  | lineFeed : Escape ['n'] '\n'
  | carriageReturn : Escape ['r'] '\r'
  | tab : Escape ['t'] '\t'
  | number {letter : Char} {digits : List Char}
      (hletter : (letter, digits.length) ∈ [('x', 2), ('u', 4), ('U', 8)])
      (hdigits : ∀ c ∈ digits, (Numeral.hexDigit? c).isSome = true)
      (hvalid : (worth 16 digits).isValidChar) :
      Escape (letter :: digits) (Char.ofNat (worth 16 digits))

/-- What stands between the quotes of a style for a text, where so many quotes stand right before
it. -/
inductive Body (style : TomlQuotes) : Nat → List Char → List Char → Prop where
  | done {run : Nat} : Body style run [] []
  | quote {run : Nat} {spelled text : List Char} (hroom : run < style.quotesInside)
      (h : Body style (run + 1) spelled text) :
      Body style run (style.quote :: spelled) (style.quote :: text)
  | plain {run : Nat} {c : Char} {spelled text : List Char} (hplain : isPlain c = true)
      (hquote : c ≠ style.quote) (hbackslash : style.escapes = true → c ≠ '\\')
      (h : Body style 0 spelled text) : Body style run (c :: spelled) (c :: text)
  | lineEnd {run : Nat} {ending spelled text : List Char} (hlines : style.lines = true)
      (hending : LineEnd ending) (h : Body style 0 spelled text) :
      Body style run (ending ++ spelled) (ending ++ text)
  | escape {run : Nat} {c : Char} {letters spelled text : List Char}
      (hescapes : style.escapes = true) (hescape : Escape letters c)
      (h : Body style 0 spelled text) : Body style run ('\\' :: (letters ++ spelled)) (c :: text)
  /-- A backslash at the end of a line joins what is before it with what is ahead. -/
  | joined {run : Nat} {blanks ending gap spelled text : List Char}
      (hescapes : style.escapes = true) (hlines : style.lines = true) (hblanks : Blanks blanks)
      (hending : LineEnd ending) (hgap : Gap false gap) (hahead : Visible spelled)
      (h : Body style 0 spelled text) :
      Body style run ('\\' :: (blanks ++ (ending ++ (gap ++ spelled)))) text

/-- A string on one line. -/
inductive LineString : List Char → String → Prop where
  | intro {style : TomlQuotes} {spelled text : List Char} (hlines : style.lines = false)
      (h : Body style 0 spelled text) :
      LineString (style.quote :: (spelled ++ [style.quote])) (String.ofList text)

/-- A string between three quotes does not start with the line end right behind them. -/
inductive AnyString : List Char → String → Prop where
  | line {cs : List Char} {s : String} (h : LineString cs s) : AnyString cs s
  | lines {style : TomlQuotes} {spelled text : List Char} (hlines : style.lines = true)
      (hstart : ∀ c ∈ spelled.head?, c ≠ '\n' ∧ c ≠ '\r') (h : Body style 0 spelled text) :
      AnyString (style.delimiter ++ (spelled ++ style.delimiter)) (String.ofList text)
  | nextLine {style : TomlQuotes} {ending spelled text : List Char} (hlines : style.lines = true)
      (hending : LineEnd ending) (h : Body style 0 spelled text) :
      AnyString (style.delimiter ++ (ending ++ (spelled ++ style.delimiter))) (String.ofList text)

/-! ### Numbers -/

/-- The sign of a number, and whether it makes the number negative. -/
inductive Sign : List Char → Bool → Prop where
  | none : Sign [] false
  | plus : Sign ['+'] false
  | minus : Sign ['-'] true

/-- A row of digits, possibly with an underscore between two of them. -/
inductive Digits (isDigit : Char → Bool) : List Char → List Char → Prop where
  | one {c : Char} (hc : isDigit c = true) : Digits isDigit [c] [c]
  | next {c : Char} {spelled digits : List Char} (hc : isDigit c = true)
      (h : Digits isDigit spelled digits) : Digits isDigit (c :: spelled) (c :: digits)
  | underscore {c : Char} {spelled digits : List Char} (hc : isDigit c = true)
      (h : Digits isDigit spelled digits) : Digits isDigit (c :: '_' :: spelled) (c :: digits)

/-- Digits of base ten, of which only a lone one may be a leading zero. -/
def Whole (spelled digits : List Char) : Prop :=
  Digits Char.isDigit spelled digits ∧
    (digits = ['0'] ∨ ∃ first others, digits = first :: others ∧ first ≠ '0')

inductive IntegerWord : List Char → Int → Prop where
  | decimal {sign spelled digits : List Char} {negative : Bool} (hsign : Sign sign negative)
      (hwhole : Whole spelled digits) :
      IntegerWord (sign ++ spelled)
        (if negative then -(Numeral.natOfDigits digits : Int) else Numeral.natOfDigits digits)
  | based {letter : Char} {base : Nat} {spelled digits : List Char}
      (hbase : (letter, base) ∈ [('x', 16), ('o', 8), ('b', 2)])
      (hdigits : Digits (fun c => (Numeral.hexDigit? c).any (· < base)) spelled digits) :
      IntegerWord ('0' :: letter :: spelled) (worth base digits)

/-- The digits behind a point. -/
inductive Fraction : List Char → List Char → Prop where
  | none : Fraction [] []
  | some {spelled digits : List Char} (h : Digits Char.isDigit spelled digits) :
      Fraction ('.' :: spelled) digits

/-- A power of ten. -/
inductive Power : List Char → Option Exponent → Prop where
  | none : Power [] none
  | some {letter : Char} {sign : ExponentSign} {spelled digits : List Char}
      (hletter : letter = 'e' ∨ letter = 'E') (h : Digits Char.isDigit spelled digits) :
      Power (letter :: (sign.chars ++ spelled)) (some ⟨sign, digits⟩)

/-- A number with a fraction, a power of ten, or both. -/
inductive FloatWord : List Char → Numeral → Prop where
  | intro {sign spelled whole point fraction power : List Char} {negative : Bool}
      {exponent : Option Exponent} (hsign : Sign sign negative) (hwhole : Whole spelled whole)
      (hfraction : Fraction point fraction) (hpower : Power power exponent)
      (hfloat : fraction ≠ [] ∨ exponent ≠ none) :
      FloatWord (sign ++ (spelled ++ (point ++ power))) ⟨negative, whole, fraction, exponent⟩

/-! ### Dates and times -/

/-- So many digits, and what they are worth. -/
structure Fixed (count : Nat) (cs : List Char) (value : Nat) : Prop where
  length : cs.length = count
  digits : ∀ c ∈ cs, c.isDigit = true
  value : Numeral.natOfDigits cs = value

/-- A day of the calendar. -/
inductive Day : List Char → Prop where
  | intro {year month day : List Char} {y m d : Nat} (hyear : Fixed 4 year y)
      (hmonth : Fixed 2 month m) (hday : Fixed 2 day d) (hm : 1 ≤ m ∧ m ≤ 12)
      (hd : 1 ≤ d ∧ d ≤ TomlScalar.daysIn y m) : Day (year ++ '-' :: (month ++ '-' :: day))

inductive Minutes : List Char → Prop where
  | intro {hour minute : List Char} {h m : Nat} (hhour : Fixed 2 hour h)
      (hminute : Fixed 2 minute m) (hh : h ≤ 23) (hm : m ≤ 59) :
      Minutes (hour ++ ':' :: minute)

/-- A time of the day, to the minute, to the second, or to a fraction of it. -/
inductive Time : List Char → Prop where
  | minutes {cs : List Char} (h : Minutes cs) : Time cs
  | seconds {cs second : List Char} {s : Nat} (h : Minutes cs) (hsecond : Fixed 2 second s)
      (hs : s ≤ 60) : Time (cs ++ ':' :: second)
  | fraction {cs second digits : List Char} {s : Nat} (h : Minutes cs) (hsecond : Fixed 2 second s)
      (hs : s ≤ 60) (hne : digits ≠ []) (hdigits : ∀ c ∈ digits, c.isDigit = true) :
      Time (cs ++ ':' :: (second ++ '.' :: digits))

/-- The distance from universal time. -/
inductive Offset : List Char → Prop where
  | none : Offset []
  | zero {c : Char} (hc : c = 'Z' ∨ c = 'z') : Offset [c]
  | minutes {c : Char} {cs : List Char} (hc : c = '+' ∨ c = '-') (h : Minutes cs) :
      Offset (c :: cs)

inductive DateTime : List Char → Prop where
  | day {cs : List Char} (h : Day cs) : DateTime cs
  | time {cs : List Char} (h : Time cs) : DateTime cs
  | both {day time offset : List Char} {separator : Char} (hday : Day day)
      (hseparator : separator = 'T' ∨ separator = 't' ∨ separator = ' ') (htime : Time time)
      (hoffset : Offset offset) : DateTime (day ++ separator :: (time ++ offset))

/-! ### Keys and values -/

/-- A part of a dotted key. -/
inductive KeyPart : List Char → String → Prop where
  | bare {cs : List Char} (hne : cs ≠ []) (hchars : ∀ c ∈ cs, TomlReader.isKeyChar c = true) :
      KeyPart cs (String.ofList cs)
  | quoted {cs : List Char} {s : String} (h : LineString cs s) : KeyPart cs s

/-- A key of any number of parts, with blanks around its dots. -/
inductive DottedKey : List Char → TomlKey → Prop where
  | last {cs : List Char} {name : String} (h : KeyPart cs name) : DottedKey cs ⟨[], name⟩
  | dotted {part before behind cs : List Char} {name : String} {key : TomlKey}
      (hpart : KeyPart part name) (hbefore : Blanks before) (hbehind : Blanks behind)
      (h : DottedKey cs key) :
      DottedKey (part ++ (before ++ '.' :: (behind ++ cs))) ⟨name :: key.way, key.name⟩

/-- A key that leads no deeper than the limit. -/
def Key (limit : Nat) (cs : List Char) (key : TomlKey) : Prop :=
  DottedKey cs key ∧ key.way.length < limit

/-- A value that holds no other. -/
inductive Single : List Char → Toml → Prop where
  | string {cs : List Char} {s : String} (h : AnyString cs s) : Single cs (.string s)
  | integer {cs : List Char} {value : Int} (h : IntegerWord cs value)
      (hrange : -(2 ^ 63 : Int) ≤ value ∧ value < 2 ^ 63) : Single cs (.integer value)
  | float {cs : List Char} {numeral : Numeral} (h : FloatWord cs numeral) :
      Single cs (.float numeral)
  | special {sign name : List Char} {negative : Bool} (hsign : Sign sign negative)
      (hname : name = ['i', 'n', 'f'] ∨ name = ['n', 'a', 'n']) :
      Single (sign ++ name) (.special (String.ofList (sign ++ name)))
  | boolean (value : Bool) : Single (TomlWriter.flag value) (.boolean value)
  | dateTime {cs : List Char} (h : DateTime cs) : Single cs (.dateTime (String.ofList cs))

/-- What stands between brackets: items with commas between them and gaps around them, and possibly
one more comma behind the last item. -/
inductive Listed {α : Type} (Item : List Char → α → Prop) : List Char → List α → Prop where
  | none {gap : List Char} (hgap : Gap true gap) : Listed Item gap []
  | last {gap cs gap' : List Char} {item : α} (hgap : Gap true gap) (hitem : Item cs item)
      (hgap' : Gap true gap') : Listed Item (gap ++ (cs ++ gap')) [item]
  | more {gap cs gap' rest : List Char} {item : α} {items : List α} (hgap : Gap true gap)
      (hitem : Item cs item) (hgap' : Gap true gap') (h : Listed Item rest items) :
      Listed Item (gap ++ (cs ++ (gap' ++ ',' :: rest))) (item :: items)

/-- A key and its value. -/
inductive Pair (limit : Nat) (IsValue : List Char → Toml → Prop) :
    List Char → TomlKey × Toml → Prop where
  | intro {name before behind cs : List Char} {key : TomlKey} {value : Toml}
      (hkey : Key limit name key) (hbefore : Blanks before) (hbehind : Blanks behind)
      (hvalue : IsValue cs value) :
      Pair limit IsValue (name ++ (before ++ '=' :: (behind ++ cs))) (key, value)

/-- An array, or a table between braces, of values of a kind. The entries of a table fit together as
those of a document do. -/
inductive Nested (limit : Nat) (IsValue : List Char → Toml → Prop) : List Char → Toml → Prop where
  | array {cs : List Char} {items : List Toml} (h : Listed IsValue cs items) :
      Nested limit IsValue ('[' :: (cs ++ [']'])) (.array items)
  | table {cs : List Char} {entries : List (TomlKey × Toml)}
      (h : Listed (Pair limit IsValue) cs entries)
      (hconsistent : TomlDocument.Consistent (entries.map fun entry => .entry entry.1 entry.2)) :
      Nested limit IsValue ('\x7b' :: (cs ++ ['\x7d'])) (TomlTable.ofEntries entries).toValue

/-- A value with at most `depth` arrays and tables in each other. -/
def Value (limit : Nat) : (depth : Nat) → List Char → Toml → Prop
  | 0 => Single
  | depth + 1 => fun cs value => Single cs value ∨ Nested limit (Value limit depth) cs value

/-! ### Documents -/

inductive Statement (limit : Nat) : List Char → TomlStatement → Prop where
  | header {before cs behind : List Char} {key : TomlKey} (hbefore : Blanks before)
      (hkey : Key limit cs key) (hbehind : Blanks behind) :
      Statement limit ('[' :: (before ++ (cs ++ (behind ++ [']'])))) (.header key)
  | repeatedHeader {before cs behind : List Char} {key : TomlKey} (hbefore : Blanks before)
      (hkey : Key limit cs key) (hbehind : Blanks behind) :
      Statement limit ('[' :: '[' :: (before ++ (cs ++ (behind ++ [']', ']'])))) (.repeatedHeader key)
  | entry {cs : List Char} {key : TomlKey} {value : Toml}
      (h : Pair limit (Value limit limit) cs (key, value)) : Statement limit cs (.entry key value)

/-- The rest of a line without a statement: blanks, and possibly a comment. -/
inductive LineRest : List Char → Prop where
  | blanks {cs : List Char} (h : Blanks cs) : LineRest cs
  | comment {blanks text : List Char} (hblanks : Blanks blanks)
      (htext : ∀ c ∈ text, isPlain c = true) : LineRest (blanks ++ '#' :: text)

/-- A line has one statement at most. -/
inductive Line (limit : Nat) : List Char → List TomlStatement → Prop where
  | empty {cs : List Char} (h : LineRest cs) : Line limit cs []
  | statement {blanks cs rest : List Char} {statement : TomlStatement} (hblanks : Blanks blanks)
      (h : Statement limit cs statement) (hrest : LineRest rest) :
      Line limit (blanks ++ (cs ++ rest)) [statement]

inductive Lines (limit : Nat) : List Char → List TomlStatement → Prop where
  | last {cs : List Char} {statements : List TomlStatement} (h : Line limit cs statements) :
      Lines limit cs statements
  | more {cs ending rest : List Char} {statements others : List TomlStatement}
      (hline : Line limit cs statements) (hending : LineEnd ending) (h : Lines limit rest others) :
      Lines limit (cs ++ (ending ++ rest)) (statements ++ others)

/-- The statements of a text that keeps to a limit; the text may start with a byte order mark. -/
inductive Document (limit : Nat) : List Char → List TomlStatement → Prop where
  | unmarked {cs : List Char} {statements : List TomlStatement} (h : Lines limit cs statements) :
      Document limit cs statements
  | marked {cs : List Char} {statements : List TomlStatement} (h : Lines limit cs statements) :
      Document limit ('\ufeff' :: cs) statements

end PlanLowering.TomlGrammar
