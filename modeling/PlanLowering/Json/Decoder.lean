import PlanLowering.Json.Fault
import PlanLowering.Json.Lexer
import PlanLowering.Named

/-!
Typed reading of JSON. A decoder reads the tokens of one value from left to right and stops at the
first thing that is wrong, so that an early misfit wins over a later break of the grammar. It is given
how many more arrays and objects may be opened inside each other; values that are skipped do not
count.
-/

namespace PlanLowering

abbrev Decoder (α : Type) := ReaderT Nat (StateT (List JsonToken) (Except ReadError)) α

namespace Decoder

variable {α β : Type}

/-- How many arrays and objects may lie in each other. -/
def maxNesting : Nat := 127

def faulty (fault : JsonFault) : Decoder α :=
  throw (.text fault)

def unfit (misfit : Misfit) : Decoder α :=
  throw (.data misfit)

/-- The token that comes next is read; at the end of the text the text is cut off. -/
def next : Decoder JsonToken := do
  match ← get with
  | [] => faulty .cutOff
  | token :: rest =>
    set rest
    return token

/-- Passes this very token. -/
def expect (token : JsonToken) : Decoder Unit := do
  if (← next) = token then return else faulty .grammar

/-- Refuses the value that starts with `token`. Numbers and strings are read to their end first, and
their own faults win. -/
def refuse (expected : String) : JsonToken → Decoder α
  | .word .null => unfit (.invalidType .null expected)
  | .word .true => unfit (.invalidType (.bool true) expected)
  | .word .false => unfit (.invalidType (.bool false) expected)
  | .number numeral =>
    match JsonNumber.ofNumeral? numeral with
    | none => faulty .grammar
    | some (.unsigned n) => unfit (.invalidType (.integer n.toNat) expected)
    | some (.negative n) => unfit (.invalidType (.integer n.toInt) expected)
    | some (.real x) => unfit (.invalidType (.float x) expected)
  | .string text => unfit (.invalidType (.string text) expected)
  | .openArray => unfit (.invalidType .sequence expected)
  | .openObject => unfit (.invalidType .map expected)
  | .cutString fault _ | .cutNumber fault | .cutWord fault => faulty fault
  | _ => faulty .grammar

/-- Reads on one level further down, after the bracket that opens it. -/
def inside (decoder : Decoder α) : Decoder α := do
  match ← read with
  | 0 => faulty .grammar
  | room + 1 => withReader (fun _ => room) decoder

/-- The least decoder with `decoder = step decoder`, provided that each level of `step` opens an array
or an object before it reads on. -/
def recursive (step : Decoder α → Decoder α) : Decoder α := do
  level step ((← read) + 1)
where
  level (step : Decoder α → Decoder α) : Nat → Decoder α
    | 0 => faulty .grammar
    | n + 1 => step (level step n)

/-! ### Scalars -/

def number (expected : String) (accept : JsonNumber → Decoder α) : Decoder α := do
  match ← next with
  | .number numeral =>
    match JsonNumber.ofNumeral? numeral with
    | some n => accept n
    | none => faulty .grammar
  | token => refuse expected token

def uint64 (expected : String) : Decoder UInt64 :=
  number expected fun
    | .unsigned n => return n
    | .negative n => unfit (.invalidValue (.integer n.toInt) expected)
    | .real x => unfit (.invalidType (.float x) expected)

def int64 : Decoder Int64 :=
  number "i64" fun
    | .unsigned n =>
      if n.toNat < Nat.pow 2 63 then return n.toInt64
      else unfit (.invalidValue (.integer n.toNat) "i64")
    | .negative n => return n
    | .real x => unfit (.invalidType (.float x) "i64")

/-- Integers are accepted and rounded. -/
def binary64 : Decoder Binary64 :=
  number "f64" fun
    | .unsigned n => return Binary64.ofNat n.toNat
    | .negative n => return (Binary64.ofNat n.toInt.natAbs).neg
    | .real x => return x

def bool : Decoder Bool := do
  match ← next with
  | .word .true => return true
  | .word .false => return false
  | token => refuse "a boolean" token

def string (expected : String) : Decoder String := do
  match ← next with
  | .string text => return text
  | token => refuse expected token

def unit : Decoder Unit := do
  match ← next with
  | .word .null => return
  | token => refuse "unit" token

/-! ### Skipping -/

/-- Where a skipped value stands. -/
inductive SkipState where
  | value
  /-- Right after an opening bracket. -/
  | opened
  /-- After a whole value. -/
  | after
  | key
  | colon
deriving DecidableEq, Repr

/-- The brackets that are open: `true` for an object. -/
abbrev Open := List Bool

def skipValue (brackets : Open) : JsonToken → Except JsonFault (SkipState × Open)
  | .word _ | .number _ | .string _ | .unpaired => .ok (.after, brackets)
  | .openArray => .ok (.opened, false :: brackets)
  | .openObject => .ok (.opened, true :: brackets)
  | .cutString _ fault | .cutWord fault => .error fault
  | _ => .error .grammar

def skipKey (brackets : Open) : JsonToken → Except JsonFault (SkipState × Open)
  | .string _ | .unpaired => .ok (.colon, brackets)
  | .cutString _ fault => .error fault
  | _ => .error .grammar

/-- Moves over one token of a skipped value. -/
def skipStep (brackets : Open) : SkipState → JsonToken → Except JsonFault (SkipState × Open)
  | .value, token => skipValue brackets token
  | .key, token => skipKey brackets token
  | .colon, .colon => .ok (.value, brackets)
  | .colon, _ => .error .grammar
  | .opened, token =>
    match brackets, token with
    | false :: outer, .closeArray => .ok (.after, outer)
    | true :: outer, .closeObject => .ok (.after, outer)
    | true :: _, token => skipKey brackets token
    | _, token => skipValue brackets token
  | .after, token =>
    match brackets, token with
    | false :: _, .comma => .ok (.value, brackets)
    | true :: _, .comma => .ok (.key, brackets)
    | false :: outer, .closeArray => .ok (.after, outer)
    | true :: outer, .closeObject => .ok (.after, outer)
    | _, _ => .error .grammar

/-- What is left after a value that is skipped, however deep it is. -/
def skipFrom (state : SkipState) (brackets : Open) :
    List JsonToken → Except JsonFault (List JsonToken)
  | [] => .error .cutOff
  | token :: rest =>
    match skipStep brackets state token with
    | .error fault => .error fault
    | .ok (.after, []) => .ok rest
    | .ok (state, brackets) => skipFrom state brackets rest

/-- Skips one value. -/
def skip : Decoder Unit := do
  match skipFrom .value [] (← get) with
  | .ok rest => set rest
  | .error fault => faulty fault

/-! ### Arrays -/

/-- Decides whether an array goes on, and passes the comma before the next item. -/
def anotherItem (first : Bool) : Decoder Bool := do
  match ← get with
  | [] => faulty .cutOff
  | .closeArray :: _ => return false
  | .comma :: rest =>
    if first then return true
    else
      match rest with
      | [] => faulty .cutOff
      | .closeArray :: _ => faulty .grammar
      | _ =>
        set rest
        return true
  | _ => if first then return true else faulty .grammar

/-- Items up to the closing bracket, which stays. An item that uses no token up is no item. -/
def items (item : Decoder α) (first : Bool) (room : Nat) (tokens : List JsonToken) :
    Except ReadError (List α × List JsonToken) :=
  match anotherItem first room tokens with
  | .error e => .error e
  | .ok (false, rest) => .ok ([], rest)
  | .ok (true, rest) =>
    match item room rest with
    | .error e => .error e
    | .ok (value, left) =>
      if left.length < tokens.length then
        match items item false room left with
        | .error e => .error e
        | .ok (values, left) => .ok (value :: values, left)
      else .error (.text .grammar)
termination_by tokens.length

/-- A list of values. -/
def list (item : Decoder α) : Decoder (List α) := do
  match ← next with
  | .openArray =>
    inside do
      let values ← items item true
      expect .closeArray
      return values
  | token => refuse "a sequence" token

def pairLabel : String := "a tuple of size 2"

/-- An array of exactly two values. -/
def pair (left : Decoder α) (right : Decoder β) : Decoder (α × β) := do
  match ← next with
  | .openArray =>
    inside do
      unless ← anotherItem true do
        unfit (.invalidLength 0 pairLabel)
      let a ← left
      unless ← anotherItem false do
        unfit (.invalidLength 1 pairLabel)
      let b ← right
      expect .closeArray
      return (a, b)
  | token => refuse pairLabel token

/-! ### Objects -/

/-- A key; nothing but a string will do. -/
def key : Decoder String := do
  match ← next with
  | .string text => return text
  | .cutString fault _ => faulty fault
  | _ => faulty .grammar

/-- The key of the next field, or `none` at the closing brace, which stays. -/
def anotherKey (first : Bool) : Decoder (Option String) := do
  match ← get with
  | [] => faulty .cutOff
  | .closeObject :: _ => return none
  | .comma :: rest =>
    if first then faulty .grammar
    else
      set rest
      if rest.isEmpty then faulty .cutOff else some <$> key
  | _ => if first then some <$> key else faulty .grammar

/-- The fields of a record in order: the name of each, its decoder, and what stands for it when it is
absent. -/
inductive Fields : Type → Type 1 where
  | done : Fields Unit
  | field {α β : Type} (name : String) (decoder : Decoder α) (absent : Option α)
      (others : Fields β) : Fields (α × β)

namespace Fields

/-- A field that has to be there. -/
def needed (name : String) (decoder : Decoder α) (others : Fields β) : Fields (α × β) :=
  field name decoder none others

/-- A field that stands for `value` when it is absent. -/
def optional (name : String) (decoder : Decoder α) (value : α) (others : Fields β) : Fields (α × β) :=
  field name decoder (some value) others

/-- The number of fields. -/
def size {α : Type} : Fields α → Nat
  | done => 0
  | field _ _ _ others => others.size + 1

/-- The values of the fields that were read so far. -/
def Slots : {α : Type} → Fields α → Type
  | _, done => Unit
  | _, @field α _ _ _ _ others => Option α × Slots others

def empty : {α : Type} → (fields : Fields α) → fields.Slots
  | _, done => ()
  | _, field _ _ _ others => (none, empty others)

/-- Reads the value of the field with this name into its slot; a second value is refused before it is
read. There is no answer for a name that no field has. -/
def readInto : {α : Type} → (fields : Fields α) → fields.Slots → String →
    Option (Decoder fields.Slots)
  | _, done, _, _ => none
  | _, field name decoder _ others, slots, key =>
    let (slot, slots) : Option _ × others.Slots := slots
    if key = name then
      some do
        if slot.isSome then
          unfit (.duplicateField name)
        expect .colon
        return (some (← decoder), slots)
    else
      (readInto others slots key).map fun read => do return (slot, ← read)

/-- The record, once its closing brace is reached: the first field that is needed and absent is
reported. -/
def complete : {α : Type} → (fields : Fields α) → fields.Slots → Except Misfit α
  | _, done, _ => .ok ()
  | _, field name _ absent others, slots =>
    let (slot, slots) : Option _ × others.Slots := slots
    match slot <|> absent with
    | none => .error (.missingField name)
    | some value =>
      match complete others slots with
      | .error misfit => .error misfit
      | .ok values => .ok (value, values)

/-- Fields in any order up to the closing brace, which stays. Fields that nobody knows are skipped. -/
def readFields {α : Type} (fields : Fields α) (first : Bool) (slots : fields.Slots) (room : Nat)
    (tokens : List JsonToken) : Except ReadError (fields.Slots × List JsonToken) :=
  match anotherKey first room tokens with
  | .error e => .error e
  | .ok (none, rest) => .ok (slots, rest)
  | .ok (some key, rest) =>
    let value : Decoder fields.Slots :=
      (fields.readInto slots key).getD do
        expect .colon
        skip
        return slots
    match value room rest with
    | .error e => .error e
    | .ok (slots, left) =>
      if left.length < tokens.length then readFields fields false slots room left
      else .error (.text .grammar)
termination_by tokens.length

/-- Fields in declaration order as the items of an array, the first of them having the index `index`.
The array may end before fields that can be absent. -/
def readItems (label : String) (index : Nat) : {α : Type} → Fields α → Decoder α
  | _, done => return ()
  | _, field _ decoder absent others => do
    if ← anotherItem (index = 0) then
      let value ← decoder
      return (value, ← readItems label (index + 1) others)
    else
      match absent with
      | some value => return (value, ← readItems label (index + 1) others)
      | none => unfit (.invalidLength index label)

end Fields

/-- A record, as an object or as an array of its fields. -/
def record (label : String) (fields : Fields α) : Decoder α := do
  match ← next with
  | .openObject =>
    inside do
      let slots ← fields.readFields true fields.empty
      expect .closeObject
      match fields.complete slots with
      | .ok value => return value
      | .error misfit => unfit misfit
  | .openArray =>
    inside do
      let noun := if fields.size = 1 then " element" else " elements"
      let value ← fields.readItems (label ++ " with " ++ (Numeral.ofNat fields.size).text ++ noun) 0
      expect .closeArray
      return value
  | token => refuse label token

/-! ### Variants -/

/-- What a variant carries. -/
inductive Payload (α : Type) where
  | none (value : α)
  /-- A single value. -/
  | single (decoder : Decoder α)
  /-- A record of fields. -/
  | fields (decoder : Decoder α)

/-- A variant by its name. -/
structure Variant (α : Type) where
  name : String
  payload : Payload α

def named (variants : List (Variant α)) (name : String) : Decoder (Payload α) :=
  match variants.find? fun variant => variant.name == name with
  | some variant => return variant.payload
  | none => unfit (.unknownVariant name (variants.map Variant.name))

/-- One of several variants: a bare name for one that carries nothing, or an object whose only key is
the name and whose value is what the variant carries. As everywhere in an object, what stands in the
place of the key and is no string breaks the grammar. -/
def variant (variants : List (Variant α)) : Decoder α := do
  match ← next with
  | .openObject =>
    inside do
      let payload ← named variants (← key)
      expect .colon
      let value ←
        match payload with
        | .none value => do
          unit
          pure value
        | .single decoder | .fields decoder => decoder
      expect .closeObject
      return value
  | .string name =>
    match ← named variants name with
    | .none value => return value
    | .single _ => unfit (.invalidType .unitVariant "newtype variant")
    | .fields _ => unfit (.invalidType .unitVariant "struct variant")
  | .cutString fault _ => faulty fault
  | _ => faulty .grammar

/-- A member of a vocabulary by its name. -/
def vocabulary (α : Type) [Named α] : Decoder α :=
  variant ((Named.all : List α).map fun member => ⟨Named.name member, .none member⟩)

/-! ### Whole texts -/

/-- Reads a text as one value with nothing after it. -/
def ofText (decoder : Decoder α) (text : String) : Except ReadError α :=
  match decoder maxNesting (JsonLexer.lex text.toList) with
  | .error e => .error e
  | .ok (value, []) => .ok value
  | .ok (_, _ :: _) => .error (.text .grammar)

end Decoder

end PlanLowering
