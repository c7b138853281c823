import PlanLowering.Proofs.Json.Reading

/-!
Lists, records and variants. Each of them is recovered from its tokens if its parts are: the items
of a list one after the other, the fields of a record in the order in which they are declared, and
what a variant carries behind its name.
-/

namespace PlanLowering

/-- A value starts with a token of its own. -/
theorem Json.tokens_eq_cons (json : Json) :
    ∃ token others, json.tokens = token :: others ∧ token ≠ .closeArray := by
  cases json with
  | array items => cases items <;> exact ⟨_, _, rfl, nofun⟩
  | object fields => cases fields <;> exact ⟨_, _, rfl, nofun⟩
  | _ => exact ⟨_, _, rfl, nofun⟩

namespace Decoder

variable {α β γ : Type}

/-! ### Lists -/

/-- Reads on up to a closing bracket, and the bracket. -/
def closed (closing : JsonToken) (decoder : Decoder α) : Decoder α := do
  let value ← decoder
  expect closing
  return value

theorem bind_closed (closing : JsonToken) (decoder : Decoder α) (following : α → Decoder β) :
    (do
      let value ← decoder
      expect closing
      following value) = closed closing decoder >>= following := by
  simp [closed]

theorem reads_closed {limit : Nat} {decoder : Decoder α} {tokens : List JsonToken}
    {outcome : Outcome α} (closing : JsonToken) (h : decoder.Reads limit tokens outcome) :
    (closed closing decoder).Reads limit (tokens ++ [closing]) outcome := by
  have hclosing : ∀ value : α, (expect closing >>= fun _ => (Pure.pure value : Decoder α)).Reads
      limit [closing] fun _ => .ok value :=
    fun value => (reads_expect closing).bind_ok (reads_pure value)
  intro room hroom rest
  rw [closed, run_bind, List.append_assoc, h room hroom]
  cases outcome room with
  | error e => rfl
  | ok value => exact hclosing value room hroom rest

theorem anotherItem_true {first : Bool} {token : JsonToken} (htoken : token ≠ .closeArray)
    (room : Nat) (tokens : List JsonToken) :
    anotherItem first room ((if first then [] else [.comma]) ++ token :: tokens) =
      .ok (true, token :: tokens) := by
  cases first with
  | true => cases token <;> first | rfl | exact absurd rfl htoken
  | false => cases token <;> first | rfl | exact absurd rfl htoken

section Lists

variable {limit : Nat} {item : Decoder α} {outcome : Outcome α} {first : Bool}

/-- An item is read up to the comma or the bracket behind it. -/
theorem items_cons {json : Json} (h : item.Reads limit json.tokens outcome) {room : Nat}
    (hroom : room < limit) (more : List JsonToken) :
    items item first room ((if first then [] else [.comma]) ++ (json.tokens ++ more)) =
      (outcome room).bind fun value =>
        (items item false room more).map fun result => (value :: result.1, result.2) := by
  obtain ⟨token, others, htokens, htoken⟩ := json.tokens_eq_cons
  have hanother : anotherItem first room
      ((if first then [] else [JsonToken.comma]) ++ (json.tokens ++ more)) =
      .ok (true, json.tokens ++ more) := by
    rw [htokens]
    exact anotherItem_true htoken room _
  have hshorter : more.length <
      ((if first then [] else [JsonToken.comma]) ++ (json.tokens ++ more)).length := by
    rw [htokens]
    simp only [List.length_append, List.length_cons]
    omega
  rw [items, hanother]
  dsimp only
  rw [h room hroom]
  cases outcome room with
  | error e => rfl
  | ok value =>
      dsimp only [Except.map, Except.bind]
      rw [if_pos hshorter]
      cases items item false room more <;> rfl

/-- The items of an array, the first of them without a comma in front. -/
def itemTokens (first : Bool) : List Json → List JsonToken
  | [] => []
  | json :: jsons => (if first then [] else [.comma]) ++ (json.tokens ++ itemTokens false jsons)

theorem itemTokens_false (jsons : List Json) : itemTokens false jsons = Json.itemTokens jsons := by
  induction jsons with
  | nil => rfl
  | cons json jsons ih =>
      rw [itemTokens, ih]
      rfl

theorem tokens_array (jsons : List Json) :
    (Json.array jsons).tokens = .openArray :: (itemTokens true jsons ++ [.closeArray]) := by
  cases jsons with
  | nil => rfl
  | cons json jsons =>
      rw [itemTokens, itemTokens_false]
      rfl

theorem closed_items_nil : (closed .closeArray (items item first)).Reads limit [.closeArray]
    fun _ => .ok [] := by
  intro room _ rest
  have hitems : items item first room (.closeArray :: rest) = .ok ([], .closeArray :: rest) := by
    rw [items]
    rfl
  rw [closed, run_bind, List.singleton_append, hitems]
  rfl

theorem closed_items_cons {json : Json} {tokens : List JsonToken} {outcome' : Outcome (List α)}
    (h : item.Reads limit json.tokens outcome)
    (h' : (closed .closeArray (items item false)).Reads limit tokens outcome') :
    (closed .closeArray (items item first)).Reads limit
      ((if first then [] else [.comma]) ++ (json.tokens ++ tokens))
      fun room => (both outcome outcome' room).map fun pair => pair.1 :: pair.2 := by
  intro room hroom rest
  have hstep : closed .closeArray (items item first) room
      ((if first then [] else [.comma]) ++ (json.tokens ++ (tokens ++ rest))) =
      (outcome room).bind fun value =>
        (closed .closeArray (items item false) room (tokens ++ rest)).map
          fun result => (value :: result.1, result.2) := by
    rw [closed, closed, run_bind, run_bind, items_cons h hroom]
    cases outcome room with
    | error e => rfl
    | ok value =>
        cases items item false room (tokens ++ rest) with
        | error e => rfl
        | ok result =>
            dsimp only [Except.map, Except.bind]
            rw [run_bind, run_bind]
            cases expect .closeArray room result.2 <;> rfl
  rw [List.append_assoc, List.append_assoc, hstep, h' room hroom]
  dsimp only [both]
  cases outcome room with
  | error e => rfl
  | ok value => cases outcome' room <;> rfl

/-- The items are recovered if each of them is. -/
theorem recovers_items {write : α → Json} {floats : α → Floats} {values : List α}
    (hvalues : ∀ value ∈ values,
      Recovers limit item (write value).tokens (write value).depth value (floats value)) :
    ∃ outcome, (∀ first, (closed .closeArray (items item first)).Reads limit
        (itemTokens first (values.map write) ++ [.closeArray]) outcome) ∧
      Faithful limit (Json.itemsDepth (values.map write)) values
        (fun p => ∀ value ∈ values, floats value p) outcome := by
  induction values with
  | nil =>
      refine ⟨_, fun first => closed_items_nil, (Faithful.pure limit []).congr ?_⟩
      simp
  | cons value values ih =>
      rw [List.forall_mem_cons] at hvalues
      obtain ⟨⟨outcome, hreads, hfaithful⟩, hothers⟩ := hvalues
      obtain ⟨outcome', hreads', hfaithful'⟩ := ih hothers
      have hcons := (hfaithful.pair hfaithful').map fun pair => pair.1 :: pair.2
      refine ⟨_, fun first => ?_, hcons.congr fun p => List.forall_mem_cons⟩
      rw [List.map_cons, itemTokens, List.append_assoc, List.append_assoc]
      exact closed_items_cons hreads (hreads' false)

end Lists

/-- An array is read one level further down than its items. -/
theorem reads_list {limit : Nat} {item : Decoder α} {jsons : List Json}
    {outcome : Outcome (List α)}
    (h : (closed .closeArray (items item true)).Reads limit
      (itemTokens true jsons ++ [.closeArray]) outcome) :
    (list item).Reads (limit + 1) (Json.array jsons).tokens fun
      | 0 => .error (.text .grammar)
      | room + 1 => outcome room := by
  rw [tokens_array, ← List.singleton_append]
  exact (reads_next .openArray).bind_ok h.inside

theorem Recovers.list {limit : Nat} {item : Decoder α} {write : α → Json} {floats : α → Floats}
    {values : List α}
    (hvalues : ∀ value ∈ values,
      Recovers limit item (write value).tokens (write value).depth value (floats value)) :
    Recovers (limit + 1) (list item) (Json.array (values.map write)).tokens
      (Json.array (values.map write)).depth values fun p => ∀ value ∈ values, floats value p := by
  obtain ⟨outcome, hreads, hfaithful⟩ := recovers_items hvalues
  exact ⟨_, reads_list (hreads true), hfaithful.inside⟩

/-! ### Pairs -/

/-- Another item is at hand wherever a value stands, behind its comma. -/
theorem reads_anotherItem {limit : Nat} {following : Bool → Decoder α} {json : Json}
    {tokens : List JsonToken} {outcome : Outcome α} (first : Bool)
    (h : (following true).Reads limit (json.tokens ++ tokens) outcome) :
    (anotherItem first >>= following).Reads limit
      ((if first then [] else [.comma]) ++ (json.tokens ++ tokens)) outcome := by
  intro room hroom rest
  obtain ⟨token, others, htokens, htoken⟩ := json.tokens_eq_cons
  have hfollowing := h room hroom rest
  rw [htokens, List.cons_append, List.cons_append] at hfollowing
  rw [run_bind, htokens, List.append_assoc, List.cons_append, List.cons_append,
    anotherItem_true htoken]
  exact hfollowing

/-- Two values are recovered from an array of both. -/
theorem Recovers.pair {limit : Nat} {left : Decoder α} {right : Decoder β} {json json' : Json}
    {a : α} {b : β} {floats floats' : Floats}
    (h : Recovers limit left json.tokens json.depth a floats)
    (h' : Recovers limit right json'.tokens json'.depth b floats') :
    Recovers (limit + 1) (pair left right) (Json.array [json, json']).tokens
      (Json.array [json, json']).depth (a, b) fun p => floats p ∧ floats' p := by
  obtain ⟨outcome, hreads, hfaithful⟩ := h
  obtain ⟨outcome', hreads', hfaithful'⟩ := h'
  have hclosed : ∀ a : α, (right >>= fun b => expect .closeArray >>= fun _ =>
      (Pure.pure (a, b) : Decoder (α × β))).Reads limit (json'.tokens ++ [.closeArray])
      fun room => (outcome' room).bind fun b => .ok (a, b) :=
    fun a => hreads'.bind fun b => (reads_expect .closeArray).bind_end (reads_pure (a, b))
  have htokens : (Json.array [json, json']).tokens = [.openArray] ++
      ([] ++ (json.tokens ++ ([.comma] ++ (json'.tokens ++ [.closeArray])))) := by
    simp [Json.tokens, Json.itemTokens]
  have hdepth : (Json.array [json, json']).depth = max json.depth json'.depth + 1 := by
    simp [Json.depth, Json.itemsDepth]
  rw [htokens, hdepth]
  refine Recovers.after (reads_next .openArray)
    (Recovers.inside ⟨_, ?_, hfaithful.pair hfaithful'⟩)
  apply reads_anotherItem true
  apply hreads.bind
  intro a
  exact reads_anotherItem false (hclosed a)

/-! ### Records -/

/-- The fields of an object, the first of them without a comma in front. -/
def memberTokens (first : Bool) : List (String × Json) → List JsonToken
  | [] => []
  | (key, json) :: entries =>
    (if first then [] else [.comma]) ++
      .string key :: .colon :: (json.tokens ++ memberTokens false entries)

theorem memberTokens_false (entries : List (String × Json)) :
    memberTokens false entries = Json.fieldTokens entries := by
  induction entries with
  | nil => rfl
  | cons entry entries ih =>
      rw [memberTokens, ih]
      rfl

theorem tokens_object (entries : List (String × Json)) :
    (Json.object entries).tokens =
      .openObject :: (memberTokens true entries ++ [.closeObject]) := by
  cases entries with
  | nil => rfl
  | cons entry entries =>
      rw [memberTokens, memberTokens_false]
      rfl

theorem anotherKey_string (first : Bool) (key : String) (room : Nat) (tokens : List JsonToken) :
    anotherKey first room ((if first then [] else [.comma]) ++ .string key :: tokens) =
      .ok (some key, tokens) := by
  cases first <;> rfl

namespace Fields

variable {limit : Nat}

/-- All slots filled. -/
def full : {α : Type} → (fields : Fields α) → α → fields.Slots
  | _, done, _ => ()
  | _, field _ _ _ others, (value, values) => (some value, others.full values)

theorem complete_full (fields : Fields α) (value : α) :
    fields.complete (fields.full value) = .ok value := by
  induction fields with
  | done => rfl
  | field name decoder absent others ih =>
      simp [complete, full, ih]

/-- A field is read into its slot as long as this is empty. -/
theorem reads_readInto (name : String) {decoder : Decoder α} (absent : Option α)
    {others : Fields β} {tokens : List JsonToken} {outcome : Outcome α}
    (h : decoder.Reads limit tokens outcome) (slots : others.Slots) :
    ∃ reader, (field name decoder absent others).readInto (none, slots) name = some reader ∧
      reader.Reads limit (.colon :: tokens)
        fun room => (outcome room).map fun value => (some value, slots) := by
  refine ⟨_, if_pos rfl, ?_⟩
  change (expect .colon >>= fun _ => decoder >>= fun value =>
    (pure (some value, slots) : Decoder (Option α × others.Slots))).Reads _ _ _
  apply (reads_expect .colon).bind_ok
  rw [bind_pure_comp]
  exact h.map _

/-- One field of an object is read, and the others go on from there. -/
theorem readFields_cons {fields : Fields α} {slots : fields.Slots} {first : Bool} {key : String}
    {json : Json} {reader : Decoder fields.Slots} {outcome : Outcome fields.Slots}
    (hreader : fields.readInto slots key = some reader)
    (h : reader.Reads limit (.colon :: json.tokens) outcome) {room : Nat} (hroom : room < limit)
    (more : List JsonToken) :
    fields.readFields first slots room ((if first then [] else [.comma]) ++
        .string key :: .colon :: (json.tokens ++ more)) =
      (outcome room).bind fun slots => fields.readFields false slots room more := by
  have hvalue : reader room (.colon :: (json.tokens ++ more)) =
      (outcome room).map fun slots => (slots, more) := h room hroom more
  have hshorter : more.length < ((if first then [] else [JsonToken.comma]) ++
      .string key :: .colon :: (json.tokens ++ more)).length := by
    simp only [List.length_append, List.length_cons]
    omega
  rw [readFields, anotherKey_string]
  dsimp only
  rw [hreader, Option.getD_some, hvalue]
  cases outcome room with
  | error e => rfl
  | ok slots =>
      dsimp only [Except.map, Except.bind]
      rw [if_pos hshorter]

theorem closed_readFields_cons (first : Bool) {fields : Fields α} {slots : fields.Slots}
    {key : String} {json : Json} {reader : Decoder fields.Slots} {outcome : Outcome fields.Slots}
    (hreader : fields.readInto slots key = some reader)
    (h : reader.Reads limit (.colon :: json.tokens) outcome) {room : Nat} (hroom : room < limit)
    (more : List JsonToken) :
    closed .closeObject (fields.readFields first slots) room
        ((if first then [] else [.comma]) ++ .string key :: .colon :: (json.tokens ++ more)) =
      (outcome room).bind fun slots =>
        closed .closeObject (fields.readFields false slots) room more := by
  rw [closed, run_bind, readFields_cons hreader h hroom]
  cases outcome room <;> rfl

/-- What is read into the slots of some fields is read into those of others, under these keys. -/
def Embeds (limit : Nat) (keys : List String) (fields : Fields α) (others : Fields β)
    (embed : fields.Slots → others.Slots) : Prop :=
  ∀ slots, ∀ key ∈ keys, ∀ reader tokens outcome, fields.readInto slots key = some reader →
    reader.Reads limit tokens outcome →
    ∃ reader', others.readInto (embed slots) key = some reader' ∧
      reader'.Reads limit tokens fun room => (outcome room).map embed

theorem Embeds.refl (limit : Nat) (keys : List String) (fields : Fields α) :
    Embeds limit keys fields fields id := by
  intro slots key _ reader tokens outcome hreader hreads
  refine ⟨reader, hreader, ?_⟩
  intro room hroom rest
  rw [hreads room hroom]
  dsimp only
  cases outcome room <;> rfl

/-- Behind a field with another name, the slot of that field stays as it is. -/
theorem Embeds.tail {keys keys' : List String} {name : String} {decoder : Decoder α}
    {absent : Option α} {others : Fields β} {fields : Fields γ}
    {embed : (field name decoder absent others).Slots → fields.Slots}
    (h : Embeds limit keys (field name decoder absent others) fields embed)
    (hkeys : ∀ key ∈ keys', key ∈ keys) (hname : name ∉ keys') (slot : Option α) :
    Embeds limit keys' others fields fun slots => embed (slot, slots) := by
  intro slots key hkey reader tokens outcome hreader hreads
  have hne : key ≠ name := fun heq => hname (heq ▸ hkey)
  have hinto : (field name decoder absent others).readInto (slot, slots) key =
      some (reader >>= fun slots => pure (slot, slots)) := by
    simp only [readInto, if_neg hne, hreader]
    rfl
  have hreads' : (reader >>= fun slots =>
      (pure (slot, slots) : Decoder (Option α × others.Slots))).Reads limit tokens
        fun room => (outcome room).map fun slots => (slot, slots) := by
    rw [bind_pure_comp]
    exact hreads.map _
  obtain ⟨reader', hreader', hresult⟩ := h _ key (hkeys key hkey) _ _ _ hinto hreads'
  refine ⟨reader', hreader', ?_⟩
  intro room hroom rest
  rw [hresult room hroom]
  dsimp only
  cases outcome room <;> rfl

/-- At the closing brace the slots are what they have become. -/
theorem reads_end (first : Bool) (fields : Fields α) (slots : fields.Slots) :
    (closed .closeObject (fields.readFields first slots)).Reads limit [.closeObject]
      fun _ => .ok slots := by
  intro room _ rest
  have hfields : fields.readFields first slots room (.closeObject :: rest) =
      .ok (slots, .closeObject :: rest) := by
    rw [readFields]
    rfl
  rw [closed, run_bind, List.singleton_append]
  change (fields.readFields first slots room (.closeObject :: rest)).bind _ = _
  rw [hfields]
  rfl

/-- The first field of a record goes into its slot, and the others follow. -/
theorem reads_field {keys : List String} {name : String} {decoder : Decoder α} {absent : Option α}
    {others : Fields β} {target : Fields γ}
    {embed : (field name decoder absent others).Slots → target.Slots}
    (hembed : Embeds limit keys (field name decoder absent others) target embed)
    (hname : name ∈ keys) {json : Json} {entries : List (String × Json)} {outcome : Outcome α}
    {outcome' : α → Outcome target.Slots} (hvalue : decoder.Reads limit json.tokens outcome)
    (hothers : ∀ value,
      (closed .closeObject (target.readFields false (embed (some value, others.empty)))).Reads limit
        (memberTokens false entries ++ [.closeObject]) (outcome' value)) (first : Bool) :
    (closed .closeObject
        (target.readFields first (embed (field name decoder absent others).empty))).Reads limit
      (memberTokens first ((name, json) :: entries) ++ [.closeObject])
      fun room => (outcome room).bind fun value => outcome' value room := by
  intro room hroom rest
  obtain ⟨reader, hreader, hslot⟩ := reads_readInto name absent hvalue others.empty
  obtain ⟨reader', hreader', hslot'⟩ := hembed _ name hname reader _ _ hreader hslot
  have hstep := closed_readFields_cons first hreader' hslot' hroom
    (memberTokens false entries ++ .closeObject :: rest)
  have htokens : memberTokens first ((name, json) :: entries) ++ [.closeObject] ++ rest =
      (if first then [] else [.comma]) ++ .string name :: .colon ::
        (json.tokens ++ (memberTokens false entries ++ .closeObject :: rest)) := by
    simp [memberTokens]
  refine (congrArg _ htokens).trans (hstep.trans ?_)
  dsimp only
  cases outcome room with
  | error e => rfl
  | ok value =>
      have hrest := hothers value room hroom rest
      rw [List.append_assoc] at hrest
      exact hrest

/-- What becomes of the slots once the closing brace is passed. -/
def completed (fields : Fields α) (outcome : Outcome fields.Slots) : Outcome α :=
  fun room => (outcome room).bind fun slots => (fields.complete slots).mapError ReadError.data

end Fields

/-- The fields of a record as they are written, in declaration order. -/
inductive Row (limit : Nat) : {α : Type} → Fields α → List (String × Json) → α → Floats → Prop where
  | done : Row limit .done [] () fun _ => True
  | field {α β : Type} {name : String} {decoder : Decoder α} {absent : Option α}
      {others : Fields β} {json : Json} {entries : List (String × Json)} {value : α} {values : β}
      {floats floats' : Floats}
      (hvalue : Recovers limit decoder json.tokens json.depth value floats)
      (hvalues : Row limit others entries values floats') :
      Row limit (.field name decoder absent others) ((name, json) :: entries) (value, values)
        fun p => floats p ∧ floats' p

/-- The fields are recovered if each of them is, as long as no two have one name. -/
theorem Row.recovers {limit : Nat} {fields : Fields α} {entries : List (String × Json)} {value : α}
    {floats : Floats} (h : Row limit fields entries value floats)
    (hnames : (entries.map Prod.fst).Nodup) :
    ∃ outcome, Faithful limit (Json.fieldsDepth entries) value floats outcome ∧
      ∀ {γ : Type} (others : Fields γ) (embed : fields.Slots → others.Slots),
        Fields.Embeds limit (entries.map Prod.fst) fields others embed →
        ∀ first, (closed .closeObject (others.readFields first (embed fields.empty))).Reads limit
          (memberTokens first entries ++ [.closeObject])
          fun room => (outcome room).map fun value => embed (fields.full value) := by
  induction h with
  | done =>
      exact ⟨_, .pure limit (), fun others embed _ first => Fields.reads_end first others _⟩
  | @field α β name decoder absent others json entries value values _ _ hvalue _ ih =>
      obtain ⟨hname, hnames⟩ := List.nodup_cons.mp hnames
      obtain ⟨outcome, hreads, hfaithful⟩ := hvalue
      obtain ⟨outcome', hfaithful', hrow⟩ := ih hnames
      refine ⟨_, hfaithful.pair hfaithful', ?_⟩
      intro γ target embed hembed first room hroom rest
      have hothers := fun value => hrow target _
        (hembed.tail (fun key => List.mem_cons_of_mem name) hname (some value)) false
      refine (Fields.reads_field hembed List.mem_cons_self hreads hothers first room hroom
        rest).trans ?_
      dsimp only [both]
      cases outcome room with
      | error e => rfl
      | ok value => cases outcome' room <;> rfl

/-- A record is read one level further down than its fields. -/
theorem reads_record {limit : Nat} {fields : Fields α} {entries : List (String × Json)}
    {outcome : Outcome fields.Slots} (label : String)
    (h : (closed .closeObject (fields.readFields true fields.empty)).Reads limit
      (memberTokens true entries ++ [.closeObject]) outcome) :
    (record label fields).Reads (limit + 1) (Json.object entries).tokens fun
      | 0 => .error (.text .grammar)
      | room + 1 => fields.completed outcome room := by
  rw [tokens_object, ← List.singleton_append]
  apply (reads_next .openObject).bind_ok
  apply Reads.inside
  rw [bind_closed]
  intro room hroom rest
  rw [run_bind, h room hroom, Fields.completed]
  cases outcome room with
  | error e => rfl
  | ok slots =>
      dsimp only [Except.map, Except.bind]
      cases fields.complete slots <;> rfl

theorem Recovers.record {limit : Nat} {fields : Fields α} {entries : List (String × Json)}
    {value : α} {floats : Floats} (label : String) (h : Row limit fields entries value floats)
    (hnames : (entries.map Prod.fst).Nodup) :
    Recovers (limit + 1) (record label fields) (Json.object entries).tokens
      (Json.object entries).depth value floats := by
  obtain ⟨outcome, hfaithful, hrow⟩ := h.recovers hnames
  have hcompleted : fields.completed (fun room => (outcome room).map fields.full) = outcome := by
    funext room
    rw [Fields.completed]
    cases outcome room with
    | error e => rfl
    | ok value =>
        dsimp only [Except.map, Except.bind]
        rw [Fields.complete_full]
        rfl
  have hreads := reads_record label (hrow fields id (.refl limit _ fields) true)
  refine ⟨_, hreads, ?_⟩
  have hinside := hfaithful.inside
  rw [← hcompleted] at hinside
  exact hinside

/-- Two values are recovered from a record with a field for each. -/
theorem Recovers.twoFields {limit : Nat} {left : Decoder α} {right : Decoder β} {json json' : Json}
    {a : α} {b : β} {floats floats' : Floats} (label : String) {first second : String}
    (absent : Option α) (absent' : Option β) (hne : first ≠ second)
    (h : Recovers limit left json.tokens json.depth a floats)
    (h' : Recovers limit right json'.tokens json'.depth b floats') :
    Recovers (limit + 1)
      ((fun (a, b, ()) => (a, b)) <$>
        Decoder.record label (.field first left absent (.field second right absent' .done)))
      (Json.object [(first, json), (second, json')]).tokens
      (Json.object [(first, json), (second, json')]).depth (a, b)
      fun p => floats p ∧ floats' p := by
  have hrow : Row limit (.field first left absent (.field second right absent' .done))
      [(first, json), (second, json')] (a, b, ()) _ := .field h (.field h' .done)
  refine ((Recovers.record label hrow (by simpa using hne)).map fun (a, b, ()) => (a, b)).congr ?_
  simp

/-! ### Variants -/

theorem reads_key (name : String) (limit : Nat) :
    key.Reads limit [.string name] fun _ => .ok name :=
  fun _ _ _ => rfl

theorem reads_named {variants : List (Variant α)} {name : String} {payload : Payload α}
    (hfind : variants.find? (fun variant => variant.name == name) = some ⟨name, payload⟩)
    (limit : Nat) : (named variants name).Reads limit [] fun _ => .ok payload := by
  rw [named, hfind]
  exact reads_pure payload

/-- What a variant carries is read one level further down. -/
theorem reads_carrying {limit : Nat} {variants : List (Variant α)} {name : String}
    {carried : Payload α} {decoder : Decoder α} {payload : Json} {outcome : Outcome α}
    (hcarried : carried = .single decoder ∨ carried = .fields decoder)
    (hfind : variants.find? (fun variant => variant.name == name) = some ⟨name, carried⟩)
    (h : decoder.Reads limit payload.tokens outcome) :
    (variant variants).Reads (limit + 1) (Json.object [(name, payload)]).tokens fun
      | 0 => .error (.text .grammar)
      | room + 1 => outcome room := by
  have htokens : (Json.object [(name, payload)]).tokens = [.openObject] ++ ([.string name] ++
      ([] ++ ([.colon] ++ (payload.tokens ++ [.closeObject])))) := by
    simp [Json.tokens, Json.fieldTokens]
  rw [htokens]
  apply (reads_next .openObject).bind_ok
  apply Reads.inside
  apply (reads_key name limit).bind_ok
  apply (reads_named hfind limit).bind_ok
  apply (reads_expect .colon).bind_ok
  rcases hcarried with rfl | rfl <;> exact reads_closed .closeObject h

theorem depth_carrying (name : String) (payload : Json) :
    (Json.object [(name, payload)]).depth = payload.depth + 1 := by
  simp [Json.depth, Json.fieldsDepth]

/-- A variant that carries something is recovered if what it carries is. -/
theorem Recovers.carrying {limit : Nat} {variants : List (Variant α)} {name : String}
    {carried : Payload α} {decoder : Decoder α} {payload : Json} {value : α} {floats : Floats}
    (hcarried : carried = .single decoder ∨ carried = .fields decoder)
    (hfind : variants.find? (fun variant => variant.name == name) = some ⟨name, carried⟩)
    (h : Recovers limit decoder payload.tokens payload.depth value floats) :
    Recovers (limit + 1) (variant variants) (Json.object [(name, payload)]).tokens
      (Json.object [(name, payload)]).depth value floats := by
  obtain ⟨outcome, hreads, hfaithful⟩ := h
  rw [depth_carrying]
  exact ⟨_, reads_carrying hcarried hfind hreads, hfaithful.inside⟩

/-- A variant with a payload is recovered if its payload is. -/
theorem Recovers.variant {limit : Nat} {variants : List (Variant α)} {name : String}
    {decoder : Decoder α} {payload : Json} {value : α} {floats : Floats}
    (hfind : variants.find? (fun variant => variant.name == name) = some ⟨name, .single decoder⟩)
    (h : Recovers limit decoder payload.tokens payload.depth value floats) :
    Recovers (limit + 1) (variant variants) (Json.object [(name, payload)]).tokens
      (Json.object [(name, payload)]).depth value floats :=
  .carrying (.inl rfl) hfind h

/-- A variant without a payload is a name. -/
theorem Recovers.variantName {limit : Nat} {variants : List (Variant α)} {name : String} {value : α}
    (hfind : variants.find? (fun variant => variant.name == name) = some ⟨name, .none value⟩) :
    Recovers limit (Decoder.variant variants) (Json.string name).tokens (Json.string name).depth
      value fun _ => True := by
  refine Recovers.after (reads_next (.string name)) ?_
  exact Recovers.after (reads_named hfind limit) (.pure limit value)

/-- A member of a vocabulary is recovered from its name. -/
theorem recovers_vocabulary [Named α] (limit : Nat) (member : α) :
    Recovers limit (vocabulary α) (Json.string (Named.name member)).tokens
      (Json.string (Named.name member)).depth member fun _ => True := by
  apply Recovers.variantName
  have hfind : (Named.all : List α).find? (fun other => Named.name other == Named.name member) =
      some member := Named.find_name member
  rw [List.find?_map]
  exact congrArg (Option.map _) hfind

end Decoder

end PlanLowering
