import PlanLowering.Proofs.Json.Containers
import PlanLowering.Proofs.Json.Lexing

/-!
Written values with fields taken out. What a decoder makes of such a value depends on the fields
that are gone: if all of them held what stands for them when they are absent, the value comes out as
it was, and if one of them was needed, the text is refused for what it says. Fields that lie in a
value that is gone itself do not count.
-/

namespace PlanLowering

namespace Json

/-- Values that hold no others. -/
def isScalar : Json → Bool
  | array _ | object _ => false
  | _ => true

/-- A field that an object has lost, with the value it had. -/
structure LostField where
  /-- The name of the record that the object is written for. -/
  record : String
  name : String
  value : Json

/-- Which records lie where in a written value, and which of their fields may be absent. -/
structure Layout where
  /-- The record that the objects under a field are written for; an object under any other field
  stands for a variant. -/
  recordUnder : String → Option String
  /-- What stands for a field of a record when it is absent, as it would be written. -/
  default? : String → String → Option Json

namespace Layout

/-- The field may be absent. -/
def IsOptional (layout : Layout) (field : LostField) : Prop :=
  (layout.default? field.record field.name).isSome

/-- The field held what stands for it when it is absent. -/
def HeldDefault (layout : Layout) (field : LostField) : Prop :=
  layout.default? field.record field.name = some field.value

mutual

/-- Taking fields out of a value: some objects of records, written for the record given or lying
further down, lose these fields. The only key of a variant stays. -/
inductive Trims (layout : Layout) : Option String → Json → Json → List LostField → Prop where
  | scalar {record : Option String} {json : Json} (hscalar : json.isScalar) :
      Trims layout record json json []
  | array {record : Option String} {items items' : List Json} {lost : List LostField}
      (hitems : TrimsItems layout record items items' lost) :
      Trims layout record (.array items) (.array items') lost
  | variant {name : String} {payload payload' : Json} {lost : List LostField}
      (hpayload : Trims layout (some name) payload payload' lost) :
      Trims layout none (.object [(name, payload)]) (.object [(name, payload')]) lost
  | record {name : String} {fields fields' : List (String × Json)} {lost : List LostField}
      (hfields : TrimsFields layout name fields fields' lost) :
      Trims layout (some name) (.object fields) (.object fields') lost

/-- Taking fields out of the items of an array. -/
inductive TrimsItems (layout : Layout) :
    Option String → List Json → List Json → List LostField → Prop where
  | nil {record : Option String} : TrimsItems layout record [] [] []
  | cons {record : Option String} {item item' : Json} {items items' : List Json}
      {lost lost' : List LostField} (hitem : Trims layout record item item' lost)
      (hitems : TrimsItems layout record items items' lost') :
      TrimsItems layout record (item :: items) (item' :: items') (lost ++ lost')

/-- Taking fields out of the object of a record, and out of the values of those that are kept. -/
inductive TrimsFields (layout : Layout) :
    String → List (String × Json) → List (String × Json) → List LostField → Prop where
  | nil {record : String} : TrimsFields layout record [] [] []
  | keep {record name : String} {json json' : Json} {fields fields' : List (String × Json)}
      {lost lost' : List LostField}
      (hvalue : Trims layout (layout.recordUnder name) json json' lost)
      (hfields : TrimsFields layout record fields fields' lost') :
      TrimsFields layout record ((name, json) :: fields) ((name, json') :: fields') (lost ++ lost')
  | lose {record name : String} {json : Json} {fields fields' : List (String × Json)}
      {lost : List LostField} (hfields : TrimsFields layout record fields fields' lost) :
      TrimsFields layout record ((name, json) :: fields) fields' (⟨record, name, json⟩ :: lost)

end

variable {layout : Layout}

mutual

/-- What is left of a value has no numerals of its own. -/
theorem Trims.proper : ∀ {record : Option String} {json json' : Json} {lost : List LostField},
    layout.Trims record json json' lost → json.Proper → json'.Proper
  | _, _, _, _, .scalar _, hproper => hproper
  | _, _, _, _, .array hitems, hproper =>
      proper_array.mpr (hitems.proper (proper_array.mp hproper))
  | _, _, _, _, .variant hpayload, hproper => by
      simp only [proper_object, List.forall_mem_singleton] at hproper ⊢
      exact hpayload.proper hproper
  | _, _, _, _, .record hfields, hproper =>
      proper_object.mpr (hfields.proper (proper_object.mp hproper))

theorem TrimsItems.proper : ∀ {record : Option String} {items items' : List Json}
    {lost : List LostField}, layout.TrimsItems record items items' lost →
    (∀ item ∈ items, item.Proper) → ∀ item ∈ items', item.Proper
  | _, _, _, _, .nil, hproper => hproper
  | _, _, _, _, .cons hitem hitems, hproper => by
      rw [List.forall_mem_cons] at hproper ⊢
      exact ⟨hitem.proper hproper.1, hitems.proper hproper.2⟩

theorem TrimsFields.proper : ∀ {record : String} {fields fields' : List (String × Json)}
    {lost : List LostField}, layout.TrimsFields record fields fields' lost →
    (∀ field ∈ fields, field.2.Proper) → ∀ field ∈ fields', field.2.Proper
  | _, _, _, _, .nil, hproper => hproper
  | _, _, _, _, .keep hvalue hfields, hproper => by
      rw [List.forall_mem_cons] at hproper ⊢
      exact ⟨hvalue.proper hproper.1, hfields.proper hproper.2⟩
  | _, _, _, _, .lose hfields, hproper =>
      hfields.proper (List.forall_mem_cons.mp hproper).2

end

theorem trims_scalar {record : Option String} {json json' : Json} {lost : List LostField}
    (hscalar : json.isScalar) (htrims : layout.Trims record json json' lost) :
    json' = json ∧ lost = [] := by
  cases htrims with
  | scalar _ => exact ⟨rfl, rfl⟩
  | _ => cases hscalar

theorem trims_carrying {name : String} {payload json' : Json} {lost : List LostField}
    (hscalar : payload.isScalar)
    (htrims : layout.Trims none (.object [(name, payload)]) json' lost) :
    json' = .object [(name, payload)] ∧ lost = [] := by
  cases htrims with
  | scalar hobject => cases hobject
  | variant hpayload =>
      obtain ⟨rfl, rfl⟩ := trims_scalar hscalar hpayload
      exact ⟨rfl, rfl⟩

end Layout

end Json

namespace Decoder

open Json (LostField Layout)

variable {α β γ : Type} {layout : Layout}

/-- How a value comes out that has lost these fields. -/
structure Verdict (layout : Layout) (value : α) (lost : List LostField)
    (result : Except ReadError α) : Prop where
  /-- Some value comes out, or the text is refused for what it says. -/
  fits : (∃ other, result = .ok other) ∨ ∃ misfit, result = .error (.data misfit)
  restored : (∀ field ∈ lost, layout.HeldDefault field) → result = .ok value
  refused : (∃ field ∈ lost, ¬ layout.IsOptional field) → ∃ misfit, result = .error (.data misfit)

namespace Verdict

variable {value : α} {value' : β} {lost lost' : List LostField} {result : Except ReadError α}
  {result' : Except ReadError β}

theorem ok (value : α) : Verdict layout value [] (.ok value) where
  fits := Or.inl ⟨value, rfl⟩
  restored _ := rfl
  refused := by
    rintro ⟨field, hfield, _⟩
    exact absurd hfield List.not_mem_nil

theorem map (f : α → β) (h : Verdict layout value lost result) :
    Verdict layout (f value) lost (result.map f) where
  fits := by
    rcases h.fits with ⟨other, rfl⟩ | ⟨misfit, rfl⟩
    · exact Or.inl ⟨f other, rfl⟩
    · exact Or.inr ⟨misfit, rfl⟩
  restored hall := by
    rw [h.restored hall]
    rfl
  refused hneeded := by
    obtain ⟨misfit, rfl⟩ := h.refused hneeded
    exact ⟨misfit, rfl⟩

/-- One value after the other: what either of them lost counts. -/
theorem pair (h : Verdict layout value lost result) (h' : Verdict layout value' lost' result') :
    Verdict layout (value, value') (lost ++ lost')
      (result.bind fun a => result'.map fun b => (a, b)) where
  fits := by
    rcases h.fits with ⟨other, rfl⟩ | ⟨misfit, rfl⟩
    · rcases h'.fits with ⟨other', rfl⟩ | ⟨misfit, rfl⟩
      · exact Or.inl ⟨(other, other'), rfl⟩
      · exact Or.inr ⟨misfit, rfl⟩
    · exact Or.inr ⟨misfit, rfl⟩
  restored hall := by
    rw [List.forall_mem_append] at hall
    rw [h.restored hall.1, h'.restored hall.2]
    rfl
  refused := by
    rintro ⟨field, hfield, hneeded⟩
    rcases List.mem_append.mp hfield with hfirst | hsecond
    · obtain ⟨misfit, rfl⟩ := h.refused ⟨field, hfirst, hneeded⟩
      exact ⟨misfit, rfl⟩
    · obtain ⟨misfit, rfl⟩ := h'.refused ⟨field, hsecond, hneeded⟩
      rcases h.fits with ⟨other, rfl⟩ | ⟨earlier, rfl⟩
      · exact ⟨misfit, rfl⟩
      · exact ⟨earlier, rfl⟩

end Verdict

/-- What stands for a field of a record when it is absent: nothing, or what the layout says, which
is the value of the field if this was written like that. -/
inductive Restores (layout : Layout) (record name : String) (json : Json) (value : α) :
    Option α → Prop where
  | needed (hlayout : layout.default? record name = none) :
      Restores layout record name json value none
  | optional {default : α} {written : Json} (hlayout : layout.default? record name = some written)
      (hvalue : written = json → default = value) :
      Restores layout record name json value (some default)

/-- A decoder judges tokens by what is lost, if there is room for what there was. -/
def Judges (layout : Layout) (limit : Nat) (decoder : Decoder α) (tokens : List JsonToken)
    (depth : Nat) (value : α) (lost : List LostField) : Prop :=
  ∃ outcome, decoder.Reads limit tokens outcome ∧
    ∀ room < limit, depth ≤ room → Verdict layout value lost (outcome room)

/-- Whatever is taken out of a written value, the decoder judges it by that. -/
def Survives (layout : Layout) (limit : Nat) (decoder : Decoder α) (record : Option String)
    (json : Json) (value : α) : Prop :=
  ∀ json' lost, layout.Trims record json json' lost →
    Judges layout limit decoder json'.tokens json.depth value lost

/-- Behind a bracket there is one less to open, but also one less to come. -/
theorem verdict_inside {limit depth : Nat} {value : α} {lost : List LostField}
    {outcome : Outcome α}
    (h : ∀ room < limit, depth ≤ room → Verdict layout value lost (outcome room)) :
    ∀ room < limit + 1, depth + 1 ≤ room → Verdict layout value lost (match room with
      | 0 => .error (.text .grammar)
      | room + 1 => outcome room) := by
  intro room hroom hdepth
  cases room with
  | zero => exact absurd hdepth (Nat.not_succ_le_zero depth)
  | succ room => exact h room (Nat.lt_of_succ_lt_succ hroom) (Nat.le_of_succ_le_succ hdepth)

namespace Survives

variable {limit : Nat} {decoder : Decoder α} {record : Option String} {json : Json} {value : α}

theorem zero : Survives layout 0 decoder record json value :=
  fun _ _ _ => ⟨fun _ => .ok value, nofun, nofun⟩

theorem mono {limit' : Nat} (h : Survives layout limit decoder record json value)
    (hle : limit' ≤ limit) : Survives layout limit' decoder record json value := by
  intro json' lost htrims
  obtain ⟨outcome, hreads, hverdict⟩ := h json' lost htrims
  exact ⟨outcome, hreads.mono hle,
    fun room hroom => hverdict room (Nat.lt_of_lt_of_le hroom hle)⟩

theorem map (f : α → β) (h : Survives layout limit decoder record json value) :
    Survives layout limit (f <$> decoder) record json (f value) := by
  intro json' lost htrims
  obtain ⟨outcome, hreads, hverdict⟩ := h json' lost htrims
  exact ⟨_, hreads.map f, fun room hroom hdepth => (hverdict room hroom hdepth).map f⟩

/-- A value that nothing can be taken out of survives if it is recovered. -/
theorem whole {floats : Floats}
    (hwhole : ∀ json' lost, layout.Trims record json json' lost → json' = json ∧ lost = [])
    (h : Recovers limit decoder json.tokens json.depth value floats)
    (hfloats : floats fun _ => False) : Survives layout limit decoder record json value := by
  intro json' lost htrims
  obtain ⟨rfl, rfl⟩ := hwhole json' lost htrims
  obtain ⟨outcome, hreads, hfaithful⟩ := h
  refine ⟨outcome, hreads, fun room hroom hdepth => ?_⟩
  rw [hfaithful.exact hfloats room hroom, within, if_pos hdepth]
  exact .ok value

theorem scalar {floats : Floats} (hscalar : json.isScalar)
    (h : Recovers limit decoder json.tokens json.depth value floats)
    (hfloats : floats fun _ => False) : Survives layout limit decoder record json value :=
  .whole (fun _ _ htrims => Layout.trims_scalar hscalar htrims) h hfloats

end Survives

/-- The items of an array are judged by what they have lost, each of them. -/
theorem judges_items {limit : Nat} {item : Decoder α} {record : Option String} {write : α → Json}
    {values : List α}
    (hvalues : ∀ value ∈ values, Survives layout limit item record (write value) value)
    {items' : List Json} {lost : List LostField}
    (htrims : layout.TrimsItems record (values.map write) items' lost) :
    ∃ outcome, (∀ first, (closed .closeArray (items item first)).Reads limit
        (itemTokens first items' ++ [.closeArray]) outcome) ∧
      ∀ room < limit, Json.itemsDepth (values.map write) ≤ room →
        Verdict layout values lost (outcome room) := by
  induction values generalizing items' lost with
  | nil =>
      cases htrims
      exact ⟨_, fun first => closed_items_nil, fun _ _ _ => .ok []⟩
  | cons value values ih =>
      rw [List.forall_mem_cons] at hvalues
      cases htrims with
      | cons hitem hitems =>
          obtain ⟨outcome, hreads, hverdict⟩ := hvalues.1 _ _ hitem
          obtain ⟨outcome', hreads', hverdict'⟩ := ih hvalues.2 hitems
          refine ⟨fun room => (both outcome outcome' room).map fun pair => pair.1 :: pair.2,
            fun first => ?_, fun room hroom hdepth => ?_⟩
          · rw [itemTokens, List.append_assoc, List.append_assoc]
            exact closed_items_cons hreads (hreads' false)
          · obtain ⟨hhead, htail⟩ := Nat.max_le.mp hdepth
            exact ((hverdict room hroom hhead).pair (hverdict' room hroom htail)).map
              fun pair => pair.1 :: pair.2

theorem Survives.list {limit : Nat} {item : Decoder α} {record : Option String} {write : α → Json}
    {values : List α}
    (hvalues : ∀ value ∈ values, Survives layout limit item record (write value) value) :
    Survives layout (limit + 1) (list item) record (.array (values.map write)) values := by
  intro json' lost htrims
  cases htrims with
  | scalar hscalar => cases hscalar
  | array hitems =>
      obtain ⟨outcome, hreads, hverdict⟩ := judges_items hvalues hitems
      exact ⟨_, reads_list (hreads true), verdict_inside hverdict⟩

/-- The fields of a record as they are written, of which some may be taken out. -/
inductive Trimmable (layout : Layout) (limit : Nat) (record : String) :
    {α : Type} → Fields α → List (String × Json) → α → Prop where
  | done : Trimmable layout limit record .done [] ()
  | field {α β : Type} {name : String} {decoder : Decoder α} {absent : Option α}
      {others : Fields β} {json : Json} {entries : List (String × Json)} {value : α} {values : β}
      (hvalue : Survives layout limit decoder (layout.recordUnder name) json value)
      (habsent : Restores layout record name json value absent)
      (hvalues : Trimmable layout limit record others entries values) :
      Trimmable layout limit record (.field name decoder absent others) ((name, json) :: entries)
        (value, values)

section Completed

variable {record name : String} {json : Json} {decoder : Decoder α} {others : Fields β}
  {outcome : Outcome α} {outcome' : Outcome others.Slots} {value : α} {values : β}
  {lost lost' : List LostField} {room : Nat}

/-- A field with a value, its own or what stands for it, comes before the others. -/
theorem completed_field {absent slot : Option α} (hslot : (slot <|> absent) = some value) :
    (Fields.field name decoder absent others).completed
        (fun room => (outcome' room).map fun slots => (slot, slots)) room =
      (others.completed outcome' room).map fun values => (value, values) := by
  rw [Fields.completed, Fields.completed]
  cases outcome' room with
  | error e => rfl
  | ok slots =>
      change (Fields.complete (.field name decoder absent others) (slot, slots)).mapError _ =
        ((others.complete slots).mapError _).map _
      rw [Fields.complete, hslot]
      cases others.complete slots <;> rfl

theorem verdict_keep {absent : Option α} (h : Verdict layout value lost (outcome room))
    (h' : Verdict layout values lost' (others.completed outcome' room)) :
    Verdict layout (value, values) (lost ++ lost')
      ((Fields.field name decoder absent others).completed (fun room =>
        (outcome room).bind fun value => (outcome' room).map fun slots => (some value, slots))
        room) := by
  have hpair := h.pair h'
  have heq : (Fields.field name decoder absent others).completed (fun room =>
      (outcome room).bind fun value => (outcome' room).map fun slots => (some value, slots)) room =
        (outcome room).bind fun value =>
          (others.completed outcome' room).map fun values => (value, values) := by
    rw [Fields.completed]
    cases outcome room with
    | error e => rfl
    | ok value => exact completed_field rfl
  rwa [heq]

/-- A field that is lost is reported if it is needed and nothing was wrong before, and otherwise
what stands for it takes its place. -/
theorem verdict_lose {absent : Option α} (habsent : Restores layout record name json value absent)
    (h : Verdict layout values lost (others.completed outcome' room)) :
    Verdict layout (value, values) (⟨record, name, json⟩ :: lost)
      ((Fields.field name decoder absent others).completed
        (fun room => (outcome' room).map fun slots => (none, slots)) room) := by
  cases habsent with
  | needed hlayout =>
      have hmisfit : ∃ misfit, (Fields.field name decoder none others).completed
          (fun room => (outcome' room).map fun slots => (none, slots)) room =
            .error (.data misfit) := by
        have hfits := h.fits
        rw [Fields.completed] at hfits ⊢
        cases houtcome : outcome' room with
        | error e =>
            rw [houtcome] at hfits
            rcases hfits with ⟨_, ⟨⟩⟩ | ⟨misfit, ⟨rfl⟩⟩
            exact ⟨misfit, rfl⟩
        | ok slots => exact ⟨.missingField name, rfl⟩
      refine ⟨Or.inr hmisfit, fun hall => ?_, fun _ => hmisfit⟩
      have hheld : layout.default? record name = some json := hall _ List.mem_cons_self
      rw [hlayout] at hheld
      cases hheld
  | @optional default written hlayout hvalue =>
      have hmap := h.map fun values => (default, values)
      rw [completed_field rfl]
      refine ⟨hmap.fits, fun hall => ?_, ?_⟩
      · obtain ⟨hheld, hothers⟩ := List.forall_mem_cons.mp hall
        have hwritten : some written = some json := hlayout.symm.trans hheld
        rw [hmap.restored hothers, hvalue (Option.some.inj hwritten)]
      · rintro ⟨field, hfield, hneeded⟩
        rcases List.mem_cons.mp hfield with rfl | hothers
        · exact absurd (by rw [Layout.IsOptional, hlayout]; rfl) hneeded
        · exact hmap.refused ⟨field, hothers, hneeded⟩

end Completed

/-- What is left of the fields is read in order, and judged by what is gone. -/
theorem Trimmable.judges {limit : Nat} {record : String} {fields : Fields α}
    {entries : List (String × Json)} {value : α}
    (h : Trimmable layout limit record fields entries value)
    (hnames : (entries.map Prod.fst).Nodup) {entries' : List (String × Json)}
    {lost : List LostField} (htrims : layout.TrimsFields record entries entries' lost) :
    ∃ outcome : Outcome fields.Slots,
      (∀ room < limit, Json.fieldsDepth entries ≤ room →
        Verdict layout value lost (fields.completed outcome room)) ∧
      ∀ {γ : Type} (target : Fields γ) (embed : fields.Slots → target.Slots),
        Fields.Embeds limit (entries.map Prod.fst) fields target embed →
        ∀ first, (closed .closeObject (target.readFields first (embed fields.empty))).Reads limit
          (memberTokens first entries' ++ [.closeObject])
          fun room => (outcome room).map embed := by
  induction h generalizing entries' lost with
  | done =>
      cases htrims
      exact ⟨fun _ => .ok (), fun _ _ _ => .ok (),
        fun target embed _ first => Fields.reads_end first target _⟩
  | @field α β name decoder absent others json entries value values hvalue habsent _ ih =>
      obtain ⟨hname, hnames⟩ := List.nodup_cons.mp hnames
      cases htrims with
      | keep hjson hentries =>
          obtain ⟨outcome, hreads, hverdict⟩ := hvalue _ _ hjson
          obtain ⟨outcome', hverdict', hrow⟩ := ih hnames hentries
          refine ⟨fun room => (outcome room).bind fun value =>
            (outcome' room).map fun slots => (some value, slots), ?_, ?_⟩
          · intro room hroom hdepth
            obtain ⟨hhead, htail⟩ := Nat.max_le.mp hdepth
            exact verdict_keep (hverdict room hroom hhead) (hverdict' room hroom htail)
          · intro γ target embed hembed first room hroom rest
            have hothers := fun value => hrow target _
              (hembed.tail (fun key => List.mem_cons_of_mem name) hname (some value)) false
            refine (Fields.reads_field hembed List.mem_cons_self hreads hothers first room hroom
              rest).trans ?_
            dsimp only
            cases outcome room with
            | error e => rfl
            | ok value => cases outcome' room <;> rfl
      | lose hentries =>
          obtain ⟨outcome', hverdict', hrow⟩ := ih hnames hentries
          refine ⟨fun room => (outcome' room).map fun slots => (none, slots), ?_, ?_⟩
          · intro room hroom hdepth
            exact verdict_lose habsent (hverdict' room hroom (Nat.max_le.mp hdepth).2)
          · intro γ target embed hembed first room hroom rest
            refine (hrow target _ (hembed.tail (fun key => List.mem_cons_of_mem name) hname none)
              first room hroom rest).trans ?_
            dsimp only
            cases outcome' room <;> rfl

theorem Survives.record {limit : Nat} {name : String} {fields : Fields α}
    {entries : List (String × Json)} {value : α} (label : String)
    (h : Trimmable layout limit name fields entries value)
    (hnames : (entries.map Prod.fst).Nodup) :
    Survives layout (limit + 1) (Decoder.record label fields) (some name) (.object entries)
      value := by
  intro json' lost htrims
  cases htrims with
  | scalar hscalar => cases hscalar
  | record hfields =>
      obtain ⟨outcome, hverdict, hrow⟩ := h.judges hnames hfields
      have hreads : (closed .closeObject (fields.readFields true fields.empty)).Reads limit _
          fun room => (outcome room).map id := hrow fields id (.refl limit _ fields) true
      have hid : (fun room => (outcome room).map id) = outcome := by
        funext room
        cases outcome room <;> rfl
      rw [hid] at hreads
      exact ⟨_, reads_record label hreads, verdict_inside hverdict⟩

/-- A record with two fields survives if both of them do. -/
theorem Survives.twoFields {limit : Nat} {left : Decoder α} {right : Decoder β}
    {json json' : Json} {a : α} {b : β} {name first second : String} {absent : Option α}
    {absent' : Option β} (label : String) (hne : first ≠ second)
    (h : Survives layout limit left (layout.recordUnder first) json a)
    (habsent : Restores layout name first json a absent)
    (h' : Survives layout limit right (layout.recordUnder second) json' b)
    (habsent' : Restores layout name second json' b absent') :
    Survives layout (limit + 1)
      ((fun (a, b, ()) => (a, b)) <$>
        Decoder.record label (.field first left absent (.field second right absent' .done)))
      (some name) (.object [(first, json), (second, json')]) (a, b) := by
  have hrow : Trimmable layout limit name
      (.field first left absent (.field second right absent' .done))
      [(first, json), (second, json')] (a, b, ()) := .field h habsent (.field h' habsent' .done)
  exact (Survives.record label hrow (by simpa using hne)).map fun (a, b, ()) => (a, b)

/-- A variant with a payload survives if its payload does. -/
theorem Survives.variant {limit : Nat} {variants : List (Variant α)} {name : String}
    {decoder : Decoder α} {payload : Json} {value : α}
    (hfind : variants.find? (fun variant => variant.name == name) = some ⟨name, .single decoder⟩)
    (h : Survives layout limit decoder (some name) payload value) :
    Survives layout (limit + 1) (Decoder.variant variants) none (.object [(name, payload)])
      value := by
  intro json' lost htrims
  cases htrims with
  | scalar hscalar => cases hscalar
  | variant hpayload =>
      obtain ⟨outcome, hreads, hverdict⟩ := h _ _ hpayload
      rw [depth_carrying]
      exact ⟨_, reads_carrying (.inl rfl) hfind hreads, verdict_inside hverdict⟩

end Decoder

end PlanLowering
