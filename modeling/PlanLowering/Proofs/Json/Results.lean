import PlanLowering.Json.Decoder
import PlanLowering.Proofs.Json.Reading

/-!
What decoders return, whatever they are given to read. A property of the results is kept by each way
of putting decoders together; the room left counts, because whoever opens a bracket reads on with
less of it. Nothing is said here about tokens that are refused.
-/

namespace PlanLowering.Decoder

variable {α β γ : Type}

/-- With so much room the decoder returns nothing but values with this property. -/
def Returns (room : Nat) (decoder : Decoder α) (property : α → Prop) : Prop :=
  ∀ tokens value rest, decoder room tokens = .ok (value, rest) → property value

section Rules

variable {room : Nat} {decoder : Decoder α} {property : α → Prop} {property' : β → Prop}

theorem returns_any (room : Nat) (decoder : Decoder α) : decoder.Returns room fun _ => True :=
  fun _ _ _ _ => trivial

theorem returns_pure {value : α} (h : property value) :
    (pure value : Decoder α).Returns room property := by
  rintro tokens result rest ⟨rfl⟩
  exact h

theorem returns_faulty (fault : JsonFault) : (faulty fault : Decoder α).Returns room property :=
  nofun

theorem returns_unfit (misfit : Misfit) : (unfit misfit : Decoder α).Returns room property :=
  nofun

theorem returns_refuse (expected : String) (token : JsonToken) :
    (refuse expected token : Decoder α).Returns room property := by
  unfold refuse
  split
  case h_4 =>
    split
    · exact returns_faulty _
    · exact returns_unfit _
    · exact returns_unfit _
    · exact returns_unfit _
  all_goals first | exact returns_faulty _ | exact returns_unfit _

theorem Returns.bind {following : α → Decoder β} (h : decoder.Returns room property)
    (hfollowing : ∀ value, property value → (following value).Returns room property') :
    (decoder >>= following).Returns room property' := by
  intro tokens result rest hrun
  rw [run_bind] at hrun
  cases hfirst : decoder room tokens with
  | error e =>
      rw [hfirst] at hrun
      cases hrun
  | ok first =>
      rw [hfirst] at hrun
      exact hfollowing first.1 (h tokens first.1 first.2 hfirst) first.2 result rest hrun

/-- What is read first does not matter. -/
theorem Returns.after {first : Decoder β} {following : β → Decoder α}
    (h : ∀ value, (following value).Returns room property) :
    (first >>= following).Returns room property :=
  (returns_any room first).bind fun value _ => h value

theorem Returns.map {f : α → β} (h : decoder.Returns room property)
    (hf : ∀ value, property value → property' (f value)) :
    (f <$> decoder).Returns room property' := by
  rw [← bind_pure_comp]
  exact h.bind fun value hvalue => returns_pure (hf value hvalue)

theorem Returns.mono {property' : α → Prop} (h : decoder.Returns room property)
    (himp : ∀ value, property value → property' value) : decoder.Returns room property' :=
  fun tokens value rest hrun => himp value (h tokens value rest hrun)

theorem Returns.ite {c : Prop} [Decidable c] {other : Decoder α} (h : decoder.Returns room property)
    (h' : other.Returns room property) : (if c then decoder else other).Returns room property := by
  split
  · exact h
  · exact h'

/-- Behind a bracket there is one less to open. -/
theorem returns_inside (h : ∀ below, room = below + 1 → decoder.Returns below property) :
    decoder.inside.Returns room property := by
  intro tokens value rest hrun
  cases room with
  | zero => cases hrun
  | succ below => exact h below rfl tokens value rest hrun

end Rules

section Lists

variable {room : Nat} {item : Decoder α} {property : α → Prop}

theorem returns_items (h : item.Returns room property) (first : Bool) :
    Returns room (items item first) fun values => ∀ value ∈ values, property value := by
  intro tokens
  induction hlength : tokens.length using Nat.strongRecOn generalizing tokens first with
  | ind length ih =>
      intro values rest hrun
      rw [items] at hrun
      split at hrun
      · cases hrun
      · cases hrun
        exact fun value hvalue => absurd hvalue List.not_mem_nil
      · split at hrun
        · cases hrun
        · next hitem =>
            split at hrun
            · next hshorter =>
                split at hrun
                · cases hrun
                · next hothers =>
                    cases hrun
                    rw [List.forall_mem_cons]
                    exact ⟨h _ _ _ hitem, ih _ (hlength ▸ hshorter) false _ rfl _ _ hothers⟩
            · cases hrun

theorem Returns.list (h : ∀ below, room = below + 1 → item.Returns below property) :
    (list item).Returns room fun values => ∀ value ∈ values, property value := by
  refine Returns.after fun token => ?_
  split
  · refine returns_inside fun below hroom => ?_
    refine (returns_items (h below hroom) true).bind fun values hvalues => ?_
    exact Returns.after fun _ => returns_pure hvalues
  · exact returns_refuse "a sequence" _

end Lists

/-- The values of the fields of a record have properties of their own, and so do the values that
stand for absent fields. -/
inductive Fields.Return (room : Nat) : {α : Type} → Fields α → (α → Prop) → Prop where
  | done : Return room .done fun _ => True
  | field {α β : Type} {name : String} {decoder : Decoder α} {absent : Option α}
      {others : Fields β} {property : α → Prop} {property' : β → Prop}
      (hvalue : decoder.Returns room property) (habsent : ∀ value ∈ absent, property value)
      (hothers : others.Return room property') :
      Return room (.field name decoder absent others) fun values =>
        property values.1 ∧ property' values.2

namespace Fields.Return

variable {room : Nat} {fields : Fields α} {property : α → Prop}

theorem needed {name : String} {decoder : Decoder β} {property' : β → Prop}
    (hvalue : decoder.Returns room property') (hothers : fields.Return room property) :
    (Fields.needed name decoder fields).Return room fun values =>
      property' values.1 ∧ property values.2 :=
  .field hvalue nofun hothers

theorem optional {name : String} {decoder : Decoder β} {default : β} {property' : β → Prop}
    (hvalue : decoder.Returns room property') (hdefault : property' default)
    (hothers : fields.Return room property) :
    (Fields.optional name decoder default fields).Return room fun values =>
      property' values.1 ∧ property values.2 := by
  refine .field hvalue ?_ hothers
  rintro _ ⟨rfl⟩
  exact hdefault

/-- Values read into slots have the properties of their fields, so that a complete record has the
property of all of them. -/
theorem exists_slots (h : fields.Return room property) : ∃ filled : fields.Slots → Prop,
    filled fields.empty ∧
    (∀ slots key reader, filled slots → fields.readInto slots key = some reader →
      reader.Returns room filled) ∧
    ∀ slots value, filled slots → fields.complete slots = .ok value → property value := by
  induction h with
  | done => exact ⟨fun _ => True, trivial, nofun, fun _ _ _ _ => trivial⟩
  | @field α β name decoder absent others property property' hvalue habsent _ ih =>
      obtain ⟨filled, hempty, hread, hcomplete⟩ := ih
      refine ⟨fun slots => (∀ value ∈ slots.1, property value) ∧ filled slots.2,
        ⟨nofun, hempty⟩, ?_, ?_⟩
      · rintro ⟨slot, slots⟩ key reader ⟨hslot, hslots⟩ hreader
        by_cases hkey : key = name
        · obtain rfl := Option.some.inj ((if_pos hkey).symm.trans hreader)
          refine Returns.ite ?_ ?_
          · exact (returns_unfit (.duplicateField name)).bind fun _ => False.elim
          · refine Returns.after fun _ => hvalue.bind fun value hproperty => ?_
            refine returns_pure ⟨?_, hslots⟩
            rintro _ ⟨rfl⟩
            exact hproperty
        · obtain ⟨reader', hreader', rfl⟩ :=
            Option.map_eq_some_iff.mp ((if_neg hkey).symm.trans hreader)
          refine (hread slots key reader' hslots hreader').bind fun slots' hslots' => ?_
          exact returns_pure ⟨hslot, hslots'⟩
      · rintro ⟨slot, slots⟩ ⟨value, values⟩ ⟨hslot, hslots⟩ hresult
        have hfirst : ∀ value, (slot <|> absent) = some value → property value := by
          intro value hsome
          cases slot with
          | some found => exact hslot value hsome
          | none => exact habsent value hsome
        rw [complete] at hresult
        split at hresult
        · cases hresult
        · next hsome =>
            split at hresult
            · cases hresult
            · next hothers =>
                cases hresult
                exact ⟨hfirst _ hsome, hcomplete _ _ hslots hothers⟩

/-- Fields that nobody knows leave the slots as they are. -/
theorem readFields {filled : fields.Slots → Prop}
    (hread : ∀ slots key reader, filled slots → fields.readInto slots key = some reader →
      reader.Returns room filled) (first : Bool) {slots : fields.Slots} (hslots : filled slots) :
    Returns room (fields.readFields first slots) filled := by
  intro tokens
  induction hlength : tokens.length using Nat.strongRecOn generalizing tokens first slots with
  | ind length ih =>
      intro result rest hrun
      rw [Fields.readFields] at hrun
      split at hrun
      · cases hrun
      · cases hrun
        exact hslots
      · next key _ hkey =>
          have hvalue : ((fields.readInto slots key).getD do
              expect .colon
              skip
              return slots).Returns room filled := by
            cases hreader : fields.readInto slots key with
            | some reader => exact hread slots key reader hslots hreader
            | none => exact Returns.after fun _ => Returns.after fun _ => returns_pure hslots
          dsimp only at hrun
          split at hrun
          · cases hrun
          · next hnext =>
              split at hrun
              · next hshorter =>
                  exact ih _ (hlength ▸ hshorter) false (hvalue _ _ _ hnext) _ rfl _ _ hrun
              · cases hrun

theorem readItems (h : fields.Return room property) (label : String) (index : Nat) :
    (fields.readItems label index).Returns room property := by
  induction h generalizing index with
  | done => exact returns_pure trivial
  | @field α β name decoder absent others property property' hvalue habsent _ ih =>
      rw [Fields.readItems.eq_def]
      refine Returns.after fun more => ?_
      split
      · refine hvalue.bind fun value hproperty => ?_
        exact (ih (index + 1)).bind fun values hvalues => returns_pure ⟨hproperty, hvalues⟩
      · split
        · next value =>
            refine (ih (index + 1)).bind fun values hvalues => ?_
            exact returns_pure ⟨habsent value rfl, hvalues⟩
        · exact returns_unfit _

end Fields.Return

/-- A record has the property that its fields bring about, whether it is written as an object or as
an array. -/
theorem Returns.record {room : Nat} {fields : Fields α} {property : α → Prop} (label : String)
    (h : ∀ below, room = below + 1 → ∃ property', fields.Return below property' ∧
      ∀ value, property' value → property value) :
    (record label fields).Returns room property := by
  refine Returns.after fun token => ?_
  split
  · refine returns_inside fun below hroom => ?_
    obtain ⟨property', hfields, himp⟩ := h below hroom
    obtain ⟨filled, hempty, hread, hcomplete⟩ := hfields.exists_slots
    refine (Fields.Return.readFields hread true hempty).bind fun slots hslots => ?_
    refine Returns.after fun _ => ?_
    split
    · next hresult => exact returns_pure (himp _ (hcomplete slots _ hslots hresult))
    · exact returns_unfit _
  · refine returns_inside fun below hroom => ?_
    obtain ⟨property', hfields, himp⟩ := h below hroom
    refine (hfields.readItems _ 0).bind fun value hvalue => ?_
    exact Returns.after fun _ => returns_pure (himp value hvalue)
  · exact returns_refuse label _

/-- What is built of a record has the property that the fields bring about. -/
theorem Returns.built {room : Nat} {fields : Fields α} {property : β → Prop} {label : String}
    {build : α → β} (h : ∀ below, room = below + 1 → ∃ property', fields.Return below property' ∧
      ∀ values, property' values → property (build values)) :
    (build <$> Decoder.record label fields).Returns room property :=
  (Returns.record label h).map fun _ hvalue => hvalue

/-- What a variant carries has the property, if so much room is left before it. -/
def Payload.Return (room : Nat) (property : α → Prop) : Payload α → Prop
  | .none value => property value
  | .single decoder | .fields decoder => ∀ below, room = below + 1 → decoder.Returns below property

theorem returns_named (room : Nat) (variants : List (Variant α)) (name : String) :
    (named variants name).Returns room
      fun payload => ∃ variant ∈ variants, variant.payload = payload := by
  rw [named]
  split
  · next variant hfind => exact returns_pure ⟨variant, List.mem_of_find?_eq_some hfind, rfl⟩
  · exact returns_unfit _

theorem Returns.variant {room : Nat} {variants : List (Variant α)} {property : α → Prop}
    (h : ∀ variant ∈ variants, variant.payload.Return room property) :
    (variant variants).Returns room property := by
  refine Returns.after fun token => ?_
  split
  · refine returns_inside fun below hroom => Returns.after fun name => ?_
    refine (returns_named below variants name).bind fun payload hpayload => ?_
    obtain ⟨variant, hvariant, rfl⟩ := hpayload
    have hcarried := h variant hvariant
    have hclosed : ∀ value, property value →
        (expect .closeObject >>= fun _ => (pure value : Decoder α)).Returns below property :=
      fun value hvalue => Returns.after fun _ => returns_pure hvalue
    refine Returns.after fun _ => ?_
    cases hpayload : variant.payload with
    | none value =>
        rw [hpayload, Payload.Return] at hcarried
        exact Returns.after fun _ => (returns_pure hcarried).bind hclosed
    | single decoder | fields decoder =>
        rw [hpayload] at hcarried
        exact (hcarried below hroom).bind hclosed
  · next name =>
      refine (returns_named room variants name).bind fun payload hpayload => ?_
      obtain ⟨variant, hvariant, rfl⟩ := hpayload
      have hcarried := h variant hvariant
      cases hpayload : variant.payload with
      | none value =>
          rw [hpayload] at hcarried
          exact returns_pure hcarried
      | single decoder | fields decoder => exact returns_unfit _
  · exact returns_faulty _
  · exact returns_faulty _

/-- A property that may depend on the room is kept by all levels if one level keeps it. -/
theorem returns_recursive {step : Decoder α → Decoder α} {property : Nat → α → Prop}
    (hstep : ∀ self : Decoder α, (∀ room, self.Returns room (property room)) →
      ∀ room, (step self).Returns room (property room)) (room : Nat) :
    (recursive step).Returns room (property room) := by
  have hlevel : ∀ n room, (recursive.level step n).Returns room (property room) := by
    intro n
    induction n with
    | zero => exact fun room => returns_faulty .grammar
    | succ n ih => exact hstep _ ih
  exact hlevel (room + 1) room

/-- A whole text is read with all the room there is. -/
theorem Returns.ofText {decoder : Decoder α} {property : α → Prop}
    (h : decoder.Returns maxNesting property) {text : String} {value : α}
    (hread : decoder.ofText text = .ok value) : property value := by
  rw [Decoder.ofText] at hread
  split at hread
  · cases hread
  · next hrun =>
      cases hread
      exact h _ _ _ hrun
  · cases hread

end PlanLowering.Decoder
