import PlanLowering.Json.Decoder
import PlanLowering.Proofs.Json.Nesting

/-!
Decoders on written values. A decoder reads the tokens of a value and no others, and how the value
comes out depends on the room alone. A value is recovered if it comes out as it was written whenever
there is room for its depth; floats are the exception, and one that is not finite never comes out.
-/

namespace PlanLowering

namespace Decoder

variable {α β γ : Type}

/-- How a value comes out, given how many more arrays and objects may be opened. -/
abbrev Outcome (α : Type) := Nat → Except ReadError α

/-- With less room than the limit the decoder reads these tokens and no others, whatever follows. -/
def Reads (limit : Nat) (decoder : Decoder α) (tokens : List JsonToken) (outcome : Outcome α) :
    Prop :=
  ∀ room < limit, ∀ rest,
    decoder room (tokens ++ rest) = (outcome room).map fun value => (value, rest)

section Rules

variable {limit : Nat} {decoder : Decoder α} {tokens others : List JsonToken} {outcome : Outcome α}

theorem reads_pure (value : α) : (pure value : Decoder α).Reads limit [] fun _ => .ok value :=
  fun _ _ _ => rfl

theorem run_bind (decoder : Decoder α) (following : α → Decoder β) (room : Nat)
    (tokens : List JsonToken) :
    (decoder >>= following) room tokens =
      (decoder room tokens).bind fun result => following result.1 room result.2 := by
  rfl

theorem Reads.bind {following : α → Decoder β} {outcome' : α → Outcome β}
    (h : decoder.Reads limit tokens outcome)
    (hfollowing : ∀ value, (following value).Reads limit others (outcome' value)) :
    (decoder >>= following).Reads limit (tokens ++ others)
      fun room => (outcome room).bind fun value => outcome' value room := by
  intro room hroom rest
  rw [run_bind, List.append_assoc, h room hroom]
  dsimp only
  cases outcome room with
  | error e => rfl
  | ok value => exact hfollowing value room hroom rest

/-- What a token decides is decided before the rest is read. -/
theorem Reads.bind_ok {following : α → Decoder β} {value : α} {outcome' : Outcome β}
    (h : decoder.Reads limit tokens fun _ => .ok value)
    (hfollowing : (following value).Reads limit others outcome') :
    (decoder >>= following).Reads limit (tokens ++ others) outcome' := by
  intro room hroom rest
  rw [run_bind, List.append_assoc, h room hroom]
  exact hfollowing room hroom rest

/-- What is read last may be decided without reading on. -/
theorem Reads.bind_end {following : α → Decoder β} {value : α} {outcome' : Outcome β}
    (h : decoder.Reads limit tokens fun _ => .ok value)
    (hfollowing : (following value).Reads limit [] outcome') :
    (decoder >>= following).Reads limit tokens outcome' := by
  have hall := h.bind_ok hfollowing
  rwa [List.append_nil] at hall

theorem Reads.map (f : α → β) (h : decoder.Reads limit tokens outcome) :
    (f <$> decoder).Reads limit tokens fun room => (outcome room).map f := by
  intro room hroom rest
  have hrun : (f <$> decoder) room (tokens ++ rest) =
      (decoder room (tokens ++ rest)).map fun result => (f result.1, result.2) := by
    change (decoder room (tokens ++ rest)).bind _ = _
    cases decoder room (tokens ++ rest) <;> rfl
  rw [hrun, h room hroom]
  dsimp only
  cases outcome room <;> rfl

theorem Reads.mono {limit' : Nat} (h : decoder.Reads limit tokens outcome) (hle : limit' ≤ limit) :
    decoder.Reads limit' tokens outcome :=
  fun room hroom => h room (Nat.lt_of_lt_of_le hroom hle)

theorem reads_next (token : JsonToken) : next.Reads limit [token] fun _ => .ok token :=
  fun _ _ _ => rfl

theorem reads_expect (token : JsonToken) : (expect token).Reads limit [token] fun _ => .ok () := by
  apply (reads_next token).bind_end
  rw [if_pos rfl]
  exact reads_pure ()

/-- Each bracket that is opened takes one from the room. -/
theorem Reads.inside (h : decoder.Reads limit tokens outcome) :
    decoder.inside.Reads (limit + 1) tokens fun
      | 0 => .error (.text .grammar)
      | room + 1 => outcome room := by
  intro room hroom rest
  cases room with
  | zero => rfl
  | succ room => exact h room (Nat.lt_of_succ_lt_succ hroom) rest

end Rules

/-! ### What is recovered -/

/-- The value, if there is room for its arrays and objects. -/
def within (depth : Nat) (value : α) : Outcome α :=
  fun room => if depth ≤ room then .ok value else .error (.text .grammar)

/-- Two values, one after the other. -/
def both (outcome : Outcome α) (outcome' : Outcome β) : Outcome (α × β) :=
  fun room => (outcome room).bind fun a => (outcome' room).map fun b => (a, b)

/-- The float literals of a value all have a property. -/
abbrev Floats := (Binary64 → Prop) → Prop

/-- A value comes out as it is if there are no floats in it, and does not come out at all if one of
them is not finite. -/
structure Faithful (limit depth : Nat) (value : α) (floats : Floats) (outcome : Outcome α) :
    Prop where
  exact : floats (fun _ => False) → ∀ room < limit, outcome room = within depth value room
  finite : ∀ room < limit, ∀ result, outcome room = .ok result →
    floats fun x => x.isFinite = true

namespace Faithful

variable {limit depth depth' : Nat} {value : α} {value' : β} {floats floats' : Floats}
  {outcome : Outcome α} {outcome' : Outcome β}

theorem pure (limit : Nat) (value : α) :
    Faithful limit 0 value (fun _ => True) fun _ => .ok value :=
  ⟨fun _ room _ => (if_pos (Nat.zero_le room)).symm, fun _ _ _ _ => trivial⟩

theorem congr (h : Faithful limit depth value floats outcome)
    (hfloats : ∀ p, floats' p ↔ floats p) : Faithful limit depth value floats' outcome :=
  ⟨fun hnone => h.exact ((hfloats _).mp hnone),
    fun room hroom result hresult => (hfloats _).mpr (h.finite room hroom result hresult)⟩

theorem mono {limit' : Nat} (h : Faithful limit depth value floats outcome) (hle : limit' ≤ limit) :
    Faithful limit' depth value floats outcome :=
  ⟨fun hnone room hroom => h.exact hnone room (Nat.lt_of_lt_of_le hroom hle),
    fun room hroom => h.finite room (Nat.lt_of_lt_of_le hroom hle)⟩

theorem map (f : α → β) (h : Faithful limit depth value floats outcome) :
    Faithful limit depth (f value) floats fun room => (outcome room).map f := by
  constructor
  · intro hnone room hroom
    rw [h.exact hnone room hroom, within, within]
    split <;> rfl
  · intro room hroom result hresult
    cases houtcome : outcome room with
    | error e =>
        rw [houtcome] at hresult
        cases hresult
    | ok value => exact h.finite room hroom value houtcome

/-- One value after the other: both have to have room, and no float of either may be lost. -/
theorem pair (h : Faithful limit depth value floats outcome)
    (h' : Faithful limit depth' value' floats' outcome') :
    Faithful limit (max depth depth') (value, value') (fun p => floats p ∧ floats' p)
      (both outcome outcome') := by
  constructor
  · rintro ⟨hnone, hnone'⟩ room hroom
    rw [both, h.exact hnone room hroom, h'.exact hnone' room hroom, within, within, within]
    by_cases hdepth : depth ≤ room
    · by_cases hdepth' : depth' ≤ room
      · rw [if_pos hdepth, if_pos hdepth', if_pos (Nat.max_le.mpr ⟨hdepth, hdepth'⟩)]
        rfl
      · rw [if_pos hdepth, if_neg hdepth', if_neg fun hle => hdepth' (Nat.max_le.mp hle).2]
        rfl
    · rw [if_neg hdepth, if_neg fun hle => hdepth (Nat.max_le.mp hle).1]
      rfl
  · intro room hroom result hresult
    rw [both] at hresult
    cases houtcome : outcome room with
    | error e =>
        rw [houtcome] at hresult
        cases hresult
    | ok a =>
        cases houtcome' : outcome' room with
        | error e =>
            rw [houtcome, houtcome'] at hresult
            cases hresult
        | ok b => exact ⟨h.finite room hroom a houtcome, h'.finite room hroom b houtcome'⟩

theorem inside (h : Faithful limit depth value floats outcome) :
    Faithful (limit + 1) (depth + 1) value floats fun
      | 0 => .error (.text .grammar)
      | room + 1 => outcome room := by
  constructor
  · intro hnone room hroom
    cases room with
    | zero => rfl
    | succ room =>
        have hexact := h.exact hnone room (Nat.lt_of_succ_lt_succ hroom)
        simpa [within] using hexact
  · intro room hroom result hresult
    cases room with
    | zero => cases hresult
    | succ room => exact h.finite room (Nat.lt_of_succ_lt_succ hroom) result hresult

end Faithful

/-- A decoder recovers a value from its tokens, as far as it can be recovered. -/
def Recovers (limit : Nat) (decoder : Decoder α) (tokens : List JsonToken) (depth : Nat) (value : α)
    (floats : Floats) : Prop :=
  ∃ outcome, decoder.Reads limit tokens outcome ∧ Faithful limit depth value floats outcome

namespace Recovers

variable {limit depth : Nat} {decoder : Decoder α} {tokens others : List JsonToken} {value : α}
  {floats floats' : Floats}

/-- Without any room there is nothing to recover. -/
theorem zero : Recovers 0 decoder tokens depth value floats :=
  ⟨within depth value, nofun, nofun, nofun⟩

theorem congr (h : Recovers limit decoder tokens depth value floats)
    (hfloats : ∀ p, floats' p ↔ floats p) : Recovers limit decoder tokens depth value floats' := by
  obtain ⟨outcome, hreads, hfaithful⟩ := h
  exact ⟨outcome, hreads, hfaithful.congr hfloats⟩

theorem pure (limit : Nat) (value : α) :
    Recovers limit (pure value) [] 0 value fun _ => True :=
  ⟨_, reads_pure value, .pure limit value⟩

theorem map (f : α → β) (h : Recovers limit decoder tokens depth value floats) :
    Recovers limit (f <$> decoder) tokens depth (f value) floats := by
  obtain ⟨outcome, hreads, hfaithful⟩ := h
  exact ⟨_, hreads.map f, hfaithful.map f⟩

theorem mono {limit' : Nat} (h : Recovers limit decoder tokens depth value floats)
    (hle : limit' ≤ limit) : Recovers limit' decoder tokens depth value floats := by
  obtain ⟨outcome, hreads, hfaithful⟩ := h
  exact ⟨outcome, hreads.mono hle, hfaithful.mono hle⟩

/-- What is read first may decide on the rest. -/
theorem after {first : Decoder β} {following : β → Decoder α} {b : β}
    (hfirst : first.Reads limit others fun _ => .ok b)
    (h : Recovers limit (following b) tokens depth value floats) :
    Recovers limit (first >>= following) (others ++ tokens) depth value floats := by
  obtain ⟨outcome, hreads, hfaithful⟩ := h
  exact ⟨outcome, hfirst.bind_ok hreads, hfaithful⟩

theorem inside (h : Recovers limit decoder tokens depth value floats) :
    Recovers (limit + 1) decoder.inside tokens (depth + 1) value floats := by
  obtain ⟨outcome, hreads, hfaithful⟩ := h
  exact ⟨_, hreads.inside, hfaithful.inside⟩

end Recovers

end Decoder

end PlanLowering
