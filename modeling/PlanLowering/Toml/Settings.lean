import PlanLowering.Named
import PlanLowering.Toml.Range

/-!
Settings in a TOML value: groups of them, each setting of a type of its own and with a default. What a
table holds beside the settings is passed over, provided that its numbers are within their range; what
an array holds behind the settings is not even looked at.
-/

namespace PlanLowering.Toml

/-- The value of a setting in a group: by its name in a table, by its place in an array. A date stands
for an empty group. -/
def setting? (place : Nat) (name : String) : Toml → Option (Option Toml)
  | table _ entries => some (entries.lookup name)
  | array items => some items[place]?
  | tables complete latest => some (complete ++ [table .header latest])[place]?
  | dateTime _ => some none
  | _ => none

/-- The group can be passed over but for the settings with these names. -/
def skippable (settings : List String) : Toml → Bool
  | table _ entries => entries.all fun entry => settings.contains entry.1 || entry.2.inRange
  | _ => true

/-- A setting that keeps its default unless the group has a value for it. -/
def settingOr {α : Type} (group : Toml) (place : Nat) (name : String) (decode : Toml → Option α)
    (default : α) : Option α := do
  match ← group.setting? place name with
  | none => return default
  | some value => decode value

def text? : Toml → Option String
  | string text => some text
  | _ => none

def flag? : Toml → Option Bool
  | boolean value => some value
  | _ => none

/-- A number of sixty-four bits without a sign. -/
def word? : Toml → Option UInt64
  | integer value =>
    if 0 ≤ value ∧ value < UInt64.size then some (UInt64.ofNat value.toNat) else none
  | _ => none

/-- There is room in the value, and nothing in it. -/
def isVoid : Toml → Bool
  | array [] | table _ [] => true
  | _ => false

/-- A member of a vocabulary: its name, or a table with nothing under its name. -/
def member? (α : Type) [Named α] : Toml → Option α
  | string name => Named.ofName? name
  | table _ [(name, value)] => if value.isVoid then Named.ofName? name else none
  | _ => none

end PlanLowering.Toml
