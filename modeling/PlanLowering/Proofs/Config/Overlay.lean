import PlanLowering.Proofs.Config.RoundTrip
import PlanLowering.Proofs.Toml.Readers

/-!
A document that gives some of the settings leaves the others at their defaults. It may give them under a
header, by dotted keys or between braces, in any order, and say whatever else it likes. Nothing is known
of the reader but that it goes by the language.
-/

namespace PlanLowering

open TomlDocument TomlReader

/-- The value is no table, and its numbers are within their range. -/
def Toml.IsPlain (value : Toml) : Prop :=
  value.IsLeaf ∧ value.inRange = true

namespace TomlDocument

/-- The path has the value, outside of all repeated tables, or is not mentioned. -/
def States (statements : List TomlStatement) (path : List String) : Option Toml → Prop
  | some value => Says statements path value ∧ ¬ InRepeated statements path
  | none => ¬ Mentions statements path

/-- The name stands for a single table if for anything, and each setting is stated below it. -/
structure StatesGroup (statements : List TomlStatement) (group : String)
    (settings : List (String × Option Toml)) : Prop where
  table : ∀ value, Says statements [group] value → value.IsTable
  single : .repeatedHeader ⟨[], group⟩ ∉ statements
  settings : ∀ setting ∈ settings, States statements [group, setting.1] setting.2

section States

variable {statements : List TomlStatement} {table : TomlTable} {group name : String}
variable {path : List String} {said : Option Toml} {settings : List (String × Option Toml)}

theorem States.reach? (htable : table.Represents statements)
    (hplain : ∀ value ∈ said, value.IsPlain) (h : States statements (name :: path) said) :
    table.toValue.reach? (name :: path) = said := by
  cases said with
  | some value =>
      obtain ⟨hleaf, hrange⟩ := hplain value rfl
      exact htable.kept _ value hleaf hrange h.1 h.2
  | none =>
      rw [Option.eq_none_iff_forall_ne_some]
      intro found hfound
      obtain ⟨_, hjustified, -⟩ := htable.justified name path found hfound
      exact h hjustified.1

theorem StatesGroup.value? (htable : table.Represents statements)
    (h : StatesGroup statements group settings) :
    ∀ value ∈ table.value? group, value.IsTable := by
  intro value hvalue
  have hreach : table.toValue.reach? [group] = some value := by
    rw [TomlTable.reach?_cons, hvalue]
    rfl
  obtain ⟨said, hjustified, hread⟩ := htable.justified group [] value hreach
  have hsaid : said.IsTable := by
    rcases hjustified.2 with
      hgroup | ⟨-, hsays⟩ | ⟨-, ⟨⟨way, name⟩, hmem, hpath⟩ | ⟨other, hother, hsays⟩⟩
    · exact hgroup
    · exact h.table said hsays
    · have hsplit : way ++ [name] = [] ++ [group] := hpath
      obtain ⟨rfl, hname⟩ := List.append_inj' hsplit rfl
      rw [(List.cons.inj hname).1] at hmem
      exact absurd hmem h.single
    · exact absurd hother (not_isRepeated_of_isTable (h.table other hsays))
  rcases hread with rfl | ⟨-, hleaf, -⟩
  · exact hsaid
  · exact absurd hsaid hleaf.1

end States

end TomlDocument

namespace Toml

variable {α : Type} {origin : TomlOrigin} {entries : List (String × Toml)} {given : Option α}
variable {encode : α → Toml} {decode : Toml → Option α}

theorem skippable_of_inRange (h : entriesInRange entries = true) (settings : List String) :
    (table origin entries).skippable settings = true := by
  rw [skippable, List.all_eq_true]
  intro entry hentry
  rw [entriesInRange_iff.mp h entry hentry, Bool.or_true]

theorem settingOr_toValue (table : TomlTable) (place : Nat) (name : String) (default : α) :
    table.toValue.settingOr place name decode default =
      (table.value? name).elim (some default) decode := by
  rw [settingOr, TomlTable.toValue, setting?, Option.bind_eq_bind, Option.bind_some,
    TomlTable.value?]
  cases table.entries.lookup name <;> rfl

/-- A setting that the group gives, or does not give. -/
theorem settingOr_of_given {name : String} (hdecode : ∀ value, decode (encode value) = some value)
    (hfound : entries.lookup name = given.map encode) (place : Nat) (default : α) :
    (table origin entries).settingOr place name decode default = some (given.getD default) := by
  rw [settingOr, setting?, hfound]
  cases given with
  | none => rfl
  | some value => exact hdecode value

theorem isPlain_of_mem_map (hencode : ∀ value, (encode value).IsPlain) :
    ∀ value ∈ given.map encode, value.IsPlain := by
  cases given with
  | none => rintro _ ⟨⟩
  | some value =>
      rintro _ ⟨⟩
      exact hencode value

def ofMode (mode : Mode) : Toml :=
  string (Named.name mode)

def ofWord (value : UInt64) : Toml :=
  integer value.toNat

theorem member?_ofMode (mode : Mode) : member? Mode (ofMode mode) = some mode :=
  Named.ofName?_name mode

theorem isPlain_ofMode (mode : Mode) : (ofMode mode).IsPlain :=
  ⟨⟨id, id⟩, rfl⟩

theorem isPlain_ofWord (value : UInt64) : (ofWord value).IsPlain := by
  have hlow : (Nat.pow 2 127 : Nat) = 170141183460469231731687303715884105728 := by decide
  have hhigh : (Nat.pow 2 128 : Nat) = 340282366920938463463374607431768211456 := by decide
  have hvalue := value.toNat_lt
  refine ⟨⟨id, id⟩, ?_⟩
  rw [ofWord, inRange, Bool.and_eq_true, decide_eq_true_eq, decide_eq_true_eq, hlow, hhigh]
  omega

theorem isPlain_boolean (value : Bool) : (boolean value).IsPlain :=
  ⟨⟨id, id⟩, rfl⟩

theorem isPlain_string (text : String) : (string text).IsPlain :=
  ⟨⟨id, id⟩, rfl⟩

end Toml

namespace CompilerOptions

/-- Values for some of the options. -/
structure Given where
  defaultMode : Option Mode := none
  maxPlanDepth : Option UInt64 := none
  traceStrategies : Option Bool := none

namespace Given

/-- The options with the defaults in place of those that are not given. -/
def overlay (given : Given) : CompilerOptions :=
  let defaults : CompilerOptions := {}
  { defaultMode := given.defaultMode.getD defaults.defaultMode
    maxPlanDepth := given.maxPlanDepth.getD defaults.maxPlanDepth
    traceStrategies := given.traceStrategies.getD defaults.traceStrategies }

/-- What a document has for each of the options. -/
def settings (given : Given) : List (String × Option Toml) :=
  [("default_mode", given.defaultMode.map Toml.ofMode),
    ("max_plan_depth", given.maxPlanDepth.map Toml.ofWord),
    ("trace_strategies", given.traceStrategies.map Toml.boolean)]

theorem isPlain_settings (given : Given) :
    ∀ setting ∈ given.settings, ∀ value ∈ setting.2, value.IsPlain := by
  simp only [settings, List.forall_mem_cons]
  exact ⟨Toml.isPlain_of_mem_map Toml.isPlain_ofMode, Toml.isPlain_of_mem_map Toml.isPlain_ofWord,
    Toml.isPlain_of_mem_map Toml.isPlain_boolean, List.forall_mem_nil _⟩

theorem overlay_of_absent {given : Given} (h : ∀ setting ∈ given.settings, setting.2 = none) :
    given.overlay = {} := by
  simp only [settings, List.forall_mem_cons, Option.map_eq_none_iff] at h
  obtain ⟨hmode, hdepth, htrace, -⟩ := h
  rw [overlay, hmode, hdepth, htrace]
  rfl

end Given

theorem ofToml?_given {given : Given} {origin : TomlOrigin} {entries : List (String × Toml)}
    (hrange : Toml.entriesInRange entries = true)
    (hfound : ∀ setting ∈ given.settings, entries.lookup setting.1 = setting.2) :
    ofToml? (.table origin entries) = some given.overlay := by
  simp only [Given.settings, List.forall_mem_cons] at hfound
  obtain ⟨hmode, hdepth, htrace, -⟩ := hfound
  have hflag : ∀ flag, Toml.flag? (.boolean flag) = some flag := fun _ => rfl
  simp only [ofToml?, Toml.skippable_of_inRange hrange, guard_true,
    Toml.settingOr_of_given Toml.member?_ofMode hmode,
    Toml.settingOr_of_given Toml.word?_integer hdepth, Toml.settingOr_of_given hflag htrace,
    Option.bind_eq_bind, Option.bind_some, Option.pure_def, Given.overlay]

end CompilerOptions

namespace LogConfig

/-- Values for some of the settings of the log. -/
structure Given where
  level : Option String := none
  dir : Option String := none
  file : Option String := none
  maxFileSize : Option UInt64 := none
  maxFiles : Option UInt64 := none

namespace Given

/-- The settings with the defaults in place of those that are not given. -/
def overlay (given : Given) : LogConfig :=
  let defaults : LogConfig := {}
  { level := given.level.getD defaults.level
    dir := given.dir.getD defaults.dir
    file := given.file.getD defaults.file
    maxFileSize := given.maxFileSize.getD defaults.maxFileSize
    maxFiles := given.maxFiles.getD defaults.maxFiles }

/-- What a document has for each of the settings. -/
def settings (given : Given) : List (String × Option Toml) :=
  [("level", given.level.map Toml.string), ("dir", given.dir.map Toml.string),
    ("file", given.file.map Toml.string), ("max_file_size", given.maxFileSize.map Toml.ofWord),
    ("max_files", given.maxFiles.map Toml.ofWord)]

theorem isPlain_settings (given : Given) :
    ∀ setting ∈ given.settings, ∀ value ∈ setting.2, value.IsPlain := by
  simp only [settings, List.forall_mem_cons]
  exact ⟨Toml.isPlain_of_mem_map Toml.isPlain_string, Toml.isPlain_of_mem_map Toml.isPlain_string,
    Toml.isPlain_of_mem_map Toml.isPlain_string, Toml.isPlain_of_mem_map Toml.isPlain_ofWord,
    Toml.isPlain_of_mem_map Toml.isPlain_ofWord, List.forall_mem_nil _⟩

theorem overlay_of_absent {given : Given} (h : ∀ setting ∈ given.settings, setting.2 = none) :
    given.overlay = {} := by
  simp only [settings, List.forall_mem_cons, Option.map_eq_none_iff] at h
  obtain ⟨hlevel, hdir, hfile, hsize, hfiles, -⟩ := h
  rw [overlay, hlevel, hdir, hfile, hsize, hfiles]
  rfl

end Given

theorem ofToml?_given {given : Given} {origin : TomlOrigin} {entries : List (String × Toml)}
    (hrange : Toml.entriesInRange entries = true)
    (hfound : ∀ setting ∈ given.settings, entries.lookup setting.1 = setting.2) :
    ofToml? (.table origin entries) = some given.overlay := by
  simp only [Given.settings, List.forall_mem_cons] at hfound
  obtain ⟨hlevel, hdir, hfile, hsize, hfiles, -⟩ := hfound
  have htext : ∀ text, Toml.text? (.string text) = some text := fun _ => rfl
  simp only [ofToml?, Toml.skippable_of_inRange hrange, guard_true,
    Toml.settingOr_of_given htext hlevel, Toml.settingOr_of_given htext hdir,
    Toml.settingOr_of_given htext hfile, Toml.settingOr_of_given Toml.word?_integer hsize,
    Toml.settingOr_of_given Toml.word?_integer hfiles, Option.bind_eq_bind, Option.bind_some,
    Option.pure_def, Given.overlay]

end LogConfig

namespace Config

/-- Values for some of the settings. -/
structure Given where
  compiler : CompilerOptions.Given := {}
  log : LogConfig.Given := {}

namespace Given

def overlay (given : Given) : Config :=
  ⟨given.compiler.overlay, given.log.overlay⟩

/-- The statements give these values to the settings, and no others. -/
structure StatedBy (given : Given) (statements : List TomlStatement) : Prop where
  compiler : StatesGroup statements "compiler" given.compiler.settings
  log : StatesGroup statements "log" given.log.settings

end Given

/-- A group that a document has is read from its table, and one that it does not have is all
defaults. -/
theorem settingOr_group {α : Type} {decode : Toml → Option α} {overlay default : α}
    {statements : List TomlStatement} {table : TomlTable} {group : String}
    {settings : List (String × Option Toml)} (htable : table.Represents statements)
    (hgroup : StatesGroup statements group settings)
    (hplain : ∀ setting ∈ settings, ∀ value ∈ setting.2, value.IsPlain)
    (hdecode : ∀ origin entries, Toml.entriesInRange entries = true →
      (∀ setting ∈ settings, entries.lookup setting.1 = setting.2) →
        decode (.table origin entries) = some overlay)
    (habsent : (∀ setting ∈ settings, setting.2 = none) → overlay = default) (place : Nat) :
    table.toValue.settingOr place group decode default = some overlay := by
  have hfound : ∀ setting ∈ settings,
      table.toValue.reach? [group, setting.1] = setting.2 := fun setting hmem =>
    (hgroup.settings setting hmem).reach? htable (hplain setting hmem)
  rw [Toml.settingOr_toValue]
  cases hvalue : table.value? group with
  | none =>
      rw [Option.elim_none, habsent]
      intro setting hmem
      rw [← hfound setting hmem, TomlTable.reach?_cons, hvalue]
      rfl
  | some value =>
      have hkind := hgroup.value? htable value hvalue
      cases value with
      | table origin entries =>
          refine hdecode origin entries (htable.inRange.of_value? hvalue) fun setting hmem => ?_
          rw [← hfound setting hmem, TomlTable.reach?_cons, hvalue]
          exact (Option.bind_fun_some _).symm
      | _ => exact absurd hkind id

theorem ofToml?_represents {statements : List TomlStatement} {table : TomlTable} {given : Given}
    (htable : table.Represents statements) (hgiven : given.StatedBy statements) :
    ofToml? table.toValue = some given.overlay := by
  have hcompiler := settingOr_group htable hgiven.compiler given.compiler.isPlain_settings
    (fun _ _ => CompilerOptions.ofToml?_given) CompilerOptions.Given.overlay_of_absent 0
  have hlog := settingOr_group htable hgiven.log given.log.isPlain_settings
    (fun _ _ => LogConfig.ofToml?_given) LogConfig.Given.overlay_of_absent 1
  have hskip : table.toValue.skippable settings = true :=
    Toml.skippable_of_inRange htable.inRange settings
  simp only [ofToml?, hskip, guard_true, hcompiler, hlog, Option.bind_eq_bind, Option.bind_some,
    Option.pure_def, Given.overlay]

theorem ofDocumentAs_overlay {limit : Nat} {text : String} {statements : List TomlStatement}
    {given : Given} {read : String → Option TomlTable}
    (hdocument : TomlGrammar.Document limit text.toList statements)
    (hconsistent : Consistent statements) (hgiven : given.StatedBy statements)
    (hread : TomlGrammar.Conforms limit read text) : ofDocumentAs read text = .ok given.overlay := by
  obtain ⟨table, htext, htable⟩ := hread statements hdocument hconsistent
  rw [ofDocumentAs, htext, Option.bind_some, ofToml?_represents htable hgiven]

/-- Whatever else a document says, the settings that it gives have their values, and all others keep
their defaults: for any reader that goes by the language, and so for the one of this library, if the
document keeps to its limits. -/
theorem ofDocument_overlay {limit : Nat} {text : String} {statements : List TomlStatement}
    {given : Given} (hdocument : TomlGrammar.Document limit text.toList statements)
    (hconsistent : Consistent statements) (hgiven : given.StatedBy statements) :
    (∀ read, TomlGrammar.Conforms limit read text →
      ofDocumentAs read text = .ok given.overlay) ∧
    (limit ≤ nestingLimit → StatementsInRange statements → ofDocument text = .ok given.overlay) := by
  refine ⟨fun read => ofDocumentAs_overlay hdocument hconsistent hgiven, fun hlimit hrange => ?_⟩
  exact ofDocumentAs_overlay hdocument hconsistent hgiven
    (TomlGrammar.conforms_read? hlimit hdocument hrange)

/-- A dotted key, an unknown one, and a header. -/
def partialText : String :=
  "compiler.max_plan_depth = 1_0 # few\nunknown = [1.5]\n[log]\nlevel = 'debug'\n"

def partialStatements : List TomlStatement :=
  [.entry ⟨["compiler"], "max_plan_depth"⟩ (.integer 10),
    .entry ⟨[], "unknown"⟩ (.array [.float ⟨false, ['1'], ['5'], none⟩]), .header ⟨[], "log"⟩,
    .entry ⟨[], "level"⟩ (.string "debug")]

def partialSettings : Given where
  compiler := { maxPlanDepth := some 10 }
  log := { level := some "debug" }

open TomlGrammar in
theorem document_partialText : Document nestingLimit partialText.toList partialStatements := by
  have hbare : ∀ {name : String}, TomlReader.Bare name → KeyPart name.toList name := by
    intro name h
    have hpart := KeyPart.bare h.nonempty h.chars
    rwa [String.ofList_toList] at hpart
  have hkey : ∀ {name : String}, TomlReader.Bare name → Key nestingLimit name.toList ⟨[], name⟩ :=
    fun h => ⟨.last (hbare h), Nat.zero_lt_succ _⟩
  have hnone : Blanks [] := List.forall_mem_nil _
  have hblank : Blanks [' '] := List.forall_mem_singleton.mpr rfl
  have hempty : LineRest [] := .blanks hnone
  have hfew : LineRest ([' '] ++ '#' :: " few".toList) :=
    .comment hblank (List.all_eq_true.mp rfl)
  have hpath : Key nestingLimit _ ⟨["compiler"], "max_plan_depth"⟩ :=
    ⟨.dotted (hbare (by decide)) hnone hnone (.last (hbare (by decide))), by decide⟩
  have hten : IntegerWord ([] ++ ['1', '_', '0']) 10 :=
    .decimal .none ⟨.underscore rfl (.one rfl), .inr ⟨'1', ['0'], rfl, by decide⟩⟩
  have hfloat : FloatWord ([] ++ (['1'] ++ (['.', '5'] ++ []))) ⟨false, ['1'], ['5'], none⟩ :=
    .intro .none ⟨.one rfl, .inr ⟨'1', [], rfl, by decide⟩⟩ (.some (.one rfl)) .none
      (.inl (by decide))
  have harray : Nested nestingLimit (Value nestingLimit 79) _
      (.array [.float ⟨false, ['1'], ['5'], none⟩]) :=
    .array (.last .nil (.inl (.float hfloat)) .nil)
  have hchars : Body ⟨false, false⟩ 0 ['d', 'e', 'b', 'u', 'g'] ['d', 'e', 'b', 'u', 'g'] :=
    .plain rfl (by decide) (by decide) (.plain rfl (by decide) (by decide)
      (.plain rfl (by decide) (by decide) (.plain rfl (by decide) (by decide)
        (.plain rfl (by decide) (by decide) .done))))
  have hdepth : Line nestingLimit _ [.entry ⟨["compiler"], "max_plan_depth"⟩ (.integer 10)] :=
    .statement hnone (.entry (.intro hpath hblank hblank (.inl (.integer hten (by decide))))) hfew
  have hunknown : Line nestingLimit _
      [.entry ⟨[], "unknown"⟩ (.array [.float ⟨false, ['1'], ['5'], none⟩])] :=
    .statement hnone (.entry (.intro (hkey (by decide)) hblank hblank (.inr harray))) hempty
  have hlog : Line nestingLimit _ [.header ⟨[], "log"⟩] :=
    .statement hnone (.header hnone (hkey (by decide)) hnone) hempty
  have hlevel : Line nestingLimit _
      [.entry ⟨[], "level"⟩ (.string (String.ofList ['d', 'e', 'b', 'u', 'g']))] :=
    .statement hnone (.entry (.intro (hkey (by decide)) hblank hblank
      (.inl (.string (.line (.intro rfl hchars)))))) hempty
  have hlines := Lines.more hdepth .feed (.more hunknown .feed (.more hlog .feed
    (.more hlevel .feed (.last (.empty hempty)))))
  exact .unmarked hlines

theorem statedBy_partialSettings : partialSettings.StatedBy partialStatements where
  compiler := by
    constructor <;>
      simp [partialSettings, partialStatements, CompilerOptions.Given.settings, States, Says,
        Mentions, InRepeated, givenFrom, given, openNext, TomlKey.path, Toml.ofWord, Toml.reach?]
  log := by
    constructor <;>
      simp [partialSettings, partialStatements, LogConfig.Given.settings, States, Says,
        Mentions, InRepeated, givenFrom, given, openNext, TomlKey.path, Toml.reach?]

theorem statementsInRange_partialStatements : StatementsInRange partialStatements := by
  intro key value hmem
  simp only [partialStatements, List.mem_cons, List.not_mem_nil, or_false] at hmem
  rcases hmem with ⟨⟨⟩⟩ | ⟨⟨⟩⟩ | ⟨⟨⟩⟩ | ⟨⟨⟩⟩ <;> rfl

theorem ofDocument_overlay_partialText :
    TomlGrammar.Document nestingLimit partialText.toList partialStatements ∧
      Consistent partialStatements ∧ partialSettings.StatedBy partialStatements ∧
      TomlGrammar.Conforms nestingLimit read? partialText ∧
      ofDocumentAs read? partialText =
        .ok { compiler := { maxPlanDepth := 10 }, log := { level := "debug" } } ∧
      ofDocument partialText =
        .ok { compiler := { maxPlanDepth := 10 }, log := { level := "debug" } } := by
  have hdocument := document_partialText
  have hconsistent : Consistent partialStatements := by decide
  have hrange := statementsInRange_partialStatements
  have hread : TomlGrammar.Conforms nestingLimit read? partialText :=
    TomlGrammar.conforms_read? (le_refl _) hdocument hrange
  obtain ⟨hany, hown⟩ := ofDocument_overlay hdocument hconsistent statedBy_partialSettings
  exact ⟨hdocument, hconsistent, statedBy_partialSettings, hread, hany read? hread,
    hown (le_refl _) hrange⟩

end Config

end PlanLowering
