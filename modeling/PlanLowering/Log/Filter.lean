import PlanLowering.Log.Record
import PlanLowering.Text.Blank
import PlanLowering.Text.Split

/-!
Log filters: rules that each set a threshold for the sources whose names start with a given text. Of
the rules for a source the most specific one decides; a source without a rule is silent. Beside that a
filter can ask something of the texts of all records.
-/

namespace PlanLowering

structure LogRule where
  /-- How the names of the sources start; the empty text stands for all of them. -/
  target : String
  threshold : LogThreshold
deriving DecidableEq, Repr

structure LogFilter where
  rules : List LogRule
  /-- Whether records with this text pass. -/
  admitsText : String → Bool

namespace LogRule

def isFor (source : LogSource) (rule : LogRule) : Bool :=
  rule.target.toList.isPrefixOf source.target.toList

/-- Splits a part of a filter text at its equals signs and removes the blanks around the pieces. -/
def pieces (part : List Char) : List (List Char) :=
  (Text.split '=' part).map Text.trimChars

/-- The threshold with a name, the case of whose letters is ignored. -/
def threshold? (word : List Char) : Option LogThreshold :=
  Named.ofName? (Text.asciiLower (String.ofList word))

/-- A rule as it is written: a threshold for all sources, the sources that shall not be filtered, or
sources and their threshold. No blanks may stand inside the name of the sources. -/
def ofPart? (part : List Char) : Option LogRule :=
  match pieces part with
  | [word] =>
    if word.any Text.isBlank then none
    else
      match threshold? word with
      | some threshold => some ⟨"", threshold⟩
      | none => some ⟨String.ofList word, .lowest⟩
  | [target, word] =>
    if target.any Text.isBlank then none
    else if word.isEmpty then some ⟨String.ofList target, .lowest⟩
    else (threshold? word).map fun threshold => ⟨String.ofList target, threshold⟩
  | _ => none

end LogRule

namespace LogFilter

/-- The rule with the longest target among those for a source; of equals the first. -/
def ruleFor (source : LogSource) : List LogRule → Option LogRule
  | [] => none
  | rule :: rules =>
    if rule.isFor source then
      match ruleFor source rules with
      | some other => if rule.target.length < other.target.length then some other else some rule
      | none => some rule
    else ruleFor source rules

/-- A text occurs in another. -/
def occurs (text : List Char) : List Char → Bool
  | [] => text.isEmpty
  | c :: cs => text.isPrefixOf (c :: cs) || occurs text cs

def admits (filter : LogFilter) (record : LogRecord) : Bool :=
  (ruleFor record.source filter.rules).any (fun rule => rule.threshold.admits record.level) &&
    filter.admitsText record.text

/-- Reads rules between commas, where empty ones do not count. -/
def rules? (cs : List Char) : Option (List LogRule) :=
  let parts := (Text.split ',' cs).map Text.trimChars
  (parts.filter fun part => !part.isEmpty).mapM LogRule.ofPart?

/-- Reads a filter: the rules, and behind a slash a text, taken as it stands, that occurs in all records
that pass. -/
def ofText? (text : String) : Option LogFilter :=
  match Text.split '/' text.toList with
  | [rules] => (rules? rules).map fun rules => ⟨rules, fun _ => true⟩
  | [rules, part] => (rules? rules).map fun rules => ⟨rules, fun text => occurs part text.toList⟩
  | _ => none

end LogFilter

end PlanLowering
