import PlanLowering.Proofs.Toml.Documents

/-!
Readers of TOML documents. What the language asks of a reader is said of any reader, up to a limit of its
own; the reader of this library meets it, as long as numbers are within their range.
-/

namespace PlanLowering.TomlGrammar

open TomlReader TomlDocument

section Limits

variable {limit limit' : Nat} {cs : List Char} {key : TomlKey} {value : Toml}
variable {statements : List TomlStatement}

theorem Key.mono (hlimit : limit ≤ limit') (h : Key limit cs key) : Key limit' cs key :=
  ⟨h.1, h.2.trans_le hlimit⟩

theorem Listed.imp {α : Type} {Item Item' : List Char → α → Prop} {items : List α}
    (hitem : ∀ {cs item}, Item cs item → Item' cs item) (h : Listed Item cs items) :
    Listed Item' cs items := by
  induction h with
  | none hgap => exact .none hgap
  | last hgap h hgap' => exact .last hgap (hitem h) hgap'
  | more hgap h hgap' _ ih => exact .more hgap (hitem h) hgap' ih

theorem Pair.mono {IsValue IsValue' : List Char → Toml → Prop} {entry : TomlKey × Toml}
    (hlimit : limit ≤ limit') (hvalue : ∀ {cs value}, IsValue cs value → IsValue' cs value)
    (h : Pair limit IsValue cs entry) : Pair limit' IsValue' cs entry := by
  cases h with
  | intro hkey hbefore hbehind h => exact .intro (hkey.mono hlimit) hbefore hbehind (hvalue h)

theorem value_mono (hlimit : limit ≤ limit') {depth depth' : Nat} (hdepth : depth ≤ depth')
    (h : Value limit depth cs value) : Value limit' depth' cs value := by
  induction depth generalizing depth' cs value with
  | zero =>
      cases depth' with
      | zero => exact h
      | succ depth' => exact Or.inl h
  | succ depth ih =>
      obtain ⟨depth', rfl⟩ := Nat.exists_eq_add_of_le' (Nat.zero_lt_of_lt hdepth)
      have hinner : ∀ {cs value}, Value limit depth cs value → Value limit' depth' cs value :=
        fun h => ih (Nat.le_of_succ_le_succ hdepth) h
      rcases h with h | h
      · exact Or.inl h
      · cases h with
        | array h => exact Or.inr (.array (h.imp hinner))
        | table h hconsistent =>
            exact Or.inr (.table (h.imp fun hentry => hentry.mono hlimit hinner) hconsistent)

theorem Lines.mono (hlimit : limit ≤ limit') (h : Lines limit cs statements) :
    Lines limit' cs statements := by
  have hline : ∀ {cs statements}, Line limit cs statements → Line limit' cs statements := by
    rintro _ _ (hrest | ⟨hblanks, h, hrest⟩)
    · exact .empty hrest
    · refine .statement hblanks ?_ hrest
      cases h with
      | header hbefore hkey hbehind => exact .header hbefore (hkey.mono hlimit) hbehind
      | repeatedHeader hbefore hkey hbehind =>
          exact .repeatedHeader hbefore (hkey.mono hlimit) hbehind
      | entry h => exact .entry (h.mono hlimit (value_mono hlimit hlimit))
  induction h with
  | last h => exact .last (hline h)
  | more h hending _ ih => exact .more (hline h) hending ih

/-- A document keeps to any greater limit as well. -/
theorem Document.mono (hlimit : limit ≤ limit') (h : Document limit cs statements) :
    Document limit' cs statements := by
  cases h with
  | unmarked h => exact .unmarked (h.mono hlimit)
  | marked h => exact .marked (h.mono hlimit)

end Limits

/-- The reader goes by the language where it comes to this text: if the text is a document that keeps to
the limit, and its statements fit together, it reads a table that represents them. -/
def Conforms (limit : Nat) (read : String → Option TomlTable) (text : String) : Prop :=
  ∀ statements, Document limit text.toList statements → Consistent statements →
    ∃ table, read text = some table ∧ table.Represents statements

/-- The reader of this library keeps to its own limit and to the range of numbers. -/
theorem conforms_read? {limit : Nat} {text : String} {statements : List TomlStatement}
    (hlimit : limit ≤ nestingLimit) (hdocument : Document limit text.toList statements)
    (hrange : StatementsInRange statements) : Conforms limit read? text := by
  intro others hothers hconsistent
  have hsame : some statements = some others :=
    (statements?_of_document (hdocument.mono hlimit)).symm.trans
      (statements?_of_document (hothers.mono hlimit))
  obtain rfl := Option.some.inj hsame
  obtain ⟨table, htable⟩ := exists_ofStatements? hdocument.isComplete hconsistent
  exact ⟨table, (read?_of_document (hdocument.mono hlimit)).trans htable,
    TomlTable.represents_of_ofStatements? hrange htable⟩

end PlanLowering.TomlGrammar
