import PlanLowering.Proofs.Toml.Acceptance
import PlanLowering.Proofs.Toml.Ranges
import PlanLowering.Proofs.Toml.Scalars

/-!
A TOML document is read as the statements that the grammar finds in it: keys with their dots, values in
each other, statements on lines of their own.
-/

namespace PlanLowering.TomlGrammar

open TomlBlank TomlReader

section Keys

variable {cs rest : List Char} {name : String} {key : TomlKey}

/-- Behind a key comes an equals sign or a bracket. -/
def ClosesKey (rest : List Char) : Prop :=
  ∃ c others, rest = c :: others ∧ (c = '=' ∨ c = ']')

theorem keyPart?_append (h : KeyPart cs name)
    (hrest : ∀ c ∈ rest.head?, isKeyChar c = false ∧ c ≠ '"' ∧ c ≠ '\'') :
    keyPart? (cs ++ rest) = some (name, rest) := by
  cases h with
  | bare hne hchars =>
      have hname : Bare (String.ofList cs) := by
        constructor <;> rw [String.toList_ofList]
        · exact hne
        · exact hchars
      have hread := keyPart?_bare hname fun c hc => (hrest c hc).1
      rwa [String.toList_ofList] at hread
  | quoted h =>
      have hread := line?_append h fun c hc => (hrest c hc).2
      obtain ⟨first, others, rfl, hfirst⟩ := h.exists_cons
      rw [List.cons_append] at hread ⊢
      rcases hfirst with rfl | rfl <;> rw [keyPart?, hread]

/-- A key starts with a quote or a character of a key. -/
def StartsKey (cs : List Char) : Prop :=
  ∃ first others, cs = first :: others ∧ ((first = '"' ∨ first = '\'') ∨ isKeyChar first = true)

theorem KeyPart.startsKey (h : KeyPart cs name) : StartsKey cs := by
  cases h with
  | bare hne hchars =>
      obtain ⟨first, others, rfl⟩ := List.exists_cons_of_ne_nil hne
      exact ⟨first, others, rfl, Or.inr (hchars first List.mem_cons_self)⟩
  | quoted h =>
      obtain ⟨first, others, rfl, hfirst⟩ := h.exists_cons
      exact ⟨first, others, rfl, Or.inl hfirst⟩

theorem StartsKey.append (h : StartsKey cs) (rest : List Char) : StartsKey (cs ++ rest) := by
  obtain ⟨first, others, rfl, hfirst⟩ := h
  exact ⟨first, others ++ rest, rfl, hfirst⟩

theorem DottedKey.startsKey (h : DottedKey cs key) : StartsKey cs := by
  cases h with
  | last h => exact h.startsKey
  | dotted h _ _ _ => exact h.startsKey.append _

theorem StartsKey.head (h : StartsKey cs) : ∀ c ∈ cs.head?, isSpace c = false ∧ c ≠ '\n' ∧
    c ≠ '\r' ∧ c ≠ '#' ∧ c ≠ '[' ∧ c ≠ ']' ∧ c ≠ '\x7d' := by
  obtain ⟨first, others, rfl, hfirst⟩ := h
  rintro c ⟨⟩
  rcases hfirst with (rfl | rfl) | hfirst
  · decide
  · decide
  · refine ⟨isSpace_of_isKeyChar hfirst, ?_⟩
    refine ⟨?_, ?_, ?_, ?_, ?_, ?_⟩ <;> (rintro rfl; exact absurd hfirst (by decide))

theorem ClosesKey.head (h : ClosesKey rest) : ∀ c ∈ rest.head?, isSpace c = false := by
  obtain ⟨first, others, rfl, rfl | rfl⟩ := h <;> (rintro c ⟨⟩; rfl)

/-- A part of a key ends before blanks, a dot, or what closes the key. -/
theorem keyPart?_blanks {blanks : List Char} (h : KeyPart cs name) (hblanks : Blanks blanks)
    (hrest : ∀ c ∈ rest.head?, c = '.' ∨ c = '=' ∨ c = ']') :
    keyPart? (cs ++ (blanks ++ rest)) = some (name, blanks ++ rest) := by
  apply keyPart?_append h
  cases blanks with
  | nil =>
      intro c hc
      rcases hrest c hc with rfl | rfl | rfl <;> decide
  | cons c blanks =>
      rintro _ ⟨⟩
      rcases eq_of_isSpace (hblanks c List.mem_cons_self) with rfl | rfl <;> decide

/-- Blanks between the parts of a key, and around it, are passed. -/
theorem dottedKey?_append {before behind : List Char} (h : DottedKey cs key) (hbefore : Blanks before)
    (hbehind : Blanks behind) (hrest : ClosesKey rest) :
    dottedKey? (before ++ (cs ++ (behind ++ rest))) = some (key, rest) := by
  induction h generalizing before with
  | @last cs name h =>
      have hstart : ∀ c ∈ (cs ++ (behind ++ rest)).head?, isSpace c = false :=
        fun c hc => ((h.startsKey.append _).head c hc).1
      have hclosed : ∀ c ∈ rest.head?, c = '.' ∨ c = '=' ∨ c = ']' := by
        obtain ⟨first, others, rfl, hfirst⟩ := hrest
        rintro c ⟨⟩
        exact Or.inr hfirst
      rw [dottedKey?, skipSpace_blanks hbefore hstart, keyPart?_blanks h hbehind hclosed]
      dsimp only
      rw [skipSpace_blanks hbehind hrest.head]
      split
      · obtain ⟨first, others, heq, hfirst⟩ := hrest
        rw [← (List.cons.inj heq).1] at hfirst
        exact absurd hfirst (by decide)
      · rfl
  | @dotted part before' behind' cs name key hpart hbefore' hbehind' h ih =>
      simp only [List.append_assoc, List.cons_append]
      have hstart : ∀ c ∈ (part ++ (before' ++ '.' :: (behind' ++ (cs ++ (behind ++ rest))))).head?,
          isSpace c = false :=
        fun c hc => ((hpart.startsKey.append _).head c hc).1
      have hdot : ∀ c ∈ ('.' :: (behind' ++ (cs ++ (behind ++ rest)))).head?,
          c = '.' ∨ c = '=' ∨ c = ']' := by
        rintro c ⟨⟩
        exact Or.inl rfl
      have hskip : skipSpace (before' ++ '.' :: (behind' ++ (cs ++ (behind ++ rest)))) =
          '.' :: (behind' ++ (cs ++ (behind ++ rest))) :=
        skipSpace_blanks hbefore' (by rintro c ⟨⟩; rfl)
      rw [dottedKey?, skipSpace_blanks hbefore hstart, keyPart?_blanks hpart hbefore' hdot]
      simp only [hskip, ih hbehind']
      rw [if_pos]
      simp only [List.length_append, List.length_cons]
      omega

theorem key?_append {before behind : List Char} (h : Key nestingLimit cs key) (hbefore : Blanks before)
    (hbehind : Blanks behind) (hrest : ClosesKey rest) :
    key? (before ++ (cs ++ (behind ++ rest))) = some (key, rest) := by
  rw [key?, dottedKey?_append h.1 hbefore hbehind hrest]
  exact if_pos h.2

end Keys

section Items

variable {α : Type} {Item : List Char → α → Prop} {item? : List Char → Option (α × List Char)}
variable {cs rest : List Char}

/-- The character is neither passed over between items, nor does it close their list. -/
def OpensItem (c : Char) : Prop :=
  isSpace c = false ∧ c ∉ ['\n', '\r', '#', ']', '\x7d']

def StartsItem (cs : List Char) : Prop :=
  ∃ first others, cs = first :: others ∧ OpensItem first

/-- Each item is read wherever its list goes on behind it. -/
structure Reads (Item : List Char → α → Prop) (item? : List Char → Option (α × List Char)) :
    Prop where
  starts : ∀ {cs item}, Item cs item → StartsItem cs
  reads : ∀ {cs item rest}, Item cs item → Follows rest → item? (cs ++ rest) = some (item, rest)

theorem StartsItem.append (h : StartsItem cs) (rest : List Char) : StartsItem (cs ++ rest) := by
  obtain ⟨first, others, rfl, hfirst⟩ := h
  exact ⟨first, others ++ rest, rfl, hfirst⟩

theorem skipGaps_item {gap : List Char} (hgap : Gap true gap) (h : StartsItem cs) :
    skipGaps false (gap ++ cs) = cs := by
  obtain ⟨first, others, rfl, hspace, hfirst⟩ := h
  simp only [List.mem_cons, List.not_mem_nil, or_false, not_or] at hfirst
  rw [skipGaps_append hgap]
  exact skipGaps_of_not_gap hspace ⟨hfirst.2.1, hfirst.1, hfirst.2.2.1⟩ _

/-- The gap in front of a comma or a closing bracket is passed. -/
theorem skipGaps_mark {gap : List Char} {mark : Char} (hgap : Gap true gap)
    (hmark : mark ∈ [',', ']', '\x7d']) (rest : List Char) :
    skipGaps false (gap ++ mark :: rest) = mark :: rest := by
  rw [skipGaps_append hgap]
  apply skipGaps_of_not_gap <;>
    (simp only [List.mem_cons, List.not_mem_nil, or_false] at hmark
     rcases hmark with rfl | rfl | rfl <;> decide)

/-- One step through a list: the item behind the gap, and the mark behind the next one. -/
theorem listed?_item {close mark : Char} {gap gap' : List Char} {item : α}
    (hclose : close ∈ [']', '\x7d']) (hmark : mark ∈ [',', ']', '\x7d'])
    (hitem : Reads Item item?) (hgap : Gap true gap) (h : Item cs item) (hgap' : Gap true gap') :
    listed? close item? (gap ++ (cs ++ (gap' ++ mark :: rest))) =
      if mark = close then some ([item], rest)
      else if mark = ',' then
        (listed? close item? rest).map fun read => (item :: read.1, read.2)
      else none := by
  have hfollows : Follows (gap' ++ mark :: rest) := by
    apply follows_of_gap hgap'
    rintro c ⟨⟩
    simp only [List.mem_cons, List.not_mem_nil, or_false] at hmark ⊢
    rcases hmark with rfl | rfl | rfl <;> decide
  have hread := hitem.reads h hfollows
  have hstart := hitem.starts h
  have hskip := skipGaps_item hgap (hstart.append (gap' ++ mark :: rest))
  obtain ⟨first, others, rfl, -, hfirst⟩ := hstart
  have hne : first ≠ close := by
    rintro rfl
    simp only [List.mem_cons, List.not_mem_nil, or_false] at hfirst hclose
    rcases hclose with rfl | rfl <;> exact hfirst (by decide)
  rw [List.cons_append] at hskip hread ⊢
  rw [listed?, hskip]
  dsimp only
  rw [if_neg hne, hread]
  dsimp only
  rw [skipGaps_mark hgap' hmark]
  dsimp only
  have hshorter : rest.length < (gap ++ first :: (others ++ (gap' ++ mark :: rest))).length := by
    simp only [List.length_append, List.length_cons]
    omega
  by_cases hclosed : mark = close
  · rw [if_pos hclosed, if_pos hclosed]
  · rw [if_neg hclosed, if_neg hclosed, if_pos hshorter]
    cases listed? close item? rest <;> rfl

theorem listed?_append {close : Char} (hclose : close ∈ [']', '\x7d']) (hitem : Reads Item item?)
    {items : List α} (h : Listed Item cs items) (rest : List Char) :
    listed? close item? (cs ++ close :: rest) = some (items, rest) := by
  have hmark : close ∈ [',', ']', '\x7d'] := List.mem_cons_of_mem _ hclose
  have hcomma : ',' ≠ close := by
    rintro rfl
    exact absurd hclose (by decide)
  induction h with
  | none hgap =>
      rw [listed?, skipGaps_mark hgap hmark]
      exact if_pos rfl
  | last hgap h hgap' =>
      simp only [List.append_assoc]
      rw [listed?_item hclose hmark hitem hgap h hgap', if_pos rfl]
  | more hgap h hgap' _ ih =>
      simp only [List.append_assoc, List.cons_append]
      rw [listed?_item hclose (by decide) hitem hgap h hgap', if_neg hcomma, if_pos rfl, ih]
      rfl

end Items

section Complete

variable {limit : Nat} {cs : List Char} {value : Toml}

theorem Listed.forall_items {α : Type} {Item : List Char → α → Prop} {P : α → Prop}
    {items : List α} (hitem : ∀ {cs item}, Item cs item → P item) (h : Listed Item cs items) :
    ∀ item ∈ items, P item := by
  induction h with
  | none _ => exact List.forall_mem_nil _
  | last _ h _ => exact List.forall_mem_singleton.mpr (hitem h)
  | more _ h _ _ ih => exact List.forall_mem_cons.mpr ⟨hitem h, ih⟩

theorem Pair.isComplete {IsValue : List Char → Toml → Prop} {entry : TomlKey × Toml}
    (hvalue : ∀ {cs value}, IsValue cs value → value.IsComplete) (h : Pair limit IsValue cs entry) :
    entry.2.IsComplete := by
  obtain ⟨-, -, -, h⟩ := h
  exact hvalue h

/-- What is written as a value is complete. -/
theorem isComplete_of_value {depth : Nat} (h : Value limit depth cs value) : value.IsComplete := by
  have hsingle : ∀ {cs value}, Single cs value → value.IsComplete := by
    rintro _ _ (_ | _ | _ | _ | _ | _) <;> rfl
  cases depth with
  | zero => exact hsingle h
  | succ depth =>
      rcases h with h | h
      · exact hsingle h
      · cases h <;> rfl

theorem Lines.isComplete {statements : List TomlStatement} (h : Lines limit cs statements) :
    ∀ key value, .entry key value ∈ statements → value.IsComplete := by
  have hline : ∀ {cs statements}, Line limit cs statements →
      ∀ key value, .entry key value ∈ statements → value.IsComplete := by
    rintro _ _ (_ | ⟨-, h, -⟩) key value hmem
    · cases hmem
    · rw [List.mem_singleton] at hmem
      subst hmem
      cases h with
      | entry h => exact h.isComplete isComplete_of_value
  induction h with
  | last h => exact hline h
  | more h _ _ ih =>
      intro key value hmem
      exact (List.mem_append.mp hmem).elim (hline h key value) (ih key value)

theorem Document.isComplete {statements : List TomlStatement} (h : Document limit cs statements) :
    ∀ key value, .entry key value ∈ statements → value.IsComplete := by
  cases h with
  | unmarked h => exact h.isComplete
  | marked h => exact h.isComplete

end Complete

section Values

variable {cs rest : List Char} {value : Toml} {depth : Nat}
variable {IsValue : List Char → Toml → Prop} {readValue? : List Char → Option (Toml × List Char)}

theorem StartsKey.startsItem (h : StartsKey cs) : StartsItem cs := by
  have hhead := h.head
  obtain ⟨first, others, rfl, -⟩ := h
  obtain ⟨hspace, hfeed, hcarriage, hcomment, -, hbracket, hbrace⟩ := hhead first rfl
  refine ⟨first, others, rfl, hspace, ?_⟩
  simp only [List.mem_cons, List.not_mem_nil, or_false, not_or]
  exact ⟨hfeed, hcarriage, hcomment, hbracket, hbrace⟩

/-- The blanks around the equals sign are passed, whether or not line ends could stand there. -/
theorem skip_item {skip : List Char → List Char} (hskip : skip = skipSpace ∨ skip = skipGaps false)
    {blanks : List Char} (hblanks : Blanks blanks) (h : StartsItem cs) : skip (blanks ++ cs) = cs := by
  rcases hskip with rfl | rfl
  · obtain ⟨first, others, rfl, hspace, -⟩ := h
    exact skipSpace_blanks hblanks (by rintro c ⟨⟩; exact hspace)
  · exact skipGaps_item (gap_of_blanks hblanks) h

theorem pair?_append {skip : List Char → List Char} {entry : TomlKey × Toml}
    (hskip : skip = skipSpace ∨ skip = skipGaps false) (hvalue : Reads IsValue readValue?)
    (h : Pair nestingLimit IsValue cs entry) (hrest : Follows rest) :
    pair? skip readValue? (cs ++ rest) = some (entry, rest) := by
  cases h with
  | @intro name before behind cs key value hkey hbefore hbehind h =>
      have hnone : Blanks [] := List.forall_mem_nil _
      have hread := key?_append hkey hnone hbefore
        (⟨'=', behind ++ (cs ++ rest), rfl, .inl rfl⟩ : ClosesKey ('=' :: (behind ++ (cs ++ rest))))
      have hequals : skip ('=' :: (behind ++ (cs ++ rest))) = '=' :: (behind ++ (cs ++ rest)) :=
        skip_item hskip hnone ⟨'=', _, rfl, rfl, by decide⟩
      have hspaces := skip_item hskip hbehind ((hvalue.starts h).append rest)
      simp only [List.append_assoc, List.cons_append]
      rw [List.nil_append] at hread
      simp only [pair?, hread, hequals, hspaces, hvalue.reads h hrest, Option.bind_eq_bind,
        Option.bind_some, Option.pure_def]

theorem reads_pair {skip : List Char → List Char}
    (hskip : skip = skipSpace ∨ skip = skipGaps false) (hvalue : Reads IsValue readValue?) :
    Reads (Pair nestingLimit IsValue) (pair? skip readValue?) where
  starts h := by
    obtain ⟨hkey, -, -, -⟩ := h
    exact (hkey.1.startsKey.append _).startsItem
  reads h hrest := pair?_append hskip hvalue h hrest

theorem Single.head (h : Single cs value) :
    StartsItem cs ∧ ∃ first others, cs = first :: others ∧ first ≠ '[' ∧ first ≠ '\x7b' := by
  obtain ⟨first, others, rfl, hfirst⟩ := h.exists_cons
  rcases hfirst with (rfl | rfl) | hfirst
  · exact ⟨⟨_, _, rfl, rfl, by decide⟩, _, _, rfl, by decide⟩
  · exact ⟨⟨_, _, rfl, rfl, by decide⟩, _, _, rfl, by decide⟩
  · have hne : ∀ c : Char, TomlScalar.isWordChar c = false → first ≠ c := by
      rintro c hc rfl
      rw [hc] at hfirst
      cases hfirst
    refine ⟨⟨first, others, rfl, ?_, ?_⟩, first, others, rfl, hne '[' rfl, hne '\x7b' rfl⟩
    · simp [isSpace, hne ' ' rfl, hne '\t' rfl]
    · simp [hne '\n' rfl, hne '\r' rfl, hne '#' rfl, hne ']' rfl, hne '\x7d' rfl]

theorem value?_single (h : Single cs value) (hrest : Follows rest) (depth : Nat) :
    value? depth (cs ++ rest) = some (value, rest) := by
  have hread := plainValue?_single h hrest
  obtain ⟨-, first, others, rfl, hfirst⟩ := h.head
  rw [List.cons_append] at hread ⊢
  rw [value?_eq_plainValue? hfirst, hread]

/-- Arrays and tables are read if the values in them are. -/
theorem value?_nested (hvalue : Reads (Value nestingLimit depth) (value? depth))
    (h : Nested nestingLimit (Value nestingLimit depth) cs value) (rest : List Char) :
    value? (depth + 1) (cs ++ rest) = some (value, rest) := by
  cases h with
  | array h =>
      rw [List.cons_append, List.append_assoc, List.singleton_append, value?,
        listed?_append (by decide) hvalue h]
      rfl
  | table h hconsistent =>
      have hentries := reads_pair (Or.inr rfl) hvalue
      have hcomplete := h.forall_items fun hentry => hentry.isComplete isComplete_of_value
      rw [List.cons_append, List.append_assoc, List.singleton_append, value?,
        listed?_append (by decide) hentries h, Option.bind_eq_bind, Option.bind_some]
      dsimp only
      rw [TomlTable.ofEntries?_of_consistent hcomplete hconsistent]
      rfl

theorem reads_value (depth : Nat) : Reads (Value nestingLimit depth) (value? depth) := by
  induction depth with
  | zero => exact ⟨fun h => h.head.1, fun h hrest => value?_single h hrest 0⟩
  | succ depth ih =>
      constructor
      · rintro cs value (h | h)
        · exact h.head.1
        · cases h <;> exact ⟨_, _, rfl, rfl, by decide⟩
      · rintro cs value rest (h | h) hrest
        · exact value?_single h hrest _
        · exact value?_nested ih h rest

end Values

section Statements

variable {cs rest ending : List Char} {statement : TomlStatement} {statements : List TomlStatement}

theorem head_ne_of_key {before : List Char} {key : TomlKey} (hkey : Key nestingLimit cs key)
    (hbefore : Blanks before) (rest others : List Char) : before ++ (cs ++ rest) ≠ '[' :: others := by
  intro heq
  cases before with
  | nil =>
      rw [List.nil_append] at heq
      obtain ⟨-, -, -, -, hbracket, -⟩ := (hkey.1.startsKey.append rest).head '[' (by rw [heq]; rfl)
      exact hbracket rfl
  | cons c before =>
      have hspace := hbefore c List.mem_cons_self
      rw [(List.cons.inj heq).1] at hspace
      exact absurd hspace (by decide)

theorem statement?_append (h : Statement nestingLimit cs statement) (hrest : Follows rest) :
    statement? (cs ++ rest) = some (statement, rest) := by
  cases h with
  | @header before cs behind key hbefore hkey hbehind =>
      have hread := key?_append hkey hbefore hbehind
        (⟨']', rest, rfl, .inr rfl⟩ : ClosesKey (']' :: rest))
      simp only [List.append_assoc, List.cons_append, List.nil_append]
      unfold statement?
      split
      · next heq => exact absurd (List.cons.inj heq).2 (head_ne_of_key hkey hbefore _ _)
      · next heq =>
          rw [← (List.cons.inj heq).2, hread]
          rfl
      · next hbracket => exact absurd rfl (hbracket _)
  | @repeatedHeader before cs behind key hbefore hkey hbehind =>
      have hread := key?_append hkey hbefore hbehind
        (⟨']', ']' :: rest, rfl, .inr rfl⟩ : ClosesKey (']' :: ']' :: rest))
      simp only [List.append_assoc, List.cons_append, List.nil_append]
      rw [statement?, hread]
      rfl
  | entry h =>
      have hread := pair?_append (Or.inl rfl) (reads_value nestingLimit) h hrest
      have hbracket : ∀ others, cs ++ rest ≠ '[' :: others := by
        obtain ⟨hkey, -, -, -⟩ := h
        intro others
        rw [List.append_assoc]
        exact head_ne_of_key hkey (List.forall_mem_nil _) _ _
      unfold statement?
      split
      · next heq => exact absurd heq (hbracket _)
      · next heq => exact absurd heq (hbracket _)
      · rw [hread]
        rfl

theorem Statement.startsItem (h : Statement nestingLimit cs statement) : StartsItem cs := by
  cases h with
  | header _ _ _ => exact ⟨_, _, rfl, rfl, by decide⟩
  | repeatedHeader _ _ _ => exact ⟨_, _, rfl, rfl, by decide⟩
  | entry h => exact (reads_pair (Or.inl rfl) (reads_value nestingLimit)).starts h

/-- Gaps in front of the lines make no difference, so that a line without a statement is one more. -/
theorem statements?_of_lines {gap : List Char} (h : Lines nestingLimit cs statements)
    (hgap : Gap true gap) : statements? (gap ++ cs) = some statements := by
  induction h generalizing gap with
  | last h =>
      cases h with
      | empty h => rw [statements?, skipGaps_append hgap, h.skipGaps_eq_nil]
      | @statement blanks cs rest statement hblanks h hrest =>
          have hfollows : Follows (rest ++ []) := follows_of_lineRest hrest (by rintro c ⟨⟩)
          rw [List.append_nil] at hfollows
          rw [← List.append_assoc, statements?_cons
            (skipGaps_item (hgap.append (gap_of_blanks hblanks)) (h.startsItem.append rest)) ?_
            (statement?_append h hfollows) (lineRest?_eq_nil hrest), statements?_nil]
          · rfl
          · obtain ⟨first, others, rfl, -⟩ := h.startsItem
            simp
  | @more cs ending rest statements others h hending _ ih =>
      cases h with
      | empty h =>
          -- The line and its end are one more gap in front of the next line.
          have hread := ih (hgap.append (h.gap hending))
          simpa only [List.append_assoc, List.nil_append] using hread
      | @statement blanks cs line statement hblanks h hline =>
          have hfollows : Follows (line ++ (ending ++ rest)) := by
            apply follows_of_lineRest hline
            cases hending <;> (rintro c ⟨⟩; decide)
          have hread := ih .nil
          rw [List.nil_append] at hread
          simp only [List.append_assoc]
          rw [← List.append_assoc, statements?_cons
            (skipGaps_item (hgap.append (gap_of_blanks hblanks)) (h.startsItem.append _)) ?_
            (statement?_append h hfollows) (lineRest?_append hline hending rest), hread]
          · rfl
          · obtain ⟨first, others, rfl, -⟩ := h.startsItem
            simp only [List.length_append, List.length_cons]
            omega

/-- No statement starts with a byte order mark. -/
theorem statements?_mark (cs : List Char) : statements? ('\ufeff' :: cs) = none := by
  have hgaps : skipGaps false ('\ufeff' :: cs) = '\ufeff' :: cs :=
    skipGaps_of_not_gap rfl (by decide) cs
  have hspace : skipSpace ('\ufeff' :: cs) = '\ufeff' :: cs := skipSpace_of_not_space rfl cs
  have hpart : keyPart? ('\ufeff' :: cs) = none := rfl
  have hstatement : statement? ('\ufeff' :: cs) = none := by
    have hkey : key? ('\ufeff' :: cs) = none := by
      rw [key?, dottedKey?, hspace, hpart]
      rfl
    simp [statement?, pair?, hkey]
  rw [statements?, hgaps]
  dsimp only
  rw [hstatement]

/-- The statements of a document are read, and no others. -/
theorem statements?_of_document (h : Document nestingLimit cs statements) :
    statements? (dropMark cs) = some statements := by
  cases h with
  | unmarked h =>
      have hlines := statements?_of_lines h .nil
      have hunmarked : dropMark cs = cs := by
        unfold dropMark
        split
        · rw [List.nil_append, statements?_mark] at hlines
          cases hlines
        · rfl
      rwa [hunmarked]
  | marked h => exact statements?_of_lines h .nil

theorem read?_of_document {text : String} (h : Document nestingLimit text.toList statements) :
    read? text = TomlDocument.ofStatements? statements := by
  rw [read?, statements?_of_document h]
  rfl

end Statements

end PlanLowering.TomlGrammar
