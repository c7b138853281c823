import PlanLowering.Json.Lexer
import PlanLowering.Proofs.Number.Spelling
import PlanLowering.Proofs.Text.Runs

/-!
A written value is taken apart into its own tokens. Each token is scanned up to its end and no
further; only a numeral could run on, and in a written value a comma or a bracket comes behind it.
-/

namespace PlanLowering.JsonLexer

/-- Nothing that would carry a numeral on. -/
def Stops (rest : List Char) : Prop :=
  ∀ c ∈ rest.head?, c.isDigit = false ∧ c ≠ '.' ∧ c ≠ 'e' ∧ c ≠ 'E'

section Strings

/-- The pieces of a string with one more in front. -/
def prepend (piece : Piece) (scanned : List Piece × Except JsonFault (List Char)) :
    List Piece × Except JsonFault (List Char) :=
  (piece :: scanned.1, scanned.2)

theorem scanPieces_shortEscape {letter c : Char} (h : shortEscape? letter = some c)
    (rest : List Char) :
    scanPieces ('\\' :: letter :: rest) = prepend (.char c) (scanPieces rest) := by
  have hunit : letter ≠ 'u' := by
    rintro rfl
    cases h
  rw [scanPieces, h]
  · rfl
  all_goals simp_all

/-- The four digits of a control character name its number. -/
theorem scanPieces_unitEscape {c : Char} (h : c.toNat < 32) (rest : List Char) :
    scanPieces (JsonToken.unitEscape c ++ rest) = prepend (.unit c.toNat) (scanPieces rest) := by
  have hdigits : ∀ n < 32, ∃ high low, List.replicate (4 - (Nat.toDigits 16 n).length) '0' ++
      Nat.toDigits 16 n = ['0', '0', high, low] ∧ hexUnit? '0' '0' high low = some n := by
    intro n hn
    interval_cases n <;> exact ⟨_, _, rfl, rfl⟩
  obtain ⟨high, low, hchars, hunit⟩ := hdigits c.toNat h
  have hescape : JsonToken.unitEscape c = '\\' :: 'u' :: ['0', '0', high, low] := by
    rw [JsonToken.unitEscape, ← hchars]
    rfl
  rw [hescape]
  simp only [List.cons_append, List.nil_append]
  rw [scanPieces, hunit]
  rfl

theorem scanPieces_plain {c : Char} (hquote : c ≠ '"') (hbackslash : c ≠ '\\')
    (h : 32 ≤ c.toNat) (rest : List Char) :
    scanPieces (c :: rest) = prepend (.char c) (scanPieces rest) := by
  rw [scanPieces.eq_def]
  split <;> simp_all [prepend]

/-- A written character is scanned as one piece that stands for it. -/
theorem scanPieces_escaped (c : Char) : ∃ piece,
    (∀ rest, scanPieces (JsonToken.escaped c ++ rest) = prepend piece (scanPieces rest)) ∧
    ∀ pieces, pairUp (piece :: pieces) = (pairUp pieces).cons c := by
  have hshort : ∀ letter c : Char, shortEscape? letter = some c → ∃ piece,
      (∀ rest, scanPieces (['\\', letter] ++ rest) = prepend piece (scanPieces rest)) ∧
      ∀ pieces, pairUp (piece :: pieces) = (pairUp pieces).cons c :=
    fun letter c h => ⟨.char c, scanPieces_shortEscape h, fun _ => rfl⟩
  rw [JsonToken.escaped]
  split
  · next h => exact hshort '"' c (by rw [h]; rfl)
  split
  · next h => exact hshort '\\' c (by rw [h]; rfl)
  split
  · next h => exact hshort 'b' c (h ▸ rfl)
  split
  · next h => exact hshort 't' c (h ▸ rfl)
  split
  · next h => exact hshort 'n' c (h ▸ rfl)
  split
  · next h => exact hshort 'f' c (h ▸ rfl)
  split
  · next h => exact hshort 'r' c (h ▸ rfl)
  split
  · next h =>
      refine ⟨.unit c.toNat, scanPieces_unitEscape h, fun pieces => ?_⟩
      have htrail : isTrail c.toNat = false := by
        simp only [isTrail, Bool.and_eq_false_imp, decide_eq_true_eq]
        omega
      have hlead : isLead c.toNat = false := by
        simp only [isLead, Bool.and_eq_false_imp, decide_eq_true_eq]
        omega
      rw [pairUp.eq_def]
      simp only [htrail, hlead, Char.ofNat_toNat, Bool.false_eq_true, if_false]
  · next hquote hbackslash _ _ _ _ _ hcontrol =>
      exact ⟨.char c, scanPieces_plain hquote hbackslash (Nat.le_of_not_lt hcontrol), fun _ => rfl⟩

theorem scanPieces_flatMap_escaped (cs rest : List Char) : ∃ pieces,
    scanPieces (cs.flatMap JsonToken.escaped ++ '"' :: rest) = (pieces, .ok rest) ∧
      pairUp pieces = .whole cs := by
  induction cs with
  | nil => exact ⟨[], by simp [scanPieces], rfl⟩
  | cons c cs ih =>
      obtain ⟨pieces, hscan, hpairs⟩ := ih
      obtain ⟨piece, hpiece, hpair⟩ := scanPieces_escaped c
      refine ⟨piece :: pieces, ?_, ?_⟩
      · rw [List.flatMap_cons, List.append_assoc, hpiece, hscan]
        rfl
      · rw [hpair, hpairs]
        rfl

/-- A written string is scanned up to its closing quote. -/
theorem scanString_stringChars (text : String) (rest : List Char) :
    scanString (text.toList.flatMap JsonToken.escaped ++ '"' :: rest) = (.string text, rest) := by
  obtain ⟨pieces, hscan, hpairs⟩ := scanPieces_flatMap_escaped text.toList rest
  rw [scanString, hscan]
  simp only [hpairs, String.ofList_toList]

end Strings

section Numerals

variable {n : Numeral} {rest : List Char}

/-- The power of ten of a numeral, as it is written. -/
def powerChars (exponent : Option Exponent) : List Char :=
  match exponent with
  | none => []
  | some e => 'e' :: e.sign.chars ++ e.digits

/-- The fraction of a numeral, as it is written. -/
def fractionChars (fraction : List Char) : List Char :=
  if fraction.isEmpty then [] else '.' :: fraction

/-- A digit starts neither a sign nor a fraction nor a power. -/
theorem ne_of_isDigit {c : Char} (h : c.isDigit = true) :
    c ≠ '+' ∧ c ≠ '-' ∧ c ≠ '.' ∧ c ≠ 'e' ∧ c ≠ 'E' := by
  refine ⟨?_, ?_, ?_, ?_, ?_⟩
  all_goals
    rintro rfl
    cases h

theorem scanExponent_chars (hproper : n.Proper) {e : Exponent} (he : n.exponent = some e)
    (hstops : Stops rest) :
    scanExponent n.negative n.whole n.fraction (e.sign.chars ++ (e.digits ++ rest)) =
      (.number n, rest) := by
  obtain ⟨hne, hdigits⟩ := hproper.power e he
  have hrest : ∀ c ∈ rest.head?, c.isDigit = false := fun c hc => (hstops c hc).1
  have htake := Text.takeWhile_run hdigits hrest
  have hdrop := Text.dropWhile_run hdigits hrest
  have hempty : e.digits.isEmpty = false := by simpa using hne
  have hnumeral : (⟨n.negative, n.whole, n.fraction, some ⟨e.sign, e.digits⟩⟩ : Numeral) = n := by
    rw [← he]
  unfold scanExponent
  split
  next sign cs h =>
    have hsigned : (sign, cs) = (e.sign, e.digits ++ rest) := by
      rw [← h]
      cases e.sign with
      | plus | minus => rfl
      | bare =>
          obtain ⟨first, others, hcons⟩ := List.exists_cons_of_ne_nil hne
          have hfirst := ne_of_isDigit (hdigits first (by rw [hcons]; exact List.mem_cons_self))
          rw [hcons]
          split <;> simp_all [ExponentSign.chars]
    obtain ⟨rfl, rfl⟩ := Prod.mk.inj hsigned
    simp only [htake, hdrop, hempty, hnumeral, Bool.false_eq_true, if_false]

theorem scanPower_chars (hproper : n.Proper) (hstops : Stops rest) :
    scanPower n.negative n.whole n.fraction (powerChars n.exponent ++ rest) =
      (.number n, rest) := by
  cases he : n.exponent with
  | some e =>
      rw [powerChars, List.cons_append, List.cons_append, List.append_assoc, scanPower]
      exact scanExponent_chars hproper he hstops
  | none =>
      have hnumeral : (⟨n.negative, n.whole, n.fraction, none⟩ : Numeral) = n := by rw [← he]
      rw [powerChars, List.nil_append]
      unfold scanPower
      split
      · exact absurd rfl (hstops 'e' rfl).2.2.1
      · exact absurd rfl (hstops 'E' rfl).2.2.2
      · rw [hnumeral]

/-- What is behind the fraction of a numeral is no digit. -/
theorem head?_powerChars (hstops : Stops rest) (exponent : Option Exponent) :
    ∀ c ∈ (powerChars exponent ++ rest).head?, c.isDigit = false ∧ c ≠ '.' := by
  cases exponent with
  | none => exact fun c hc => ⟨(hstops c hc).1, (hstops c hc).2.1⟩
  | some e =>
      rintro c hc
      obtain rfl := Option.some.inj hc
      decide

theorem scanFraction_chars (hproper : n.Proper) (hstops : Stops rest) :
    scanFraction n.negative n.whole
      (fractionChars n.fraction ++ (powerChars n.exponent ++ rest)) = (.number n, rest) := by
  have hpower := scanPower_chars hproper hstops
  have hbehind := head?_powerChars hstops n.exponent
  rw [fractionChars]
  cases hfraction : n.fraction with
  | nil =>
      rw [hfraction] at hpower
      rw [List.isEmpty_nil, if_pos rfl, List.nil_append]
      unfold scanFraction
      split
      · next heq =>
          rw [heq] at hbehind
          exact absurd rfl (hbehind '.' rfl).2
      · exact hpower
  | cons first others =>
      have htake := Text.takeWhile_run hproper.fraction fun c hc => (hbehind c hc).1
      have hdrop := Text.dropWhile_run hproper.fraction fun c hc => (hbehind c hc).1
      rw [if_neg (by simp), List.cons_append, scanFraction]
      rw [← hfraction, htake, hdrop, if_neg (by simp [hfraction])]
      exact hpower

/-- What is behind the whole digits of a numeral is no digit. -/
theorem head?_fractionChars (hstops : Stops rest) (n : Numeral) :
    ∀ c ∈ (fractionChars n.fraction ++ (powerChars n.exponent ++ rest)).head?,
      c.isDigit = false := by
  rw [fractionChars]
  split
  · exact fun c hc => (head?_powerChars hstops n.exponent c hc).1
  · rintro c hc
    obtain rfl := Option.some.inj hc
    rfl

theorem scanWhole_chars (hproper : n.Proper) (hstops : Stops rest) :
    scanWhole n.negative
      (n.whole ++ (fractionChars n.fraction ++ (powerChars n.exponent ++ rest))) =
      (.number n, rest) := by
  have hfraction := scanFraction_chars hproper hstops
  have hbehind := head?_fractionChars hstops n
  rcases hproper.leading with hzero | ⟨first, others, hcons, hfirst⟩
  · have hnone : ∀ c ∈ ([] : List Char), c.isDigit := nofun
    have htake := Text.takeWhile_run hnone hbehind
    rw [List.nil_append] at htake
    rw [hzero] at hfraction ⊢
    rw [List.singleton_append, scanWhole, htake]
    exact hfraction
  · have htake := Text.takeWhile_run hproper.whole hbehind
    have hdrop := Text.dropWhile_run hproper.whole hbehind
    unfold scanWhole
    split
    · next heq =>
        rw [hcons, List.cons_append] at heq
        exact absurd (List.head_eq_of_cons_eq heq) hfirst
    · rw [htake, hdrop, if_neg (by simp [hcons])]
      exact hfraction

theorem scan_of_isDigit {c : Char} (h : c.isDigit = true) (rest : List Char) :
    scan c rest = scanWhole false (c :: rest) := by
  unfold scan
  split <;> first | cases h | rw [if_pos h]

theorem isSpace_of_isDigit {c : Char} (h : c.isDigit = true) : isSpace c = false := by
  by_contra hspace
  simp only [isSpace, Bool.not_eq_false, Bool.or_eq_true, beq_iff_eq] at hspace
  rcases hspace with ((rfl | rfl) | rfl) | rfl <;> cases h

/-- A character that is no blank starts the next token. -/
theorem lex_eq_of_scan {c : Char} {cs rest : List Char} {token : JsonToken}
    (hspace : isSpace c = false) (hscan : scan c cs = (token, rest)) :
    lex (c :: cs) = token :: lex rest := by
  rw [lex, hspace, if_neg Bool.false_ne_true, hscan]

theorem lex_numeral (hproper : n.Proper) (hstops : Stops rest) :
    lex (n.chars ++ rest) = .number n :: lex rest := by
  have hwhole := scanWhole_chars hproper hstops
  have hchars : n.chars ++ rest = (if n.negative then ['-'] else []) ++
      (n.whole ++ (fractionChars n.fraction ++ (powerChars n.exponent ++ rest))) := by
    simp only [Numeral.chars, List.append_assoc]
    rfl
  rw [hchars]
  cases hnegative : n.negative with
  | true =>
      rw [hnegative] at hwhole
      exact lex_eq_of_scan rfl hwhole
  | false =>
      rw [hnegative] at hwhole
      obtain ⟨first, others, hcons⟩ : ∃ first others, n.whole = first :: others := by
        rcases hproper.leading with hzero | ⟨first, others, hcons, _⟩
        · exact ⟨'0', [], hzero⟩
        · exact ⟨first, others, hcons⟩
      have hfirst : first.isDigit = true :=
        hproper.whole first (by rw [hcons]; exact List.mem_cons_self)
      rw [hcons, List.cons_append] at hwhole ⊢
      apply lex_eq_of_scan (isSpace_of_isDigit hfirst)
      rw [scan_of_isDigit hfirst]
      exact hwhole

end Numerals

/-- The tokens come back from their text, whatever follows that does not carry a numeral on. -/
def Lexes (tokens : List JsonToken) : Prop :=
  ∀ rest, Stops rest → lex (tokens.flatMap JsonToken.chars ++ rest) = tokens ++ lex rest

/-- A token that may come behind a numeral. -/
def isMark : JsonToken → Bool
  | .comma | .closeArray | .closeObject => true
  | _ => false

theorem stops_of_isMark {token : JsonToken} (h : isMark token = true) (rest : List Char) :
    Stops (token.chars ++ rest) := by
  cases token with
  | comma | closeArray | closeObject =>
      rintro c hc
      obtain rfl := Option.some.inj hc
      decide
  | _ => cases h

theorem Lexes.append {first second : List JsonToken} (hfirst : Lexes first)
    (hsecond : Lexes second) (hmark : ∀ token ∈ second.head?, isMark token = true) :
    Lexes (first ++ second) := by
  intro rest hrest
  have hstops : Stops (second.flatMap JsonToken.chars ++ rest) := by
    cases second with
    | nil => exact hrest
    | cons token others =>
        rw [List.flatMap_cons, List.append_assoc]
        exact stops_of_isMark (hmark token rfl) _
  rw [List.flatMap_append, List.append_assoc, hfirst _ hstops, hsecond rest hrest,
    List.append_assoc]

/-- A token that ends by itself can stand before any others. -/
theorem Lexes.cons {token : JsonToken} {tokens : List JsonToken}
    (htoken : ∀ rest, lex (token.chars ++ rest) = token :: lex rest) (htokens : Lexes tokens) :
    Lexes (token :: tokens) := by
  intro rest hrest
  rw [List.flatMap_cons, List.append_assoc, htoken, htokens rest hrest, List.cons_append]

theorem lexes_nil : Lexes [] :=
  fun _ _ => rfl

theorem lexes_number {n : Numeral} (hproper : n.Proper) : Lexes [.number n] := by
  intro rest hrest
  rw [List.flatMap_singleton]
  exact lex_numeral hproper hrest

theorem lex_word (word : JsonWord) (rest : List Char) :
    lex ((JsonToken.word word).chars ++ rest) = .word word :: lex rest := by
  cases word <;> exact lex_eq_of_scan rfl (by simp [scan, scanWord])

theorem lex_string (text : String) (rest : List Char) :
    lex ((JsonToken.string text).chars ++ rest) = .string text :: lex rest := by
  have hchars : (JsonToken.string text).chars ++ rest =
      '"' :: (text.toList.flatMap JsonToken.escaped ++ '"' :: rest) := by
    simp [JsonToken.chars, JsonToken.stringChars]
  rw [hchars]
  exact lex_eq_of_scan rfl (scanString_stringChars text rest)

/-- Brackets, commas and colons. -/
def isPunctuation : JsonToken → Bool
  | .openArray | .closeArray | .openObject | .closeObject | .comma | .colon => true
  | _ => false

theorem lex_punctuation {token : JsonToken} (h : isPunctuation token = true) (rest : List Char) :
    lex (token.chars ++ rest) = token :: lex rest := by
  cases token with
  | openArray | closeArray | openObject | closeObject | comma | colon =>
      exact lex_eq_of_scan rfl rfl
  | _ => cases h

end PlanLowering.JsonLexer

namespace PlanLowering.Json

open JsonLexer

/-- The numerals of a value are proper ones. -/
def Proper (json : Json) : Prop :=
  ∀ numeral, .number numeral ∈ json.tokens → numeral.Proper

theorem number_mem_itemTokens {numeral : Numeral} {items : List Json} :
    .number numeral ∈ itemTokens items ↔ ∃ item ∈ items, .number numeral ∈ item.tokens := by
  induction items with
  | nil => simp [itemTokens]
  | cons item items ih => simp [itemTokens, ih]

theorem number_mem_fieldTokens {numeral : Numeral} {fields : List (String × Json)} :
    .number numeral ∈ fieldTokens fields ↔
      ∃ field ∈ fields, .number numeral ∈ field.2.tokens := by
  induction fields with
  | nil => simp [fieldTokens]
  | cons field fields ih => simp [fieldTokens, ih]

@[simp]
theorem proper_array {items : List Json} :
    (array items).Proper ↔ ∀ item ∈ items, item.Proper := by
  have hmem : ∀ numeral : Numeral, .number numeral ∈ (array items).tokens ↔
      ∃ item ∈ items, .number numeral ∈ item.tokens := by
    intro numeral
    cases items with
    | nil => simp [tokens]
    | cons item items => simp [tokens, number_mem_itemTokens]
  simp only [Proper, hmem]
  constructor
  · intro h item hitem numeral hnumeral
    exact h numeral ⟨item, hitem, hnumeral⟩
  · rintro h numeral ⟨item, hitem, hnumeral⟩
    exact h item hitem numeral hnumeral

@[simp]
theorem proper_object {fields : List (String × Json)} :
    (object fields).Proper ↔ ∀ field ∈ fields, field.2.Proper := by
  have hmem : ∀ numeral : Numeral, .number numeral ∈ (object fields).tokens ↔
      ∃ field ∈ fields, .number numeral ∈ field.2.tokens := by
    intro numeral
    cases fields with
    | nil => simp [tokens]
    | cons field fields => simp [tokens, number_mem_fieldTokens]
  simp only [Proper, hmem]
  constructor
  · intro h field hfield numeral hnumeral
    exact h numeral ⟨field, hfield, hnumeral⟩
  · rintro h numeral ⟨field, hfield, hnumeral⟩
    exact h field hfield numeral hnumeral

@[simp]
theorem proper_number {numeral : Numeral} : (number numeral).Proper ↔ numeral.Proper := by
  simp [Proper, tokens]

@[simp] theorem proper_null : null.Proper := by simp [Proper, tokens]

@[simp] theorem proper_bool (value : Bool) : (bool value).Proper := by simp [Proper, tokens]

@[simp] theorem proper_string (text : String) : (string text).Proper := by simp [Proper, tokens]

theorem isMark_itemTokens (items : List Json) :
    ∀ token ∈ (itemTokens items ++ [JsonToken.closeArray]).head?, isMark token = true := by
  cases items <;> simp [itemTokens, isMark]

theorem isMark_fieldTokens (fields : List (String × Json)) :
    ∀ token ∈ (fieldTokens fields ++ [JsonToken.closeObject]).head?, isMark token = true := by
  cases fields <;> simp [fieldTokens, isMark]

mutual

/-- A written value is taken apart into its own tokens. -/
theorem lexes_tokens : ∀ {json : Json}, json.Proper → Lexes json.tokens
  | .null, _ => lexes_nil.cons (lex_word .null)
  | .bool _, _ => lexes_nil.cons (lex_word _)
  | .number _, hproper => lexes_number (proper_number.mp hproper)
  | .string text, _ => lexes_nil.cons (lex_string text)
  | .array [], _ => (lexes_nil.cons (lex_punctuation rfl)).cons (lex_punctuation rfl)
  | .array (item :: items), hproper => by
      obtain ⟨hitem, hitems⟩ := List.forall_mem_cons.mp (proper_array.mp hproper)
      simp only [tokens, List.cons_append, List.append_assoc]
      exact ((lexes_tokens hitem).append (lexes_itemTokens hitems)
        (isMark_itemTokens items)).cons (lex_punctuation rfl)
  | .object [], _ => (lexes_nil.cons (lex_punctuation rfl)).cons (lex_punctuation rfl)
  | .object ((key, value) :: fields), hproper => by
      obtain ⟨hvalue, hfields⟩ := List.forall_mem_cons.mp (proper_object.mp hproper)
      simp only [tokens, List.cons_append, List.append_assoc]
      exact ((((lexes_tokens hvalue).append (lexes_fieldTokens hfields)
        (isMark_fieldTokens fields)).cons (lex_punctuation rfl)).cons
          (lex_string key)).cons (lex_punctuation rfl)

theorem lexes_itemTokens : ∀ {items : List Json}, (∀ item ∈ items, item.Proper) →
    Lexes (itemTokens items ++ [.closeArray])
  | [], _ => lexes_nil.cons (lex_punctuation rfl)
  | item :: items, hproper => by
      obtain ⟨hitem, hitems⟩ := List.forall_mem_cons.mp hproper
      simp only [itemTokens, List.cons_append, List.append_assoc]
      exact ((lexes_tokens hitem).append (lexes_itemTokens hitems)
        (isMark_itemTokens items)).cons (lex_punctuation rfl)

theorem lexes_fieldTokens : ∀ {fields : List (String × Json)},
    (∀ field ∈ fields, field.2.Proper) → Lexes (fieldTokens fields ++ [.closeObject])
  | [], _ => lexes_nil.cons (lex_punctuation rfl)
  | (key, value) :: fields, hproper => by
      obtain ⟨hvalue, hfields⟩ := List.forall_mem_cons.mp hproper
      simp only [fieldTokens, List.cons_append, List.append_assoc]
      exact ((((lexes_tokens hvalue).append (lexes_fieldTokens hfields)
        (isMark_fieldTokens fields)).cons (lex_punctuation rfl)).cons
          (lex_string key)).cons (lex_punctuation rfl)

end

/-- The tokens of the text of a value are its own. -/
theorem lex_text {json : Json} (hproper : json.Proper) : lex json.text.toList = json.tokens := by
  have hlex := lexes_tokens hproper [] nofun
  rw [List.append_nil, lex, List.append_nil] at hlex
  rw [text, String.toList_ofList, hlex]

end PlanLowering.Json
