import PlanLowering.Proofs.Toml.Gaps

/-!
Strings of a TOML document are read whatever way they are spelled: with quotes of the text right before
the closing ones, with escapes, and with lines that are joined.
-/

namespace PlanLowering.TomlGrammar

open TomlBlank TomlQuotes

section Escapes

variable {letters : List Char} {c : Char}

theorem hexNumber?_append {digits : List Char}
    (hdigits : ∀ c ∈ digits, (Numeral.hexDigit? c).isSome = true) (value : Nat) (rest : List Char) :
    hexNumber? digits.length value (digits ++ rest) =
      some (digits.foldl (fun value c => 16 * value + (Numeral.hexDigit? c).getD 0) value, rest) := by
  induction digits generalizing value with
  | nil => rfl
  | cons c digits ih =>
      obtain ⟨hc, hothers⟩ := List.forall_mem_cons.mp hdigits
      obtain ⟨digit, hdigit⟩ := Option.isSome_iff_exists.mp hc
      rw [List.length_cons, List.cons_append, hexNumber?, hdigit, Option.bind_eq_bind,
        Option.bind_some, ih hothers, List.foldl_cons, hdigit, Option.getD_some]

theorem numbered?_append {digits : List Char}
    (hdigits : ∀ c ∈ digits, (Numeral.hexDigit? c).isSome = true)
    (hvalid : (worth 16 digits).isValidChar) (rest : List Char) :
    numbered? digits.length (digits ++ rest) = some ([Char.ofNat (worth 16 digits)], rest) := by
  rw [numbered?, hexNumber?_append hdigits]
  exact if_pos hvalid

theorem escape?_append (h : Escape letters c) (rest : List Char) :
    escape? (letters ++ rest) = some ([c], rest) := by
  cases h with
  | @number letter digits hletter hdigits hvalid =>
      have hnumber := numbered?_append hdigits hvalid rest
      simp only [List.mem_cons, Prod.mk.injEq, List.not_mem_nil, or_false] at hletter
      rcases hletter with ⟨rfl, hcount⟩ | ⟨rfl, hcount⟩ | ⟨rfl, hcount⟩
      all_goals
        rw [hcount] at hnumber
        exact hnumber
  | _ => rfl

/-- An escape starts with a letter or a sign, so that its line is not joined with the next. -/
theorem Escape.exists_cons (h : Escape letters c) : ∃ letter others, letters = letter :: others ∧
    isSpace letter = false ∧ letter ≠ '\n' ∧ letter ≠ '\r' := by
  cases h with
  | number hletter =>
      simp only [List.mem_cons, Prod.mk.injEq, List.not_mem_nil, or_false] at hletter
      rcases hletter with ⟨rfl, -⟩ | ⟨rfl, -⟩ | ⟨rfl, -⟩ <;>
        exact ⟨_, _, rfl, rfl, by decide, by decide⟩
  | _ => exact ⟨_, _, rfl, rfl, by decide, by decide⟩

theorem piece?_escape {style : TomlQuotes} (hescapes : style.escapes = true)
    (h : Escape letters c) (rest : List Char) :
    style.piece? ('\\' :: (letters ++ rest)) = some ([c], rest) := by
  obtain ⟨escapes, lines⟩ := style
  subst hescapes
  obtain ⟨letter, others, rfl, hspace, hfeed, hcarriage⟩ := h.exists_cons
  rw [List.cons_append, piece?_backslash hspace hfeed hcarriage]
  exact escape?_append h rest

end Escapes

section Bodies

variable {style : TomlQuotes} {run : Nat} {spelled text ending rest : List Char}

theorem piece?_lineEnd (hlines : style.lines = true) (hending : LineEnd ending)
    (rest : List Char) : style.piece? (ending ++ rest) = some (ending, rest) := by
  cases hending with
  | feed => exact piece?_newline hlines rest
  | carriage =>
      rw [List.cons_append, piece?, if_neg (by simp), if_neg (by decide), if_pos hlines]
      rfl

theorem piece?_joined {blanks gap : List Char} (hescapes : style.escapes = true)
    (hlines : style.lines = true) (hblanks : Blanks blanks) (hending : LineEnd ending)
    (hgap : Gap false gap) (hahead : Visible rest) :
    style.piece? ('\\' :: (blanks ++ (ending ++ (gap ++ rest)))) = some ([], rest) := by
  have hskip : skipSpace (blanks ++ (ending ++ (gap ++ rest))) = ending ++ (gap ++ rest) := by
    apply skipSpace_blanks hblanks
    cases hending <;> (rintro c ⟨⟩; rfl)
  rw [piece?, if_pos ⟨hescapes, rfl⟩, if_pos hlines, joinedLine?, hskip, lineEnd?_append hending]
  dsimp only
  rw [skipLines_append hgap hahead]

theorem LineEnd.ne_quote (h : LineEnd ending) : ∀ c ∈ ending.head?, c ≠ style.quote := by
  rcases quote_cases style with hquote | hquote <;> rw [hquote] <;>
    cases h <;> (rintro c ⟨⟩; decide)

theorem backslash_ne_quote : '\\' ≠ style.quote := by
  rcases quote_cases style with hquote | hquote <;> rw [hquote] <;> decide

/-- No quotes are ahead of any other character. -/
theorem takeWhile_quote_eq_nil {cs : List Char} (hcs : ∀ c ∈ cs.head?, c ≠ style.quote) :
    cs.takeWhile (· = style.quote) = [] := by
  cases cs with
  | nil => rfl
  | cons c others => rw [List.takeWhile_cons, if_neg (by simpa using hcs c rfl)]

theorem Visible.append {cs : List Char} (hcs : Visible cs) (hrest : Visible rest) :
    Visible (cs ++ rest) := by
  cases cs with
  | nil => exact hrest
  | cons c others => exact hcs

theorem delimiter_eq_cons (style : TomlQuotes) :
    ∃ others, style.delimiter = style.quote :: others := by
  rw [delimiter]
  split <;> exact ⟨_, rfl⟩

theorem visible_delimiter (rest : List Char) : Visible (style.delimiter ++ rest) := by
  obtain ⟨others, hdelimiter⟩ := delimiter_eq_cons style
  rw [hdelimiter]
  rintro c ⟨⟩
  rcases quote_cases style with hquote | hquote <;> rw [hquote] <;> decide

/-- Either only quotes are left, or they end before they could close the string. -/
theorem Body.quotes (h : Body style run spelled text) (hrun : run ≤ style.quotesInside) :
    (∃ count, run + count ≤ style.quotesInside ∧ spelled = List.replicate count style.quote ∧
      text = List.replicate count style.quote) ∨
    ∀ more, run + ((spelled ++ more).takeWhile (· = style.quote)).length ≤ style.quotesInside := by
  have hended : ∀ {cs : List Char} (run : Nat), run ≤ style.quotesInside →
      (∀ c ∈ cs.head?, c ≠ style.quote) →
        run + (cs.takeWhile (· = style.quote)).length ≤ style.quotesInside := by
    intro cs run hrun hcs
    rw [takeWhile_quote_eq_nil hcs]
    exact hrun
  induction h with
  | done => exact Or.inl ⟨0, hrun, rfl, rfl⟩
  | quote hroom _ ih =>
      rcases ih hroom with ⟨count, hcount, rfl, rfl⟩ | hends
      · exact Or.inl ⟨count + 1, by omega, rfl, rfl⟩
      · refine Or.inr fun more => ?_
        have hmore := hends more
        rw [List.cons_append, List.takeWhile_cons, if_pos (by simp), List.length_cons]
        omega
  | plain _ hquote _ _ _ =>
      refine Or.inr fun more => hended _ hrun ?_
      rintro c ⟨⟩
      exact hquote
  | lineEnd _ hending _ _ =>
      refine Or.inr fun more => hended _ hrun ?_
      obtain ⟨first, others, rfl, -⟩ := hending.exists_cons
      exact hending.ne_quote
  | escape _ _ _ _ =>
      refine Or.inr fun more => hended _ hrun ?_
      rintro c ⟨⟩
      exact backslash_ne_quote
  | joined _ _ _ _ _ _ _ _ =>
      refine Or.inr fun more => hended _ hrun ?_
      rintro c ⟨⟩
      exact backslash_ne_quote

/-- A piece that starts with no quote is read before the rest of its string. -/
theorem body?_of_start {cs chars more : List Char} (hcs : ∀ c ∈ cs.head?, c ≠ style.quote)
    (hpiece : style.piece? cs = some (chars, more)) (hshorter : more.length < cs.length)
    (hbody : style.body? more = some (text, rest)) : style.body? cs = some (chars ++ text, rest) := by
  refine body?_of_piece (closing?_eq_none ?_) hpiece hshorter hbody
  rw [takeWhile_quote_eq_nil hcs]
  exact Nat.zero_le _

/-- What spells a text is read as that text, up to the closing quotes. -/
theorem body?_of_body (h : Body style run spelled text) (hrun : run ≤ style.quotesInside)
    (hrest : ∀ c ∈ rest.head?, c ≠ style.quote) :
    style.body? (spelled ++ (style.delimiter ++ rest)) = some (text, rest) := by
  induction h with
  | done => exact body?_of_closing (closing?_replicate (Nat.zero_le _) hrest)
  | @quote run spelled text hroom h ih =>
      -- The last quotes of the text are read together with the closing ones.
      rcases (Body.quote hroom h).quotes hrun with ⟨count, hcount, hspelled, htext⟩ | hends
      · rw [hspelled, htext]
        exact body?_of_closing (closing?_replicate (by omega) hrest)
      · have hclosing := Nat.le_trans (Nat.le_add_left _ _) (hends (style.delimiter ++ rest))
        exact body?_of_piece (closing?_eq_none hclosing) (piece?_quote _) (Nat.lt_succ_self _)
          (ih hroom)
  | plain hplain hquote hbackslash _ ih =>
      refine body?_of_start ?_ (piece?_plain hplain hbackslash _) (Nat.lt_succ_self _)
        (ih (Nat.zero_le _))
      rintro c ⟨⟩
      exact hquote
  | @lineEnd run ending spelled text hlines hending _ ih =>
      obtain ⟨first, others, rfl, -⟩ := hending.exists_cons
      rw [List.append_assoc]
      refine body?_of_start hending.ne_quote (piece?_lineEnd hlines hending _) ?_
        (ih (Nat.zero_le _))
      simp only [List.length_append, List.length_cons]
      omega
  | @escape run c letters spelled text hescapes hescape _ ih =>
      rw [List.cons_append, List.append_assoc]
      refine body?_of_start ?_ (piece?_escape hescapes hescape _) ?_ (ih (Nat.zero_le _))
      · rintro c ⟨⟩
        exact backslash_ne_quote
      · simp only [List.length_append, List.length_cons]
        omega
  | @joined run blanks ending gap spelled text hescapes hlines hblanks hending hgap hahead _ ih =>
      have hvisible : Visible (spelled ++ (style.delimiter ++ rest)) :=
        hahead.append (visible_delimiter rest)
      simp only [List.cons_append, List.append_assoc]
      refine body?_of_start ?_ (piece?_joined hescapes hlines hblanks hending hgap hvisible) ?_
        (ih (Nat.zero_le _))
      · rintro c ⟨⟩
        exact backslash_ne_quote
      · simp only [List.length_append, List.length_cons]
        omega

end Bodies

section Strings

variable {style : TomlQuotes} {cs spelled text rest : List Char} {s : String}

theorem line?_append (h : LineString cs s) (hrest : ∀ c ∈ rest.head?, c ≠ '"' ∧ c ≠ '\'') :
    line? (cs ++ rest) = some (s, rest) := by
  cases h with
  | @intro style spelled text hlines h =>
      have hbody := body?_of_body h (Nat.zero_le _) fun c hc => ne_quote (hrest c hc)
      rw [delimiter_eq_singleton hlines] at hbody
      rw [List.cons_append, List.append_assoc, line?_quote hlines, line?.finish, hbody]
      rfl

/-- Between single quotes there is no quote right at the start. -/
theorem Body.head_ne_quote (h : Body style 0 spelled text) (hlines : style.lines = false) :
    ∀ c ∈ spelled.head?, c ≠ style.quote := by
  have hinside : style.quotesInside = 0 := by
    rw [quotesInside, hlines]
    rfl
  rcases h.quotes (Nat.zero_le _) with ⟨count, hcount, rfl, -⟩ | hends
  · obtain rfl : count = 0 := by omega
    rintro c ⟨⟩
  · have hnone := hends []
    rw [hinside, List.append_nil] at hnone
    cases spelled with
    | nil => rintro c ⟨⟩
    | cons c others =>
        rintro _ ⟨⟩ rfl
        rw [List.takeWhile_cons, if_pos (by simp), List.length_cons] at hnone
        omega

/-- A string on one line is not taken for one of several lines: what is behind its first quote does not
start with two more. -/
theorem string?_lineString (h : LineString cs s)
    (hrest : ∀ c ∈ rest.head?, c ≠ '"' ∧ c ≠ '\'') : string? (cs ++ rest) = some (s, rest) := by
  rw [← line?_append h hrest]
  cases h with
  | @intro style spelled text hlines h =>
      rw [List.cons_append, List.append_assoc]
      apply string?_eq_line?
      intro others heq
      cases spelled with
      | nil =>
          have hbehind : rest = style.quote :: others := (List.cons.inj heq).2
          exact ne_quote (hrest style.quote (by rw [hbehind]; rfl)) rfl
      | cons c spelled => exact h.head_ne_quote hlines c rfl (List.cons.inj heq).1

theorem dropLineEnd_eq_self {cs : List Char} (hcs : ∀ c ∈ cs.head?, c ≠ '\n' ∧ c ≠ '\r') :
    dropLineEnd cs = cs := by
  have hnone : lineEnd? cs = none := by
    unfold lineEnd?
    split
    · exact absurd rfl (hcs '\n' rfl).1
    · exact absurd rfl (hcs '\r' rfl).2
    · rfl
  rw [dropLineEnd, hnone]

theorem string?_append (h : AnyString cs s) (hrest : ∀ c ∈ rest.head?, c ≠ '"' ∧ c ≠ '\'') :
    string? (cs ++ rest) = some (s, rest) := by
  cases h with
  | line h => exact string?_lineString h hrest
  | @lines style spelled text hlines hstart h =>
      have hdropped : dropLineEnd (spelled ++ (style.delimiter ++ rest)) =
          spelled ++ (style.delimiter ++ rest) := by
        apply dropLineEnd_eq_self
        cases spelled with
        | nil => exact fun c hc => (visible_delimiter rest c hc).2
        | cons c spelled => exact hstart
      rw [List.append_assoc, List.append_assoc, string?_delimiter hlines, hdropped, line?.finish,
        body?_of_body h (Nat.zero_le _) fun c hc => ne_quote (hrest c hc)]
      rfl
  | @nextLine style ending spelled text hlines hending h =>
      simp only [List.append_assoc]
      rw [string?_delimiter hlines, dropLineEnd, lineEnd?_append hending, line?.finish,
        body?_of_body h (Nat.zero_le _) fun c hc => ne_quote (hrest c hc)]
      rfl

theorem LineString.exists_cons (h : LineString cs s) :
    ∃ first others, cs = first :: others ∧ (first = '"' ∨ first = '\'') := by
  obtain ⟨hlines, h⟩ := h
  exact ⟨_, _, rfl, quote_cases _⟩

theorem AnyString.exists_cons (h : AnyString cs s) :
    ∃ first others, cs = first :: others ∧ (first = '"' ∨ first = '\'') := by
  cases h with
  | line h => exact h.exists_cons
  | @lines style _ _ _ _ _ =>
      obtain ⟨others, hdelimiter⟩ := delimiter_eq_cons style
      exact ⟨_, _, by rw [hdelimiter]; rfl, quote_cases style⟩
  | @nextLine style _ _ _ _ _ _ =>
      obtain ⟨others, hdelimiter⟩ := delimiter_eq_cons style
      exact ⟨_, _, by rw [hdelimiter]; rfl, quote_cases style⟩

end Strings

end PlanLowering.TomlGrammar
