import Mathlib.Tactic.IntervalCases
import Mathlib.Tactic.Common
import PlanLowering.Proofs.Text.Runs
import PlanLowering.Toml.Quoted

/-!
Strings of a TOML document are read back as they are written, in each of the four styles. What stands
between the quotes spells the text piece by piece, and never holds so many quotes in a row that they
could close the string; a style that takes every character as it is was chosen only for a text that
lets it.
-/

namespace PlanLowering.TomlQuotes

open TomlBlank

/-- How many quotes in a row still belong to the text. -/
def quotesInside (style : TomlQuotes) : Nat :=
  if style.lines then 2 else 0

/-- What is written in a style for a text, where so many quotes stand right before it. -/
inductive Spells (style : TomlQuotes) : Nat → List Char → List Char → Prop where
  | done {run : Nat} : Spells style run [] []
  | quote {run : Nat} {spelled text : List Char} (hroom : run < style.quotesInside)
      (h : Spells style (run + 1) spelled text) :
      Spells style run (style.quote :: spelled) (style.quote :: text)
  | piece {run : Nat} {first : Char} {others chars spelled text : List Char}
      (hfirst : first ≠ style.quote)
      (hpiece : ∀ rest, style.piece? (first :: (others ++ rest)) = some (chars, rest))
      (h : Spells style 0 spelled text) :
      Spells style run (first :: (others ++ spelled)) (chars ++ text)

section Reading

variable {style : TomlQuotes} {run : Nat} {spelled text rest : List Char}

theorem quote_cases (style : TomlQuotes) : style.quote = '"' ∨ style.quote = '\'' := by
  rw [quote]
  split
  · exact Or.inl rfl
  · exact Or.inr rfl

theorem ne_quote {c : Char} (hc : c ≠ '"' ∧ c ≠ '\'') : c ≠ style.quote := by
  rcases quote_cases style with hquote | hquote <;> rw [hquote]
  · exact hc.1
  · exact hc.2

theorem piece?_quote (rest : List Char) :
    style.piece? (style.quote :: rest) = some ([style.quote], rest) := by
  obtain ⟨escapes, lines⟩ := style
  cases escapes <;> rfl

/-- Too few quotes ahead close nothing. -/
theorem closing?_eq_none {cs : List Char}
    (h : (cs.takeWhile (· = style.quote)).length ≤ style.quotesInside) :
    style.closing? cs = none := by
  rw [quotesInside] at h
  rw [closing?]
  cases hlines : style.lines with
  | true =>
      rw [hlines, if_pos rfl] at h
      simp only [if_true]
      rw [if_pos (by omega)]
  | false =>
      rw [hlines, if_neg Bool.false_ne_true] at h
      simp only [Bool.false_eq_true, if_false]
      rw [if_pos (by omega)]

/-- Quotes right before the closing ones belong to the text, as long as they are few. -/
theorem closing?_replicate {count : Nat} (hcount : count ≤ style.quotesInside)
    (hrest : ∀ c ∈ rest.head?, c ≠ style.quote) :
    style.closing? (List.replicate count style.quote ++ (style.delimiter ++ rest)) =
      some (List.replicate count style.quote, rest) := by
  rw [quotesInside] at hcount
  rw [closing?, delimiter, ← List.append_assoc, List.replicate_append_replicate,
    Text.takeWhile_run (by simp) (by simpa using hrest), List.length_replicate]
  cases hlines : style.lines with
  | true =>
      rw [hlines, if_pos rfl] at hcount
      have hkept : min (count + 3 - 3) 2 = count := by omega
      simp only [if_true]
      rw [if_neg (by omega), hkept, Nat.add_comm 3 count,
        List.drop_left' (List.length_replicate ..)]
  | false =>
      rw [hlines, if_neg Bool.false_ne_true] at hcount
      obtain rfl : count = 0 := Nat.le_zero.mp hcount
      simp

theorem body?_of_closing {cs : List Char} {ending : List Char × List Char}
    (h : style.closing? cs = some ending) : style.body? cs = some ending := by
  rw [body?, h]

theorem body?_of_piece {cs chars more : List Char} (hclosing : style.closing? cs = none)
    (hpiece : style.piece? cs = some (chars, more)) (hshorter : more.length < cs.length)
    (hbody : style.body? more = some (text, rest)) : style.body? cs = some (chars ++ text, rest) := by
  rw [body?, hclosing, hpiece]
  dsimp only
  rw [if_pos hshorter, hbody]

/-- Either only quotes are left, or they end before they could close the string. -/
theorem Spells.quotes (h : Spells style run spelled text) (hrun : run ≤ style.quotesInside) :
    (∃ count, run + count ≤ style.quotesInside ∧ spelled = List.replicate count style.quote ∧
      text = List.replicate count style.quote) ∨
    ∀ more, run + ((spelled ++ more).takeWhile (· = style.quote)).length ≤ style.quotesInside := by
  induction h with
  | done => exact Or.inl ⟨0, hrun, rfl, rfl⟩
  | quote hroom _ ih =>
      rcases ih hroom with ⟨count, hcount, rfl, rfl⟩ | hends
      · exact Or.inl ⟨count + 1, by omega, rfl, rfl⟩
      · refine Or.inr fun more => ?_
        have hmore := hends more
        rw [List.cons_append, List.takeWhile_cons, if_pos (by simp), List.length_cons]
        omega
  | piece hfirst _ _ _ =>
      refine Or.inr fun more => ?_
      rw [List.cons_append, List.takeWhile_cons, if_neg (by simpa using hfirst)]
      exact hrun

/-- What spells a text is read as that text, up to the closing quotes. -/
theorem body?_of_spells (h : Spells style run spelled text) (hrun : run ≤ style.quotesInside)
    (hrest : ∀ c ∈ rest.head?, c ≠ style.quote) :
    style.body? (spelled ++ (style.delimiter ++ rest)) = some (text, rest) := by
  induction h with
  | done => exact body?_of_closing (closing?_replicate (Nat.zero_le _) hrest)
  | @quote run spelled text hroom h ih =>
      rcases (Spells.quote hroom h).quotes hrun with ⟨count, hcount, hspelled, htext⟩ | hends
      · rw [hspelled, htext]
        exact body?_of_closing (closing?_replicate (by omega) hrest)
      · have hclosing := Nat.le_trans (Nat.le_add_left _ _) (hends (style.delimiter ++ rest))
        exact body?_of_piece (closing?_eq_none hclosing) (piece?_quote _) (Nat.lt_succ_self _)
          (ih hroom)
  | @piece run first others chars spelled text hfirst hpiece h ih =>
      rw [List.cons_append, List.append_assoc]
      refine body?_of_piece (closing?_eq_none ?_) (hpiece _) ?_ (ih (Nat.zero_le _))
      · rw [List.takeWhile_cons, if_neg (by simpa using hfirst)]
        exact Nat.zero_le _
      · simp only [List.length_cons, List.length_append]
        omega

end Reading

section Escapes

/-- A backslash before anything but a blank or a line end starts an escape, also where lines can be
joined. -/
theorem piece?_backslash {lines : Bool} {letter : Char} (hspace : isSpace letter = false)
    (hnewline : letter ≠ '\n') (hreturn : letter ≠ '\r') (rest : List Char) :
    piece? ⟨true, lines⟩ ('\\' :: letter :: rest) = escape? (letter :: rest) := by
  have hjoined : joinedLine? (letter :: rest) = none := by
    rw [joinedLine?, skipSpace, List.dropWhile_cons, hspace, if_neg Bool.false_ne_true]
    unfold lineEnd?
    split <;> simp_all
  cases lines <;> simp [piece?, hjoined]

theorem piece?_plain {style : TomlQuotes} {c : Char} (hc : isPlain c = true)
    (hescape : style.escapes = true → c ≠ '\\') (rest : List Char) :
    style.piece? (c :: rest) = some ([c], rest) := by
  rw [piece?, if_neg fun h => hescape h.1 h.2, if_pos hc]

theorem piece?_newline {style : TomlQuotes} (hlines : style.lines = true) (rest : List Char) :
    style.piece? ('\n' :: rest) = some (['\n'], rest) := by
  rw [piece?, if_neg (by simp), if_neg (by decide), if_pos hlines, lineEnd?]

/-- The four digits of a character without a shorter escape name its number. -/
theorem escape?_numberedEscape {c : Char} (hc : isPlain c = false) :
    ∃ others, numberedEscape c = '\\' :: 'u' :: others ∧
      ∀ rest, escape? ('u' :: (others ++ rest)) = some ([c], rest) := by
  have hcode : c.toNat < 128 := by
    simp only [isPlain, Bool.decide_or, Bool.decide_and, Bool.or_eq_false_iff,
      Bool.and_eq_false_iff, decide_eq_false_iff_not, Classical.not_not] at hc
    omega
  have hdigits : ∀ n < 128, ∃ a b c d, List.replicate
      (4 - ((Nat.toDigits 16 n).map Char.toUpper).length) '0' ++
        (Nat.toDigits 16 n).map Char.toUpper = [a, b, c, d] ∧
      ∀ rest, hexNumber? 4 0 (a :: b :: c :: d :: rest) = some (n, rest) := by
    intro n hn
    interval_cases n <;> exact ⟨_, _, _, _, rfl, fun _ => rfl⟩
  obtain ⟨a, b, c', d, hchars, hnumber⟩ := hdigits c.toNat hcode
  refine ⟨[a, b, c', d], by rw [numberedEscape, ← hchars]; rfl, fun rest => ?_⟩
  have hvalid : c.toNat.isValidChar := c.valid
  simp [escape?, numbered?, hnumber, hvalid]

/-- A character as it is written between double quotes is read as one piece. -/
theorem piece?_escaped (lines : Bool) {c : Char} (hc : c ≠ '"') :
    ∃ first others, escaped lines c = first :: others ∧ first ≠ '"' ∧
      ∀ rest, piece? ⟨true, lines⟩ (first :: (others ++ rest)) = some ([c], rest) := by
  have hshort : ∀ letter c : Char, isSpace letter = false → letter ≠ '\n' → letter ≠ '\r' →
      (∀ rest, escape? (letter :: rest) = some ([c], rest)) →
      ∃ first others, ['\\', letter] = first :: others ∧ first ≠ '"' ∧
        ∀ rest, piece? ⟨true, lines⟩ (first :: (others ++ rest)) = some ([c], rest) := by
    intro letter c hspace hnewline hreturn hescape
    refine ⟨'\\', [letter], rfl, by decide, fun rest => ?_⟩
    rw [List.singleton_append, piece?_backslash hspace hnewline hreturn, hescape]
  rw [escaped]
  split
  · next h => exact hshort '\\' c rfl (by decide) (by decide) fun _ => by rw [h]; rfl
  split
  · next h => exact hshort 'b' c rfl (by decide) (by decide) fun _ => h ▸ rfl
  split
  · next h => exact hshort 't' c rfl (by decide) (by decide) fun _ => h ▸ rfl
  split
  · next h =>
      subst h
      cases lines with
      | true => exact ⟨'\n', [], rfl, by decide, piece?_newline rfl⟩
      | false => exact hshort 'n' '\n' rfl (by decide) (by decide) fun _ => rfl
  split
  · next h => exact hshort 'f' c rfl (by decide) (by decide) fun _ => h ▸ rfl
  split
  · next h => exact hshort 'r' c rfl (by decide) (by decide) fun _ => h ▸ rfl
  split
  · next hbackslash _ _ _ _ _ hplain =>
      exact ⟨c, [], rfl, hc, piece?_plain hplain fun _ => hbackslash⟩
  · next hcontrol =>
      obtain ⟨others, hchars, hescape⟩ := escape?_numberedEscape (Bool.not_eq_true _ ▸ hcontrol)
      refine ⟨'\\', 'u' :: others, hchars, by decide, fun rest => ?_⟩
      rw [List.cons_append, piece?_backslash rfl (by decide) (by decide), hescape]

/-- A text between double quotes spells itself, whatever characters it has. -/
theorem spells_escapedAll (lines : Bool) (run : Nat) (text : List Char) :
    Spells ⟨true, lines⟩ run (escapedAll lines run text) text := by
  induction text generalizing run with
  | nil => exact .done
  | cons c text ih =>
      by_cases hquote : c = '"'
      · subst hquote
        rw [escapedAll, if_pos rfl]
        by_cases hroom : run < if lines then 2 else 0
        · rw [if_pos hroom]
          exact .quote hroom (ih (run + 1))
        · have hpiece : ∀ rest, piece? ⟨true, lines⟩ ('\\' :: (['"'] ++ rest)) =
              some (['"'], rest) :=
            piece?_backslash rfl (by decide) (by decide)
          rw [if_neg hroom]
          exact .piece (by simp [quote]) hpiece (ih 0)
      · obtain ⟨first, others, hchars, hfirst, hpiece⟩ := piece?_escaped lines hquote
        rw [escapedAll, if_neg hquote, hchars]
        exact .piece hfirst hpiece (ih 0)

end Escapes

section Verbatim

/-- One character of the search for the longest run of quotes: the run that ends here, and the longest
so far. -/
def runStep (quote : Char) (state : Nat × Nat) (c : Char) : Nat × Nat :=
  if c = quote then (state.1 + 1, max state.2 (state.1 + 1)) else (0, state.2)

theorem longestRun_eq (quote : Char) (cs : List Char) :
    longestRun quote cs = (cs.foldl (runStep quote) (0, 0)).2 :=
  rfl

/-- The longest run never gets shorter. -/
theorem le_foldl_runStep (quote : Char) (cs : List Char) (state : Nat × Nat) :
    state.2 ≤ (cs.foldl (runStep quote) state).2 := by
  induction cs generalizing state with
  | nil => exact Nat.le_refl _
  | cons c cs ih =>
      refine Nat.le_trans ?_ (ih (runStep quote state c))
      rw [runStep]
      split
      · exact Nat.le_max_left _ _
      · exact Nat.le_refl _

/-- A text spells itself where every character stands for itself, if it has few quotes in a row. -/
theorem spells_self {style : TomlQuotes} (hescapes : style.escapes = false) {text : List Char}
    (hchars : ∀ c ∈ text, isPlain c = true ∨ style.lines = true ∧ c = '\n') {run longest : Nat}
    (hruns : (text.foldl (runStep style.quote) (run, longest)).2 ≤ style.quotesInside) :
    Spells style run text text := by
  induction text generalizing run longest with
  | nil => exact .done
  | cons c text ih =>
      obtain ⟨hc, htext⟩ := List.forall_mem_cons.mp hchars
      rw [List.foldl_cons] at hruns
      by_cases hquote : c = style.quote
      · rw [runStep, if_pos hquote] at hruns
        have hlongest : max longest (run + 1) ≤ style.quotesInside :=
          Nat.le_trans (le_foldl_runStep style.quote text (run + 1, max longest (run + 1))) hruns
        have hroom : run + 1 ≤ style.quotesInside := (Nat.max_le.mp hlongest).2
        rw [hquote]
        exact .quote hroom (ih htext hruns)
      · rw [runStep, if_neg hquote] at hruns
        have hpiece : ∀ rest, style.piece? (c :: ([] ++ rest)) = some ([c], rest) := by
          rcases hc with hplain | ⟨hlines, rfl⟩
          · exact piece?_plain hplain fun htrue => by rw [hescapes] at htrue; cases htrue
          · exact piece?_newline hlines
        exact .piece hquote hpiece (ih htext hruns)

/-- A style without escapes is chosen only for a text that it can hold. -/
theorem choose_cases (text : List Char) : (choose text).escapes = true ∨
    text.any needsEscape = false ∧
      (choose text = ⟨false, false⟩ ∧ longestRun '\'' text = 0 ∧ '\n' ∉ text ∨
        choose text = ⟨false, true⟩ ∧ longestRun '\'' text ≤ 2) := by
  rw [choose]
  split_ifs with _ hsingle _ hlines
  · exact Or.inl rfl
  · simp only [Bool.and_eq_true, Bool.not_eq_true', decide_eq_true_eq] at hsingle
    refine Or.inr ⟨hsingle.1.1, Or.inl ⟨rfl, hsingle.1.2, ?_⟩⟩
    simpa using hsingle.2
  · exact Or.inl rfl
  · simp only [Bool.and_eq_true, Bool.not_eq_true', decide_eq_true_eq] at hlines
    exact Or.inr ⟨hlines.1, Or.inr ⟨rfl, hlines.2⟩⟩
  · exact Or.inl rfl

/-- What is written between the quotes spells the text. -/
theorem spells_choose (text : List Char) :
    Spells (choose text) 0 (if (choose text).escapes then escapedAll (choose text).lines 0 text
      else text) text := by
  rcases choose_cases text with hescapes | ⟨hcontrol, hverbatim⟩
  · have hstyle : choose text = ⟨true, (choose text).lines⟩ := by rw [← hescapes]
    rw [if_pos hescapes]
    rw [hstyle]
    exact spells_escapedAll _ 0 text
  · have hchars : ∀ c ∈ text, isPlain c = true ∨ c = '\n' := by
      intro c hc
      have hescape := List.any_eq_false.mp hcontrol c hc
      simp only [needsEscape] at hescape
      grind
    rw [longestRun_eq] at hverbatim
    rcases hverbatim with ⟨hstyle, hruns, hnewline⟩ | ⟨hstyle, hruns⟩
    · rw [hstyle]
      refine spells_self rfl (fun c hc => Or.inl ?_) (Nat.le_of_eq hruns)
      exact (hchars c hc).resolve_right fun heq => hnewline (heq ▸ hc)
    · rw [hstyle]
      exact spells_self rfl (fun c hc => (hchars c hc).imp_right fun heq => ⟨rfl, heq⟩) hruns

end Verbatim

section Strings

variable {style : TomlQuotes} {spelled text rest : List Char}

/-- A line end is read as itself. -/
theorem newline_mem_of_piece? {cs chars more : List Char}
    (hpiece : style.piece? cs = some (chars, more)) (hline : lineEnd? cs ≠ none) : '\n' ∈ chars := by
  unfold lineEnd? at hline
  split at hline
  · rw [piece?, if_neg (by simp), if_neg (by decide), lineEnd?] at hpiece
    split at hpiece <;> cases hpiece
    exact List.mem_singleton_self _
  · rw [piece?, if_neg (by simp), if_neg (by decide), lineEnd?] at hpiece
    split at hpiece <;> cases hpiece
    exact List.mem_of_mem_tail (List.mem_singleton_self _)
  · exact absurd rfl hline

/-- A text without line ends is not spelled with one at its start. -/
theorem dropLineEnd_of_spells {run : Nat} (h : Spells style run spelled text)
    (hnewline : '\n' ∉ text) :
    dropLineEnd (spelled ++ (style.delimiter ++ rest)) = spelled ++ (style.delimiter ++ rest) := by
  have hquote : ∀ cs, lineEnd? (style.quote :: cs) = none := by
    intro cs
    obtain ⟨escapes, lines⟩ := style
    cases escapes <;> rfl
  have hnone : lineEnd? (spelled ++ (style.delimiter ++ rest)) = none := by
    cases h with
    | done => cases hlines : style.lines <;> simp [delimiter, hlines, hquote, List.replicate]
    | quote _ _ => exact hquote _
    | piece _ hpiece _ =>
        by_contra hline
        rw [List.cons_append, List.append_assoc] at hline
        exact hnewline (List.mem_append_left _ (newline_mem_of_piece? (hpiece _) hline))
  rw [dropLineEnd, hnone]

/-- Behind three quotes a string of several lines is read from its first line that counts. -/
theorem string?_delimiter (hlines : style.lines = true) (cs : List Char) :
    string? (style.delimiter ++ cs) = line?.finish style (dropLineEnd cs) := by
  obtain ⟨escapes, lines⟩ := style
  subst hlines
  cases escapes <;> rfl

/-- A string on one line is not taken for one of several lines if two more quotes do not follow the
first. -/
theorem string?_eq_line? {cs : List Char}
    (hcs : ∀ others, cs ≠ style.quote :: style.quote :: others) :
    string? (style.quote :: cs) = line? (style.quote :: cs) := by
  unfold string?
  split
  · next others heq =>
      obtain ⟨hquote, hothers⟩ := List.cons.inj heq
      rw [hquote] at hcs
      exact absurd hothers (hcs others)
  · next others heq =>
      obtain ⟨hquote, hothers⟩ := List.cons.inj heq
      rw [hquote] at hcs
      exact absurd hothers (hcs others)
  · rfl

theorem line?_quote (hlines : style.lines = false) (cs : List Char) :
    line? (style.quote :: cs) = line?.finish style cs := by
  obtain ⟨escapes, lines⟩ := style
  subst hlines
  cases escapes <;> rfl

theorem delimiter_eq_singleton (hlines : style.lines = false) : style.delimiter = [style.quote] := by
  rw [delimiter, hlines]
  rfl

/-- A string of several lines may have a line end of its own behind the opening quotes. -/
theorem string?_lines (hlines : style.lines = true) (h : Spells style 0 spelled text)
    (hrest : ∀ c ∈ rest.head?, c ≠ style.quote) :
    string? (style.delimiter ++ ((if text.contains '\n' then ['\n'] else []) ++
      (spelled ++ (style.delimiter ++ rest)))) = some (String.ofList text, rest) := by
  have hdropped : dropLineEnd ((if text.contains '\n' then ['\n'] else []) ++
      (spelled ++ (style.delimiter ++ rest))) = spelled ++ (style.delimiter ++ rest) := by
    by_cases hnewline : '\n' ∈ text
    · rw [if_pos (by simpa using hnewline)]
      rfl
    · rw [if_neg (by simpa using hnewline)]
      exact dropLineEnd_of_spells h hnewline
  rw [string?_delimiter hlines, hdropped, line?.finish, body?_of_spells h (Nat.zero_le _) hrest]
  rfl

/-- A string on one line is not taken for one of several lines, as it does not begin with a quote. -/
theorem string?_line (hlines : style.lines = false) (h : Spells style 0 spelled text)
    (hrest : ∀ c ∈ rest.head?, c ≠ style.quote) :
    string? (style.delimiter ++ (spelled ++ (style.delimiter ++ rest))) =
      some (String.ofList text, rest) := by
  have hstart : ∀ others, spelled ++ (style.delimiter ++ rest) ≠
      style.quote :: style.quote :: others := by
    intro others heq
    cases h with
    | done =>
        rw [delimiter_eq_singleton hlines] at heq
        have hbehind : rest = style.quote :: others := (List.cons.inj heq).2
        exact hrest style.quote (by rw [hbehind]; rfl) rfl
    | quote hroom _ =>
        rw [quotesInside, hlines] at hroom
        exact absurd hroom (Nat.not_lt_zero 0)
    | piece hfirst _ _ => exact hfirst (List.cons.inj heq).1
  have hbody := body?_of_spells h (Nat.zero_le _) hrest
  rw [delimiter_eq_singleton hlines] at hbody hstart ⊢
  rw [List.singleton_append, string?_eq_line? hstart, line?_quote hlines, line?.finish, hbody]
  rfl

end Strings

theorem written_eq_cons (text : String) : ∃ first others, written text = first :: others ∧
    (first = '"' ∨ first = '\'') := by
  rw [written, write, delimiter]
  split <;> exact ⟨_, _, rfl, quote_cases _⟩

/-- A written text is read back, as long as no quote comes right behind it. -/
theorem string?_written (text : String) {rest : List Char}
    (hrest : ∀ c ∈ rest.head?, c ≠ '"' ∧ c ≠ '\'') :
    string? (written text ++ rest) = some (text, rest) := by
  have hquote : ∀ c ∈ rest.head?, c ≠ (choose text.toList).quote :=
    fun c hc => ne_quote (hrest c hc)
  have hspells := spells_choose text.toList
  rw [written, write, List.append_assoc, List.append_assoc, List.append_assoc]
  cases hlines : (choose text.toList).lines with
  | true =>
      have hread := string?_lines hlines hspells hquote
      rw [hlines, String.ofList_toList] at hread
      rw [Bool.true_and]
      exact hread
  | false =>
      have hread := string?_line hlines hspells hquote
      rw [hlines, String.ofList_toList] at hread
      rw [Bool.false_and]
      exact hread

end PlanLowering.TomlQuotes
