import PlanLowering.Proofs.Toml.Numbers
import PlanLowering.Proofs.Toml.Strings

/-!
A value of a TOML document that holds no other is read wherever a list or a line goes on behind it. A
word without quotes is taken for what it is: dates and times are the only ones with a hyphen or a colon
behind their first digits.
-/

namespace PlanLowering.TomlGrammar

open TomlScalar

section Times

variable {count value : Nat} {cs rest : List Char}

theorem fixed?_append (h : Fixed count cs value) (rest : List Char) :
    fixed? count (cs ++ rest) = some (value, rest) := by
  obtain ⟨rfl, hdigits, rfl⟩ := h
  rw [fixed?, List.take_left, List.drop_left, if_pos ⟨rfl, List.all_eq_true.mpr hdigits⟩]

theorem day?_append (h : Day cs) (rest : List Char) : day? (cs ++ rest) = some rest := by
  obtain ⟨hyear, hmonth, hday, hm, hd⟩ := h
  simp only [List.append_assoc, List.cons_append, day?, fixed?_append hyear, after?, if_true,
    fixed?_append hmonth, fixed?_append hday, Option.bind_eq_bind, Option.bind_some]
  exact if_pos ⟨hm.1, hm.2, hd.1, hd.2⟩

theorem minutes?_append (h : Minutes cs) (rest : List Char) : minutes? (cs ++ rest) = some rest := by
  obtain ⟨hhour, hminute, hh, hm⟩ := h
  simp only [List.append_assoc, List.cons_append, minutes?, fixed?_append hhour, after?, if_true,
    fixed?_append hminute, Option.bind_eq_bind, Option.bind_some]
  exact if_pos ⟨hh, hm⟩

/-- A time goes on as long as there is a colon, a point or a digit. -/
theorem time?_append (h : Time cs)
    (hrest : ∀ c ∈ rest.head?, c ≠ ':' ∧ c ≠ '.' ∧ c.isDigit = false) :
    time? (cs ++ rest) = some rest := by
  cases h with
  | minutes h =>
      rw [time?, minutes?_append h, Option.bind_eq_bind, Option.bind_some]
      split
      · exact absurd rfl (hrest ':' rfl).1
      · rfl
  | seconds h hsecond hs =>
      simp only [List.append_assoc, List.cons_append, time?, minutes?_append h,
        fixed?_append hsecond, Option.bind_eq_bind, Option.bind_some, if_pos hs]
      split
      · exact absurd rfl (hrest '.' rfl).2.1
      · rfl
  | @fraction _ second digits s h hsecond hs hne hdigits =>
      have hclosed : ∀ c ∈ rest.head?, c.isDigit = false := fun c hc => (hrest c hc).2.2
      simp only [List.append_assoc, List.cons_append, time?, minutes?_append h,
        fixed?_append hsecond, Option.bind_eq_bind, Option.bind_some, if_pos hs,
        Text.takeWhile_run hdigits hclosed, Text.dropWhile_run hdigits hclosed]
      exact if_neg (by simpa using hne)

theorem isOffset_of_offset (h : Offset cs) : isOffset cs = true := by
  cases h with
  | none => rfl
  | zero hc => rcases hc with rfl | rfl <;> rfl
  | minutes hc h =>
      have hminutes := minutes?_append h []
      rw [List.append_nil] at hminutes
      rcases hc with rfl | rfl <;> simp [isOffset, hminutes]

theorem Offset.head (h : Offset cs) :
    ∀ c ∈ cs.head?, c ≠ ':' ∧ c ≠ '.' ∧ c.isDigit = false := by
  cases h with
  | none => rintro c ⟨⟩
  | zero hc =>
      rintro c ⟨⟩
      rcases hc with rfl | rfl <;> decide
  | minutes hc _ =>
      rintro c ⟨⟩
      rcases hc with rfl | rfl <;> decide

theorem eq_of_fixed? (h : fixed? count cs = some (value, rest)) : ∃ digits, cs = digits ++ rest ∧
    digits.length = count ∧ ∀ c ∈ digits, c.isDigit = true := by
  simp only [fixed?] at h
  split at h
  · next hdigits =>
      obtain ⟨hlength, hall⟩ := hdigits
      cases h
      exact ⟨cs.take count, (List.take_append_drop count cs).symm, hlength, List.all_eq_true.mp hall⟩
  · cases h

theorem eq_of_after? {c : Char} (h : after? c cs = some rest) : cs = c :: rest := by
  cases cs with
  | nil => cases h
  | cons first others =>
      rw [after?] at h
      split at h
      · next heq =>
          cases h
          rw [heq]
      · cases h

/-- What is read as a day has a hyphen behind its first digits. -/
theorem exists_of_day? (h : day? cs = some rest) : ∃ first year behind,
    cs = first :: (year ++ '-' :: behind) ∧ ∀ c ∈ first :: year, c.isDigit = true := by
  obtain ⟨⟨_, cs'⟩, hyear, h⟩ := Option.bind_eq_some_iff.mp h
  obtain ⟨behind, hhyphen, -⟩ := Option.bind_eq_some_iff.mp h
  obtain ⟨digits, rfl, hlength, hdigits⟩ := eq_of_fixed? hyear
  obtain rfl := eq_of_after? hhyphen
  cases digits with
  | nil => cases hlength
  | cons first year => exact ⟨first, year, behind, rfl, hdigits⟩

theorem colon_mem_of_time? (h : time? cs = some rest) : ':' ∈ cs := by
  obtain ⟨_, hminutes, -⟩ := Option.bind_eq_some_iff.mp h
  obtain ⟨⟨_, cs'⟩, hhour, hminutes⟩ := Option.bind_eq_some_iff.mp hminutes
  obtain ⟨behind, hcolon, -⟩ := Option.bind_eq_some_iff.mp hminutes
  obtain ⟨digits, rfl, -⟩ := eq_of_fixed? hhour
  obtain rfl := eq_of_after? hcolon
  simp

/-- There is no day where something else stands behind the first digits. -/
theorem day?_eq_none_of_digits {digits behind : List Char} (hdigits : ∀ c ∈ digits, c.isDigit = true)
    (hbehind : ∀ c ∈ behind.head?, c ≠ '-' ∧ c.isDigit = false) : day? (digits ++ behind) = none := by
  rw [Option.eq_none_iff_forall_ne_some]
  intro rest hday
  obtain ⟨first, year, others, heq, hyear⟩ := exists_of_day? hday
  have hsplit : behind = '-' :: others := by
    rw [← Text.dropWhile_run hdigits fun c hc => (hbehind c hc).2, heq]
    exact Text.dropWhile_run hyear (by rintro c ⟨⟩; rfl)
  exact (hbehind '-' (by rw [hsplit]; rfl)).1 rfl

/-- A time has a colon where a day would go on. -/
theorem day?_time (h : Time cs) : day? cs = none := by
  have hminutes : ∀ {cs : List Char}, Minutes cs → ∀ rest, day? (cs ++ rest) = none := by
    rintro _ ⟨hhour, -, -, -⟩ rest
    rw [List.append_assoc]
    apply day?_eq_none_of_digits hhour.digits
    rintro c ⟨⟩
    decide
  cases h with
  | minutes h =>
      have hnone := hminutes h []
      rwa [List.append_nil] at hnone
  | seconds h _ _ => exact hminutes h _
  | fraction h _ _ _ _ => exact hminutes h _

theorem isDateTime_of_dateTime (h : DateTime cs) : isDateTime cs = true := by
  cases h with
  | day h =>
      have hday := day?_append h []
      rw [List.append_nil] at hday
      rw [isDateTime, hday]
  | time h =>
      have htime : time? (cs ++ []) = some [] := time?_append h (by rintro c ⟨⟩)
      rw [List.append_nil] at htime
      rw [isDateTime, day?_time h]
      simpa using htime
  | both hday hseparator htime hoffset =>
      rw [isDateTime, day?_append hday]
      rcases hseparator with rfl | rfl | rfl <;>
        simp [time?_append htime hoffset.head, isOffset_of_offset hoffset]

end Times

section Starts

variable {count value : Nat} {cs : List Char}

theorem Fixed.startsWithDigit (h : Fixed (count + 1) cs value) : StartsWithDigit cs := by
  obtain ⟨hlength, hdigits, -⟩ := h
  obtain ⟨first, others, rfl⟩ := List.exists_cons_of_length_eq_add_one hlength
  exact ⟨first, others, rfl, hdigits first List.mem_cons_self⟩

theorem Day.startsWithDigit (h : Day cs) : StartsWithDigit cs := by
  obtain ⟨hyear, -, -, -, -⟩ := h
  exact hyear.startsWithDigit.append _

theorem Minutes.startsWithDigit (h : Minutes cs) : StartsWithDigit cs := by
  obtain ⟨hhour, -, -, -⟩ := h
  exact hhour.startsWithDigit.append _

theorem Time.startsWithDigit (h : Time cs) : StartsWithDigit cs := by
  cases h with
  | minutes h => exact h.startsWithDigit
  | seconds h _ _ => exact h.startsWithDigit.append _
  | fraction h _ _ _ _ => exact h.startsWithDigit.append _

theorem DateTime.startsWithDigit (h : DateTime cs) : StartsWithDigit cs := by
  cases h with
  | day h => exact h.startsWithDigit
  | time h => exact h.startsWithDigit
  | both h _ _ _ => exact h.startsWithDigit.append _

end Starts

section WordChars

variable {count value : Nat} {cs : List Char}

theorem Fixed.wordChars (h : Fixed count cs value) : ∀ c ∈ cs, isWordChar c = true :=
  fun c hc => isWordChar_of_isDigit (h.digits c hc)

theorem Day.wordChars (h : Day cs) : ∀ c ∈ cs, isWordChar c = true := by
  obtain ⟨hyear, hmonth, hday, -, -⟩ := h
  simp only [List.forall_mem_append, List.forall_mem_cons]
  exact ⟨hyear.wordChars, rfl, hmonth.wordChars, rfl, hday.wordChars⟩

theorem Minutes.wordChars (h : Minutes cs) : ∀ c ∈ cs, isWordChar c = true := by
  obtain ⟨hhour, hminute, -, -⟩ := h
  simp only [List.forall_mem_append, List.forall_mem_cons]
  exact ⟨hhour.wordChars, rfl, hminute.wordChars⟩

theorem Time.wordChars (h : Time cs) : ∀ c ∈ cs, isWordChar c = true := by
  cases h with
  | minutes h => exact h.wordChars
  | seconds h hsecond _ =>
      simp only [List.forall_mem_append, List.forall_mem_cons]
      exact ⟨h.wordChars, rfl, hsecond.wordChars⟩
  | fraction h hsecond _ _ hdigits =>
      simp only [List.forall_mem_append, List.forall_mem_cons]
      exact ⟨h.wordChars, rfl, hsecond.wordChars, rfl, fun c hc => isWordChar_of_isDigit (hdigits c hc)⟩

theorem Offset.wordChars (h : Offset cs) : ∀ c ∈ cs, isWordChar c = true := by
  cases h with
  | none => exact List.forall_mem_nil _
  | zero hc => rcases hc with rfl | rfl <;> exact List.forall_mem_singleton.mpr rfl
  | minutes hc h => rcases hc with rfl | rfl <;> exact List.forall_mem_cons.mpr ⟨rfl, h.wordChars⟩

theorem isWordChar_of_isNumberChar {c : Char} (h : isNumberChar c = true) : isWordChar c = true := by
  simp only [isNumberChar, Bool.or_eq_true, decide_eq_true_eq, List.mem_cons, List.not_mem_nil,
    or_false] at h
  rcases h with hdigit | rfl | rfl | rfl | rfl | rfl | rfl
  · exact isWordChar_of_isDigit hdigit
  all_goals rfl

/-- The digits of every base are letters and digits. -/
theorem isWordChar_of_hexDigit? {c : Char} (h : (Numeral.hexDigit? c).isSome = true) :
    isWordChar c = true := by
  have hcases : ('0' ≤ c ∧ c ≤ '9') ∨ ('a' ≤ c ∧ c ≤ 'f') ∨ ('A' ≤ c ∧ c ≤ 'F') := by
    by_contra hnone
    rw [not_or, not_or] at hnone
    rw [Numeral.hexDigit?, if_neg hnone.1, if_neg hnone.2.1, if_neg hnone.2.2] at h
    cases h
  have halphanum : c.isAlphanum = true := by
    change (decide ('A'.val ≤ c.val ∧ c.val ≤ 'Z'.val) ||
      (decide ('a'.val ≤ c.val) && decide (c.val ≤ 'z'.val)) ||
      (decide ('0'.val ≤ c.val) && decide (c.val ≤ '9'.val))) = true
    simp only [Bool.or_eq_true, Bool.and_eq_true, decide_eq_true_eq, UInt32.le_iff_toNat_le]
    simp only [Char.le_def, UInt32.le_iff_toNat_le] at hcases
    simp only [Char.reduceVal, UInt32.reduceToNat] at hcases ⊢
    omega
  simp [isWordChar, halphanum]

end WordChars

section Words

variable {cs sign spelled digits rest : List Char} {negative : Bool}

/-- A word that starts with a digit, possibly behind a sign, is a date, a time or a number. -/
theorem ofWord?_of_startsWithDigit (hsign : Sign sign negative) (hcs : StartsWithDigit cs) :
    ofWord? (sign ++ cs) =
      if isDateTime (sign ++ cs) then some (.dateTime (String.ofList (sign ++ cs)))
      else ((integer? (sign ++ cs)).map .integer).or ((float? (sign ++ cs)).map .float) := by
  have hname : ∀ c others, c.isDigit = false → c ≠ '+' → c ≠ '-' → sign ++ cs ≠ c :: others := by
    intro c others hc hplus hminus heq
    cases hsign with
    | none => exact hcs.ne_cons hc others heq
    | plus => exact hplus (List.cons.inj heq).1.symm
    | minus => exact hminus (List.cons.inj heq).1.symm
  have hspecial : isSpecialFloat (sign ++ cs) = false := by
    rw [isSpecialFloat, unsigned_append hsign hcs]
    simp [hcs.ne_cons]
  rw [ofWord?, if_neg (hname 't' _ rfl (by decide) (by decide)),
    if_neg (hname 'f' _ rfl (by decide) (by decide)), hspecial, if_neg Bool.false_ne_true]
  cases integer? (sign ++ cs) <;> rfl

theorem ofWord?_of_dateTime (h : DateTime cs) :
    ofWord? cs = some (.dateTime (String.ofList cs)) := by
  have hword := ofWord?_of_startsWithDigit .none h.startsWithDigit
  rw [List.nil_append] at hword
  rw [hword, isDateTime_of_dateTime h, if_pos rfl]

/-- The first digits of a number end before an underscore, or at what is behind them all. -/
theorem Digits.exists_run (h : Digits Char.isDigit spelled digits) : ∃ run behind,
    spelled = run ++ behind ∧ (∀ c ∈ run, c.isDigit = true) ∧ ∀ c ∈ behind.head?, c = '_' := by
  induction h with
  | @one c hc => exact ⟨[c], [], rfl, List.forall_mem_singleton.mpr hc, by rintro c ⟨⟩⟩
  | @next c _ _ hc _ ih =>
      obtain ⟨run, behind, rfl, hrun, hbehind⟩ := ih
      exact ⟨c :: run, behind, rfl, List.forall_mem_cons.mpr ⟨hc, hrun⟩, hbehind⟩
  | @underscore c spelled _ hc _ _ =>
      exact ⟨[c], '_' :: spelled, rfl, List.forall_mem_singleton.mpr hc, by rintro c ⟨⟩; rfl⟩

theorem day?_cons_eq_none {first : Char} (hfirst : first.isDigit = false) (others : List Char) :
    day? (first :: others) = none := by
  rw [Option.eq_none_iff_forall_ne_some]
  intro rest hday
  obtain ⟨first', year, behind, heq, hdigits⟩ := exists_of_day? hday
  rw [(List.cons.inj heq).1, hdigits first' List.mem_cons_self] at hfirst
  cases hfirst

theorem day?_number (hsign : Sign sign negative) (h : Digits Char.isDigit spelled digits)
    (hrest : ∀ c ∈ rest.head?, c ≠ '-' ∧ c.isDigit = false) :
    day? (sign ++ (spelled ++ rest)) = none := by
  cases hsign with
  | none =>
      obtain ⟨run, behind, rfl, hrun, hbehind⟩ := h.exists_run
      rw [List.nil_append, List.append_assoc]
      apply day?_eq_none_of_digits hrun
      cases behind with
      | nil => exact hrest
      | cons c behind =>
          rintro _ ⟨⟩
          rw [hbehind c rfl]
          decide
  | plus => exact day?_cons_eq_none rfl _
  | minus => exact day?_cons_eq_none rfl _

theorem isDateTime_of_day?_eq_none (hday : day? cs = none) (hcolon : ':' ∉ cs) :
    isDateTime cs = false := by
  have htime : time? cs = none := by
    rw [Option.eq_none_iff_forall_ne_some]
    exact fun rest htime => hcolon (colon_mem_of_time? htime)
  rw [isDateTime, hday, htime]
  rfl

theorem scalar?_dateTime (h : DateTime cs) (hrest : Follows rest) :
    scalar? (cs ++ rest) = some (.dateTime (String.ofList cs), rest) := by
  have hword : ∀ c ∈ rest.head?, isWordChar c = false := fun c hc => (hrest.head c hc).1
  refine scalar?_of_word ?_ (ofWord?_of_dateTime h)
  cases h with
  | day h =>
      have hday : day? (cs ++ []) = some [] := day?_append h []
      rw [List.append_nil] at hday
      rw [word, Text.takeWhile_run h.wordChars hword, Text.dropWhile_run h.wordChars hword, hday]
      split
      -- A blank behind a day would belong to the word only with a digit behind it.
      · rw [hrest.isDigit_eq_false, if_neg Bool.false_ne_true]
      · rfl
  | time h => exact word_append h.wordChars hword (by rw [day?_time h]; rintro ⟨⟩)
  | @both day time offset separator hday hseparator htime hoffset =>
      have htail : ∀ c ∈ time ++ offset, isWordChar c = true :=
        List.forall_mem_append.mpr ⟨htime.wordChars, hoffset.wordChars⟩
      have hletter : isWordChar separator = true →
          word (day ++ separator :: (time ++ offset) ++ rest) =
            (day ++ separator :: (time ++ offset), rest) := by
        intro hseparator
        apply word_append _ hword
        · rw [day?_append hday]
          rintro ⟨⟩
        · exact List.forall_mem_append.mpr ⟨hday.wordChars, List.forall_mem_cons.mpr ⟨hseparator, htail⟩⟩
      rcases hseparator with rfl | rfl | rfl
      · exact hletter rfl
      · exact hletter rfl
      · have hblank : ∀ c ∈ (' ' :: (time ++ offset ++ rest)).head?, isWordChar c = false := by
          rintro c ⟨⟩
          rfl
        have hclosed : day? (day ++ []) = some [] := day?_append hday []
        rw [List.append_nil] at hclosed
        have htake := Text.takeWhile_run htail hword
        have hdrop := Text.dropWhile_run htail hword
        obtain ⟨first, others, hfirst, hdigit⟩ := (htime.startsWithDigit.append offset).append rest
        rw [List.append_assoc, List.cons_append, word, Text.takeWhile_run hday.wordChars hblank,
          Text.dropWhile_run hday.wordChars hblank, hclosed]
        rw [hfirst] at htake hdrop ⊢
        simp only [if_pos hdigit, htake, hdrop]

/-- What sets a number apart: it starts with a digit, possibly behind a sign, and no hyphen or colon
comes where a date or a time would have one. -/
structure NumberWord (cs : List Char) : Prop where
  chars : ∀ c ∈ cs, isWordChar c = true
  starts : ∃ sign negative cs', cs = sign ++ cs' ∧ Sign sign negative ∧ StartsWithDigit cs'
  noDay : day? cs = none
  noColon : ':' ∉ cs

theorem NumberWord.ofWord?_eq (h : NumberWord cs) :
    ofWord? cs = ((integer? cs).map .integer).or ((float? cs).map .float) := by
  obtain ⟨sign, negative, cs', heq, hsign, hstart⟩ := h.starts
  have hword := ofWord?_of_startsWithDigit hsign hstart
  rwa [← heq, isDateTime_of_day?_eq_none h.noDay h.noColon, if_neg Bool.false_ne_true] at hword

theorem numberWord_of_numberChars (hchars : ∀ c ∈ cs, isNumberChar c = true)
    (hstarts : ∃ sign negative cs', cs = sign ++ cs' ∧ Sign sign negative ∧ StartsWithDigit cs')
    (hday : day? cs = none) : NumberWord cs where
  chars c hc := isWordChar_of_isNumberChar (hchars c hc)
  starts := hstarts
  noDay := hday
  noColon hcolon := absurd (hchars ':' hcolon) (by decide)

theorem FloatWord.numberWord {numeral : Numeral} (h : FloatWord cs numeral) : NumberWord cs := by
  have hchars := h.chars
  obtain ⟨hsign, hwhole, hfraction, hpower, -⟩ := h
  refine numberWord_of_numberChars hchars
    ⟨_, _, _, rfl, hsign, hwhole.1.startsWithDigit.append _⟩ (day?_number hsign hwhole.1 ?_)
  rcases hfraction with _ | _
  · intro c hc
    rcases hpower.head_eq c hc with rfl | rfl <;> decide
  · rintro c ⟨⟩
    decide

theorem wordChars_of_basedDigits {base : Nat}
    (h : Digits (fun c => (Numeral.hexDigit? c).any (· < base)) spelled digits) :
    ∀ c ∈ spelled, isWordChar c = true ∧ c ≠ ':' := by
  intro c hc
  rcases h.chars c hc with hdigit | rfl
  · constructor
    · apply isWordChar_of_hexDigit?
      cases hvalue : Numeral.hexDigit? c with
      | none =>
          rw [hvalue] at hdigit
          cases hdigit
      | some value => rfl
    · rintro rfl
      cases hdigit
  · decide

theorem IntegerWord.numberWord {value : Int} (h : IntegerWord cs value) : NumberWord cs := by
  cases h with
  | @decimal sign spelled digits negative hsign hwhole =>
      have hday : day? (sign ++ (spelled ++ [])) = none :=
        day?_number hsign hwhole.1 (by rintro c ⟨⟩)
      rw [List.append_nil] at hday
      exact numberWord_of_numberChars
        (List.forall_mem_append.mpr ⟨hsign.chars, hwhole.1.isNumberChar⟩)
        ⟨_, _, _, rfl, hsign, hwhole.1.startsWithDigit⟩ hday
  | @based letter base spelled digits hbase hdigits =>
      have hspelled := wordChars_of_basedDigits hdigits
      have hletter : isWordChar letter = true ∧ letter ≠ ':' ∧ letter ≠ '-' ∧
          letter.isDigit = false := by
        simp only [List.mem_cons, Prod.mk.injEq, List.not_mem_nil, or_false] at hbase
        rcases hbase with ⟨rfl, -⟩ | ⟨rfl, -⟩ | ⟨rfl, -⟩ <;> decide
      constructor
      · exact List.forall_mem_cons.mpr
          ⟨rfl, List.forall_mem_cons.mpr ⟨hletter.1, fun c hc => (hspelled c hc).1⟩⟩
      · exact ⟨_, _, _, rfl, .none, '0', _, rfl, rfl⟩
      · have hzero : ∀ c ∈ ['0'], c.isDigit = true := List.forall_mem_singleton.mpr rfl
        apply day?_eq_none_of_digits hzero
        rintro c ⟨⟩
        exact hletter.2.2
      · rintro (_ | ⟨_, _ | ⟨_, hmem⟩⟩)
        · exact hletter.2.1 rfl
        · exact (hspelled ':' hmem).2 rfl

end Words

section Singles

variable {cs rest : List Char} {value : Toml}

theorem scalar?_numberWord (h : NumberWord cs) (hrest : Follows rest)
    (hvalue : ((integer? cs).map .integer).or ((float? cs).map .float) = some value) :
    scalar? (cs ++ rest) = some (value, rest) :=
  scalar?_append h.chars (fun c hc => (hrest.head c hc).1) h.noDay (h.ofWord?_eq.trans hvalue)

/-- The names of the floats that are no ordinary numbers, with a sign or without. -/
theorem scalar?_special {sign name : List Char} {negative : Bool} (hsign : Sign sign negative)
    (hname : name = ['i', 'n', 'f'] ∨ name = ['n', 'a', 'n']) (hrest : Follows rest) :
    scalar? (sign ++ name ++ rest) = some (.special (String.ofList (sign ++ name)), rest) := by
  have hword : ∀ c ∈ rest.head?, isWordChar c = false := fun c hc => (hrest.head c hc).1
  cases hsign <;> rcases hname with rfl | rfl <;>
    exact scalar?_append (List.all_eq_true.mp rfl) hword rfl rfl

/-- A value without quotes starts with a character of a word. -/
theorem plainValue?_eq_scalar? {first : Char} (hfirst : isWordChar first = true)
    (others : List Char) :
    TomlReader.plainValue? (first :: others) = scalar? (first :: others) := by
  unfold TomlReader.plainValue?
  split
  · next heq =>
      rw [(List.cons.inj heq).1] at hfirst
      exact absurd hfirst (by decide)
  · next heq =>
      rw [(List.cons.inj heq).1] at hfirst
      exact absurd hfirst (by decide)
  · rfl

theorem plainValue?_string {first : Char} (hfirst : first = '"' ∨ first = '\'')
    (others : List Char) :
    TomlReader.plainValue? (first :: others) =
      (TomlQuotes.string? (first :: others)).map fun read => (.string read.1, read.2) := by
  rcases hfirst with rfl | rfl <;> rfl

theorem NumberWord.exists_cons (h : NumberWord cs) :
    ∃ first others, cs = first :: others ∧ isWordChar first = true := by
  obtain ⟨sign, negative, _, rfl, -, digit, others, rfl, -⟩ := h.starts
  obtain ⟨first, others', heq⟩ :=
    List.exists_cons_of_ne_nil (List.append_ne_nil_of_right_ne_nil sign (List.cons_ne_nil digit others))
  exact ⟨first, others', heq, h.chars first (heq ▸ List.mem_cons_self)⟩

/-- A value that holds no other is a string, or a word. -/
theorem Single.string_or_word (h : Single cs value) :
    (∃ s, AnyString cs s ∧ value = .string s) ∨
      (∃ first others, cs = first :: others ∧ isWordChar first = true) ∧
        ∀ rest, Follows rest → scalar? (cs ++ rest) = some (value, rest) := by
  cases h with
  | string h => exact Or.inl ⟨_, h, rfl⟩
  | integer h _ =>
      refine Or.inr ⟨h.numberWord.exists_cons, fun rest hrest => ?_⟩
      exact scalar?_numberWord h.numberWord hrest (by rw [integer?_of_integerWord h]; rfl)
  | float h =>
      refine Or.inr ⟨h.numberWord.exists_cons, fun rest hrest => ?_⟩
      apply scalar?_numberWord h.numberWord hrest
      rw [integer?_of_floatWord h, float?_of_floatWord h]
      rfl
  | special hsign hname =>
      refine Or.inr ⟨?_, fun rest hrest => scalar?_special hsign hname hrest⟩
      cases hsign <;> rcases hname with rfl | rfl <;> exact ⟨_, _, rfl, rfl⟩
  | boolean value =>
      refine Or.inr ⟨?_, fun rest hrest => scalar?_flag value fun c hc => (hrest.head c hc).1⟩
      cases value <;> exact ⟨_, _, rfl, rfl⟩
  | dateTime h =>
      refine Or.inr ⟨?_, fun rest hrest => scalar?_dateTime h hrest⟩
      obtain ⟨first, others, heq, hfirst⟩ := h.startsWithDigit
      exact ⟨first, others, heq, isWordChar_of_isDigit hfirst⟩

theorem Single.exists_cons (h : Single cs value) : ∃ first others, cs = first :: others ∧
    ((first = '"' ∨ first = '\'') ∨ isWordChar first = true) := by
  rcases h.string_or_word with ⟨s, hstring, -⟩ | ⟨⟨first, others, heq, hfirst⟩, -⟩
  · obtain ⟨first, others, heq, hfirst⟩ := hstring.exists_cons
    exact ⟨first, others, heq, Or.inl hfirst⟩
  · exact ⟨first, others, heq, Or.inr hfirst⟩

theorem plainValue?_single (h : Single cs value) (hrest : Follows rest) :
    TomlReader.plainValue? (cs ++ rest) = some (value, rest) := by
  rcases h.string_or_word with ⟨s, hstring, rfl⟩ | ⟨⟨first, others, rfl, hfirst⟩, hread⟩
  · have hread := string?_append hstring fun c hc => (hrest.head c hc).2
    obtain ⟨first, others, rfl, hfirst⟩ := hstring.exists_cons
    rw [List.cons_append] at hread ⊢
    rw [plainValue?_string hfirst, hread]
    rfl
  · rw [← hread rest hrest, List.cons_append, plainValue?_eq_scalar? hfirst]

end Singles

end PlanLowering.TomlGrammar
