import Mathlib.Data.List.DropRight
import RouteSplit.Proofs.Json.Spelling
import RouteSplit.Proofs.Json.Written

/-!
# Reading what is spelled

However a value is spelled, it is read as that value and to its end. Between the parts of a value
there are only blanks, and all that stands behind it is left.

- `stringChars_letters`, `number?_append`: strings and numbers are read as they are spelled;
- `Reads`: a text is read as a value wherever it stands;
- `items_listed`, `members_listed`: items and members are read one by one;
- `reads_of_spells`: every value is read as it is spelled;
- `read_of_spells`: a text that is JSON is read as its value, up to blanks behind it.
-/

namespace RouteSplit.Json

/-! ## Strings are read -/

/-- Four hexadecimal digits are read as the number that they spell, whatever follows. -/
theorem hex4?_code {a b c d : Char} {n : Nat} (h : Code a b c d n) (rest : List Char) :
    hex4? (a :: b :: c :: d :: rest) = some (n, rest) := by
  obtain ⟨w, x, y, z, ha, hb, hc, hd, rfl⟩ := h
  simp only [hex4?, ha, hb, hc, hd]

/-- The escape of a low half is read as one, whatever follows. -/
theorem lowHalf?_code {a b c d : Char} {n : Nat} (h : Code a b c d n) (hlow : IsLow n)
    (rest : List Char) :
    lowHalf? ('\\' :: 'u' :: a :: b :: c :: d :: rest) = some (n, rest) := by
  simp [lowHalf?, hex4?_code h, Option.filter, hlow.1, hlow.2]

/-- What is read as four hexadecimal digits spells a number. -/
theorem exists_code_of_hex4? {text rest : List Char} {n : Nat} (h : hex4? text = some (n, rest)) :
    ∃ a b c d, text = [a, b, c, d] ++ rest ∧ Code a b c d n := by
  unfold hex4? at h
  split at h
  · rename_i a b c d rest'
    split at h
    · rename_i w x y z ha hb hc hd
      obtain ⟨rfl, rfl⟩ := Prod.mk.inj (Option.some.inj h)
      exact ⟨a, b, c, d, rfl, w, x, y, z, ha, hb, hc, hd, rfl⟩
    · simp at h
  · simp at h

/-- What is read as a low half is the escape of one. -/
theorem exists_code_of_lowHalf? {text rest : List Char} {n : Nat}
    (h : lowHalf? text = some (n, rest)) :
    ∃ a b c d, text = ['\\', 'u', a, b, c, d] ++ rest ∧ Code a b c d n ∧ IsLow n := by
  unfold lowHalf? at h
  split at h
  · obtain ⟨hhex, hlow⟩ := Option.filter_eq_some_iff.1 h
    obtain ⟨a, b, c, d, rfl, hcode⟩ := exists_code_of_hex4? hhex
    exact ⟨a, b, c, d, rfl, hcode, by simpa [IsLow] using hlow⟩
  · simp at h

theorem quote_not_mem_code {a b c d : Char} {n : Nat} (h : Code a b c d n) :
    '\x22' ∉ ['\\', 'u', a, b, c, d] := by
  obtain ⟨w, x, y, z, ha, hb, hc, hd, -⟩ := h
  have hquote : Text.hexValue? '\x22' = none := by decide
  intro hmem
  simp only [List.mem_cons, List.not_mem_nil, or_false] at hmem
  rcases hmem with hmem | hmem | rfl | rfl | rfl | rfl
  · exact absurd hmem (by decide)
  · exact absurd hmem (by decide)
  all_goals simp_all

/-- A quote is no part of the escape of a second half. -/
theorem lowHalf?_of_not_beginsLow {cs : List Char} (h : ¬BeginsLow cs) (rest : List Char) :
    lowHalf? (cs ++ '\x22' :: rest) = none := by
  by_contra hne
  obtain ⟨⟨n, behind⟩, hlow⟩ := Option.ne_none_iff_exists'.1 hne
  obtain ⟨a, b, c, d, htext, hcode, hrange⟩ := exists_code_of_lowHalf? hlow
  have hbegins : ∀ tail, cs = ['\\', 'u', a, b, c, d] ++ tail → False :=
    fun tail htail => h ⟨a, b, c, d, n, tail, htail, hcode, hrange⟩
  rcases List.append_eq_append_iff.1 htext with ⟨tail, hescape, hquote⟩ | ⟨tail, hcs, -⟩
  · cases tail with
    | nil => exact hbegins [] (by simpa using hescape.symm)
    | cons e tail =>
        -- The quote would be one of the six characters.
        obtain ⟨rfl, -⟩ := List.cons.inj hquote
        exact quote_not_mem_code hcode (hescape ▸ by simp)
  · exact hbegins tail hcs

/-- A number that is no half of a pair stands for the character of its own. -/
theorem codeEscape?_code {a b c d : Char} {n : Nat} (h : Code a b c d n) (hhigh : ¬IsHigh n)
    (hlow : ¬IsLow n) (rest : List Char) :
    codeEscape? (a :: b :: c :: d :: rest) = some (some (Char.ofNat n), rest) := by
  have hplain : n < 0xd800 ∨ 0xdfff < n := by
    unfold IsHigh at hhigh
    unfold IsLow at hlow
    omega
  simp [codeEscape?, hex4?_code h, hplain]

/-- A low half that stands alone is no character. -/
theorem codeEscape?_low {a b c d : Char} {n : Nat} (h : Code a b c d n) (hlow : IsLow n)
    (rest : List Char) : codeEscape? (a :: b :: c :: d :: rest) = some (none, rest) := by
  have hhalf : ¬(n < 0xd800 ∨ 0xdfff < n) := by
    unfold IsLow at hlow
    omega
  simp [codeEscape?, hex4?_code h, hhalf, hlow.1]

/-- A first half is read with what stands behind it. -/
theorem codeEscape?_of_high {a b c d : Char} {n : Nat} (h : Code a b c d n) (hhigh : IsHigh n)
    (text : List Char) :
    codeEscape? (a :: b :: c :: d :: text) =
      match lowHalf? text with
      | some (low, rest) =>
        some (some (Char.ofNat (0x10000 + (n - 0xd800) * 0x400 + (low - 0xdc00))), rest)
      | none => some (none, text) := by
  have hhalf : ¬(n < 0xd800 ∨ 0xdfff < n) := by
    unfold IsHigh at hhigh
    omega
  have hfirst : ¬0xdc00 ≤ n := by
    unfold IsHigh at hhigh
    omega
  simp only [codeEscape?, hex4?_code h, Option.map_some, Bool.or_eq_true, decide_eq_true_eq,
    hhalf, hfirst, if_false]
  cases lowHalf? text <;> rfl

/-- A high half and the low half behind it stand for one character. -/
theorem codeEscape?_pair {a b c d : Char} {n : Nat} (h : Code a b c d n) (hhigh : IsHigh n)
    {text rest : List Char} {low : Nat} (hlow : lowHalf? text = some (low, rest)) :
    codeEscape? (a :: b :: c :: d :: text) =
      some (some (Char.ofNat (0x10000 + (n - 0xd800) * 0x400 + (low - 0xdc00))), rest) := by
  rw [codeEscape?_of_high h hhigh, hlow]

/-- A high half that no low one follows is no character. -/
theorem codeEscape?_high {a b c d : Char} {n : Nat} (h : Code a b c d n) (hhigh : IsHigh n)
    {text : List Char} (hnone : lowHalf? text = none) :
    codeEscape? (a :: b :: c :: d :: text) = some (none, text) := by
  rw [codeEscape?_of_high h hhigh, hnone]

/-- Escapes with a name of one letter are read as their characters. -/
theorem escape?_named {e c : Char} (h : (e, c) ∈ namedEscapes) (rest : List Char) :
    escape? (e :: rest) = some (some c, rest) := by
  simp only [namedEscapes, List.mem_cons, List.not_mem_nil, or_false, Prod.mk.injEq] at h
  rcases h with ⟨rfl, rfl⟩ | ⟨rfl, rfl⟩ | ⟨rfl, rfl⟩ | ⟨rfl, rfl⟩ | ⟨rfl, rfl⟩ | ⟨rfl, rfl⟩ |
    ⟨rfl, rfl⟩ | ⟨rfl, rfl⟩ <;> rfl

/-- An escape in a string gives one place of it. -/
theorem stringChars_escape {text behind : List Char} {x : Option Char}
    (h : escape? text = some (x, behind)) (n : Nat) :
    stringChars (n + 1) ('\\' :: text) =
      (stringChars n behind).map fun q => (x :: q.1, q.2) := by
  have hquote : ('\\' == '\x22') = false := by decide
  simp only [stringChars, hquote, h, Option.bind_some, Bool.false_eq_true, if_false,
    beq_self_eq_true, if_true]

/-- A string is read as it is spelled, up to its closing quote. -/
theorem stringChars_letters {cs : List Char} {xs : List (Option Char)} (h : Letters cs xs)
    (rest : List Char) {n : Nat} (hn : cs.length < n) :
    stringChars n (cs ++ '\x22' :: rest) = some (xs, rest) := by
  have hescape : ∀ {text behind : List Char} {x : Option Char} {xs : List (Option Char)} {n : Nat},
      escape? text = some (x, behind) → stringChars n behind = some (xs, rest) →
        stringChars (n + 1) ('\\' :: text) = some (x :: xs, rest) := by
    intro text behind x xs n hread hrest
    rw [stringChars_escape hread, hrest]
    rfl
  -- On how the string is spelled. Each step takes one unit of fuel and at least one character.
  induction h generalizing n with
  | nil =>
      obtain ⟨n, rfl⟩ := Nat.exists_eq_add_of_lt hn
      rfl
  | @plain c cs xs hquote hslash hcontrol _ ih =>
      obtain ⟨n, rfl⟩ := Nat.exists_eq_succ_of_ne_zero (Nat.ne_zero_of_lt hn)
      have hrest := ih (Nat.lt_of_succ_lt_succ hn)
      simp only [List.cons_append, stringChars, beq_false_of_ne hquote, beq_false_of_ne hslash,
        Nat.not_lt.2 hcontrol, Bool.false_eq_true, if_false, hrest]
      rfl
  | named hnamed _ ih =>
      obtain ⟨n, rfl⟩ := Nat.exists_eq_succ_of_ne_zero (Nat.ne_zero_of_lt hn)
      exact hescape (escape?_named hnamed _) (ih (by simp at hn; omega))
  | code hcode hhigh hlow _ ih =>
      obtain ⟨n, rfl⟩ := Nat.exists_eq_succ_of_ne_zero (Nat.ne_zero_of_lt hn)
      exact hescape (codeEscape?_code hcode hhigh hlow _) (ih (by simp at hn; omega))
  | pair hcode hhigh hcode' hlow _ ih =>
      obtain ⟨n, rfl⟩ := Nat.exists_eq_succ_of_ne_zero (Nat.ne_zero_of_lt hn)
      exact hescape (codeEscape?_pair hcode hhigh (lowHalf?_code hcode' hlow _))
        (ih (by simp at hn; omega))
  | low hcode hlow _ ih =>
      obtain ⟨n, rfl⟩ := Nat.exists_eq_succ_of_ne_zero (Nat.ne_zero_of_lt hn)
      exact hescape (codeEscape?_low hcode hlow _) (ih (by simp at hn; omega))
  | high hcode hhigh hbegins _ ih =>
      obtain ⟨n, rfl⟩ := Nat.exists_eq_succ_of_ne_zero (Nat.ne_zero_of_lt hn)
      exact hescape (codeEscape?_high hcode hhigh (lowHalf?_of_not_beginsLow hbegins _))
        (ih (by simp at hn; omega))

/-- So is the rest of a string's text behind it, with the text that its characters make. -/
theorem string?_letters {cs : List Char} {xs : List (Option Char)} (h : Letters cs xs)
    (rest : List Char) : string? (cs ++ '\x22' :: rest) = some (textOf xs, rest) := by
  rw [string?, stringChars_letters h rest (by rw [List.length_append]; omega)]
  rfl

/-! ## Numbers are read -/

/-- No digit comes first. -/
def NoDigit (text : List Char) : Prop := ∀ c ∈ text.head?, c.isDigit = false

/-- Nothing comes first with which a number goes on. -/
def Clear (text : List Char) : Prop :=
  ∀ c ∈ text.head?, c.isDigit = false ∧ c ≠ '.' ∧ c ≠ 'e' ∧ c ≠ 'E'

theorem Clear.noDigit {text : List Char} (h : Clear text) : NoDigit text := fun c hc => (h c hc).1

/-- Digits are read up to what is no digit. -/
theorem digits?_append {ds rest : List Char} (h : Digits ds) (hrest : NoDigit rest) :
    digits? (ds ++ rest) = some (ds, rest) := by
  have hrun : (ds ++ rest).takeWhile Char.isDigit = ds := by
    rw [List.takeWhile_append_of_pos h.2]
    cases rest with
    | nil => simp
    | cons c rest => simp [List.takeWhile, hrest c rfl]
  simp [digits?, hrun, h.1]

/-- The integer part of a number is read up to what is no digit. -/
theorem whole?_append {ds rest : List Char} (h : Whole ds) (hrest : NoDigit rest) :
    whole? (ds ++ rest) = some (ds, rest) := by
  cases h with
  | zero =>
      have hzero : Digits ['0'] := ⟨by simp, by simp⟩
      have hdigits := digits?_append hzero hrest
      rw [whole?, hdigits]
      rfl
  | @other c cs hzero hdigits =>
      rw [whole?, digits?_append hdigits hrest]
      split
      · rename_i heq
        exact absurd (List.cons.inj (Prod.mk.inj (Option.some.inj heq)).1).1 hzero
      · rfl

/-- A fraction is read as long as it goes on, and none is read where no point stands. -/
theorem fraction?_append {cs rest : List Char} (h : Fraction cs) (hrest : NoDigit rest)
    (hpoint : ∀ c ∈ rest.head?, c ≠ '.') : fraction? (cs ++ rest) = some (cs, rest) := by
  cases h with
  | none =>
      rw [List.nil_append]
      unfold fraction?
      split
      · exact absurd rfl (hpoint '.' rfl)
      · rfl
  | some hdigits =>
      rw [List.cons_append, fraction?, digits?_append hdigits hrest]
      rfl

/-- An exponent is read whole where nothing that could go on with it follows. -/
theorem exponent?_append {cs rest : List Char} (h : Exponent cs) (hrest : Clear rest) :
    exponent? (cs ++ rest) = some (cs, rest) := by
  cases h with
  | none =>
      cases rest with
      | nil => rfl
      | cons c rest =>
          obtain ⟨-, -, he, hE⟩ := hrest c rfl
          simp [exponent?, he, hE]
  | @plain e ds he hdigits =>
      obtain ⟨d, ds, rfl⟩ := List.exists_cons_of_ne_nil hdigits.1
      have hdigit := hdigits.2 d List.mem_cons_self
      have hsign : d ≠ '+' ∧ d ≠ '-' := by
        constructor <;> rintro rfl <;> exact absurd hdigit (by decide)
      have hread := digits?_append hdigits hrest.noDigit
      rw [List.cons_append] at hread
      simp [exponent?, he, hsign, hread]
  | @signed e s ds he hs hdigits => simp [exponent?, he, hs, digits?_append hdigits hrest.noDigit]

/-- What follows a fraction is neither a digit nor a point. -/
theorem noDigit_exponent {cs rest : List Char} (h : Exponent cs) (hrest : Clear rest) :
    NoDigit (cs ++ rest) ∧ ∀ c ∈ (cs ++ rest).head?, c ≠ '.' := by
  have hletter : ∀ {e : Char}, e = 'e' ∨ e = 'E' → e.isDigit = false ∧ e ≠ '.' := by
    rintro e (rfl | rfl) <;> decide
  cases h with
  | none => exact ⟨hrest.noDigit, fun c hc => (hrest c hc).2.1⟩
  | plain he _ | signed he _ _ =>
      constructor
      · rintro c ⟨⟩
        exact (hletter he).1
      · rintro c ⟨⟩
        exact (hletter he).2

/-- What follows the integer part of a number is no digit. -/
theorem noDigit_fraction {cs rest : List Char} (h : Fraction cs) (hrest : NoDigit rest) :
    NoDigit (cs ++ rest) := by
  cases h with
  | none => exact hrest
  | some _ =>
      rintro c ⟨⟩
      rfl

theorem unsigned_append {whole fraction exponent rest : List Char} (hwhole : Whole whole)
    (hfraction : Fraction fraction) (hexponent : Exponent exponent) (hrest : Clear rest) :
    whole? (whole ++ (fraction ++ exponent) ++ rest) =
        some (whole, fraction ++ (exponent ++ rest)) ∧
      fraction? (fraction ++ (exponent ++ rest)) = some (fraction, exponent ++ rest) ∧
      exponent? (exponent ++ rest) = some (exponent, rest) := by
  obtain ⟨hdigit, hpoint⟩ := noDigit_exponent hexponent hrest
  refine ⟨?_, fraction?_append hfraction hdigit hpoint, exponent?_append hexponent hrest⟩
  rw [List.append_assoc, List.append_assoc]
  exact whole?_append hwhole (noDigit_fraction hfraction hdigit)

theorem isDigit_of_whole {whole : List Char} (h : Whole whole) :
    ∃ c cs, whole = c :: cs ∧ c.isDigit = true := by
  cases h with
  | zero => exact ⟨'0', [], rfl, by decide⟩
  | other _ hdigits => exact ⟨_, _, rfl, hdigits.2 _ List.mem_cons_self⟩

/-- A number is read as it is spelled. -/
theorem number?_append {raw rest : List Char} (h : Numeral raw) (hrest : Clear rest) :
    number? (raw ++ rest) = some (raw, rest) := by
  cases h with
  | @plain whole fraction exponent hwhole hfraction hexponent =>
      obtain ⟨hw, hf, he⟩ := unsigned_append hwhole hfraction hexponent hrest
      obtain ⟨c, cs, rfl, hdigit⟩ := isDigit_of_whole hwhole
      have hsign : ∀ tail, c :: cs ++ (fraction ++ exponent) ++ rest ≠ '-' :: tail := by
        rintro tail heq
        rw [(List.cons.inj heq).1] at hdigit
        exact absurd hdigit (by decide)
      rw [number?]
      · simp only [hw, Option.bind_eq_bind, Option.bind_some, hf, he]
        simp
      · exact hsign
  | negative hwhole hfraction hexponent =>
      obtain ⟨hw, hf, he⟩ := unsigned_append hwhole hfraction hexponent hrest
      rw [List.cons_append, number?]
      simp only [hw, Option.bind_eq_bind, Option.bind_some, hf, he]
      simp

/-! ## Blanks are passed over -/

theorem skipBlanks_append {bs : List Char} (h : Blanks bs) (text : List Char) :
    skipBlanks (bs ++ text) = skipBlanks text :=
  List.dropWhile_append_of_pos h

/-- Blanks before a value make no difference. -/
theorem value_congr {text text' : List Char} (h : skipBlanks text = skipBlanks text') (n : Nat) :
    value n text = value n text' := by
  cases n with
  | zero => rfl
  | succ n => rw [value, value, h]

/-- Blanks before the items of an array make no difference. -/
theorem items_congr {text text' : List Char} (h : skipBlanks text = skipBlanks text') (n : Nat) :
    items n text = items n text' := by
  cases n with
  | zero => rfl
  | succ n => rw [items, items, value_congr h]

/-- Blanks before the members of an object make no difference. -/
theorem members_congr {text text' : List Char} (h : skipBlanks text = skipBlanks text') (n : Nat) :
    members n text = members n text' := by
  cases n with
  | zero => rfl
  | succ n => rw [members, members, h]

theorem skipBlanks_skipBlanks (text : List Char) : skipBlanks (skipBlanks text) = skipBlanks text :=
  List.dropWhile_idempotent isBlank text

theorem clear_blanks {bs rest : List Char} (h : Blanks bs) (hrest : Clear rest) :
    Clear (bs ++ rest) := by
  cases bs with
  | nil => exact hrest
  | cons b bs =>
      rintro c ⟨⟩
      have hblank := h b List.mem_cons_self
      simp only [isBlank, Bool.or_eq_true, beq_iff_eq] at hblank
      rcases hblank with ((rfl | rfl) | rfl) | rfl <;> decide

/-! ## Values are read -/

/-- A text is read as a value wherever it stands, if there is fuel for its characters, and blanks
are all that is left of it. -/
def Reads (text : List Char) (j : Json) : Prop :=
  ∀ n rest, 2 * text.length ≤ n → Clear rest →
    ∃ behind, value n (text ++ rest) = (j, some behind) ∧ skipBlanks behind = skipBlanks rest

/-- What spells a string is read as the text of its places. -/
theorem reads_string {cs : List Char} {xs : List (Option Char)} (h : Letters cs xs) :
    Reads ('\x22' :: (cs ++ ['\x22'])) (.string (textOf xs)) := by
  intro n rest hn _
  obtain ⟨n, rfl⟩ := Nat.exists_eq_succ_of_ne_zero (n := n) (by simp at hn; omega)
  refine ⟨rest, ?_, rfl⟩
  have htext : '\x22' :: (cs ++ ['\x22']) ++ rest = '\x22' :: (cs ++ '\x22' :: rest) := by simp
  have hskip : ∀ text, skipBlanks ('\x22' :: text) = '\x22' :: text := fun _ => rfl
  rw [htext, value, hskip]
  simp only [beq_self_eq_true, if_true, string?_letters h]
  rfl

/-- A numeral is read as it is spelled. -/
theorem reads_number {raw : List Char} (h : Numeral raw) : Reads raw (.number raw) := by
  intro n rest hn hrest
  have hread := number?_append h hrest
  cases h with
  | plain hwhole _ _ =>
      obtain ⟨c, cs, rfl, hdigit⟩ := isDigit_of_whole hwhole
      obtain ⟨n, rfl⟩ := Nat.exists_eq_succ_of_ne_zero (n := n) (by simp at hn; omega)
      refine ⟨rest, ?_, rfl⟩
      simp only [List.cons_append] at hread ⊢
      rw [value_of_isDigit hdigit, hread]
      rfl
  | negative _ _ _ =>
      obtain ⟨n, rfl⟩ := Nat.exists_eq_succ_of_ne_zero (n := n) (by simp at hn; omega)
      refine ⟨rest, ?_, rfl⟩
      have hvalue : ∀ text,
          value (n + 1) ('-' :: text) = ofOption .number (number? ('-' :: text)) := fun _ => rfl
      rw [List.cons_append] at hread ⊢
      rw [hvalue, hread]
      rfl

/-- Blanks around what is read make no difference. -/
theorem reads_padded {before text behind : List Char} {j : Json} (hbefore : Blanks before)
    (hbehind : Blanks behind) (h : Reads text j) : Reads (before ++ (text ++ behind)) j := by
  intro n rest hn hrest
  have hfuel : 2 * text.length ≤ n := by
    simp only [List.length_append] at hn
    omega
  obtain ⟨left, hvalue, hleft⟩ := h n (behind ++ rest) hfuel (clear_blanks hbehind hrest)
  refine ⟨left, ?_, hleft.trans (skipBlanks_append hbehind rest)⟩
  rw [← hvalue]
  refine value_congr ?_ n
  rw [List.append_assoc, skipBlanks_append hbefore, List.append_assoc]

/-! ### Arrays -/

theorem listed_cons_cons (t t' : List Char) (ts : List (List Char)) :
    listed (t :: t' :: ts) = t ++ ',' :: listed (t' :: ts) := by
  simp [listed, List.intercalate_cons_cons]

theorem clear_cons {c : Char} (hc : c ∈ [',', ']', '\x7d']) (text : List Char) :
    Clear (c :: text) := by
  simp only [List.mem_cons, List.not_mem_nil, or_false] at hc
  rintro d ⟨⟩
  rcases hc with rfl | rfl | rfl <;> decide

/-- Items are read one by one up to the end of their array. -/
theorem items_listed {xs : List (List Char × Json)} (hne : xs ≠ [])
    (h : ∀ x ∈ xs, Reads x.1 x.2) {n : Nat} (hn : 2 * (listed (xs.map (·.1))).length + 2 ≤ n)
    (behind : List Char) :
    items n (listed (xs.map (·.1)) ++ ']' :: behind) = (xs.map (·.2), some behind) := by
  have hbracket : ∀ cs, skipBlanks (']' :: cs) = ']' :: cs := fun _ => rfl
  have hcomma : ∀ cs, skipBlanks (',' :: cs) = ',' :: cs := fun _ => rfl
  induction xs generalizing n with
  | nil => exact absurd rfl hne
  | cons x xs ih =>
      obtain ⟨n, rfl⟩ := Nat.exists_eq_succ_of_ne_zero (n := n) (by omega)
      have hx := h x List.mem_cons_self
      cases xs with
      | nil =>
          have hsingle : listed ([x].map (·.1)) = x.1 := List.intercalate_singleton
          rw [hsingle] at hn ⊢
          obtain ⟨left, hvalue, hleft⟩ :=
            hx n (']' :: behind) (by omega) (clear_cons (by simp) behind)
          rw [items, hvalue]
          simp only [hleft, hbracket]
          rfl
      -- The comma that follows ends the item, and the rest is read with the fuel that is left.
      | cons y ys =>
          rw [List.map_cons, List.map_cons, listed_cons_cons] at hn ⊢
          rw [List.append_assoc, List.cons_append]
          simp only [List.length_append, List.length_cons] at hn
          obtain ⟨left, hvalue, hleft⟩ := hx n
            (',' :: (listed (y.1 :: ys.map (·.1)) ++ ']' :: behind)) (by omega) (clear_cons (by simp) _)
          have hrest := ih (List.cons_ne_nil _ _) (fun z hz => h z (List.mem_cons_of_mem _ hz))
            (n := n) (by rw [List.map_cons]; omega)
          rw [List.map_cons] at hrest
          rw [items, hvalue]
          simp only [hleft, hcomma, hrest]
          rfl

/-- No item begins with the bracket that ends an array. -/
theorem items_bracket (n : Nat) (tail : List Char) : (items n (']' :: tail)).2 = none := by
  rcases n with _ | _ | n <;> rfl

theorem value_array (n : Nat) (text : List Char) :
    value (n + 1) ('[' :: text) = (.array (firstItem n text).1, (firstItem n text).2) := rfl

theorem reads_emptyArray {bs : List Char} (h : Blanks bs) :
    Reads ('[' :: (bs ++ [']'])) (.array []) := by
  intro n rest hn _
  obtain ⟨n, rfl⟩ := Nat.exists_eq_add_of_le' (m := 2) (n := n) (by simp at hn; omega)
  refine ⟨rest, ?_, rfl⟩
  have hskip : skipBlanks (bs ++ [']'] ++ rest) = ']' :: rest := by
    rw [List.append_assoc, skipBlanks_append h]
    rfl
  have hfirst : firstItem (n + 1) (bs ++ [']'] ++ rest) = ([], some rest) := by
    rw [firstItem, hskip]
    rfl
  rw [List.cons_append, value_array, hfirst]

/-- Items with commas between them are read as an array, if each is read by itself. -/
theorem reads_array {xs : List (List Char × Json)} (hne : xs ≠ []) (h : ∀ x ∈ xs, Reads x.1 x.2) :
    Reads ('[' :: (listed (xs.map (·.1)) ++ [']'])) (.array (xs.map (·.2))) := by
  intro n rest hn _
  simp only [List.length_cons, List.length_append, List.length_nil] at hn
  obtain ⟨n, rfl⟩ := Nat.exists_eq_add_of_le' (m := 2) (n := n) (by omega)
  refine ⟨rest, ?_, rfl⟩
  have hitems := items_listed hne h (n := n) (by omega) rest
  have hfirst : firstItem (n + 1) (listed (xs.map (·.1)) ++ ']' :: rest) =
      (xs.map (·.2), some rest) := by
    rw [firstItem]
    split
    · rename_i tail hskip
      have hsame : skipBlanks (listed (xs.map (·.1)) ++ ']' :: rest) = skipBlanks (']' :: tail) :=
        hskip
      rw [items_congr hsame] at hitems
      simpa [hitems] using items_bracket n tail
    · rw [← hitems]
      exact items_congr (skipBlanks_skipBlanks _) n
  rw [List.cons_append, List.append_assoc, List.singleton_append, value_array, hfirst]

/-! ### Objects -/

/-- A member is read up to what stands behind it. -/
theorem members_chars {m : MemberSpelling} (hkey : SpellsKey m.keyText m.key) {n : Nat}
    {rest left : List Char} (hvalue : value n (m.text ++ rest) = (m.value, some left)) :
    members (n + 1) (m.chars ++ rest) =
      match skipBlanks left with
      | '\x7d' :: behind => ([m.member], some behind)
      | ',' :: behind => (m.member :: (members n behind).1, (members n behind).2)
      | _ => ([m.member, (none, .broken)], none) := by
  obtain ⟨keyText, key, text, j⟩ := m
  obtain ⟨before, cs, xs, behind, hbefore, hletters, hbehind, rfl, rfl⟩ := hkey
  have hquote : ∀ cs, skipBlanks ('\x22' :: cs) = '\x22' :: cs := fun _ => rfl
  have hcolon : ∀ cs, skipBlanks (':' :: cs) = ':' :: cs := fun _ => rfl
  have htext : skipBlanks (before ++ '\x22' :: (cs ++ '\x22' :: behind) ++ ':' :: text ++ rest) =
      '\x22' :: (cs ++ '\x22' :: (behind ++ ':' :: (text ++ rest))) := by
    rw [List.append_assoc, List.append_assoc, skipBlanks_append hbefore, List.cons_append, hquote]
    simp
  rw [MemberSpelling.chars, members, htext]
  simp only [string?_letters hletters, skipBlanks_append hbehind, hcolon, hvalue]
  rfl

/-- Members are read one by one up to the end of their object. -/
theorem members_listed {ms : List MemberSpelling} (hne : ms ≠ [])
    (hkeys : ∀ m ∈ ms, SpellsKey m.keyText m.key) (h : ∀ m ∈ ms, Reads m.text m.value) {n : Nat}
    (hn : 2 * (listed (ms.map (·.chars))).length + 2 ≤ n) (behind : List Char) :
    members n (listed (ms.map (·.chars)) ++ '\x7d' :: behind) =
      (ms.map (·.member), some behind) := by
  have hbrace : ∀ cs, skipBlanks ('\x7d' :: cs) = '\x7d' :: cs := fun _ => rfl
  have hcomma : ∀ cs, skipBlanks (',' :: cs) = ',' :: cs := fun _ => rfl
  have hlength : ∀ m : MemberSpelling, m.text.length ≤ m.chars.length := by
    intro m
    rw [MemberSpelling.chars, List.length_append, List.length_cons]
    omega
  induction ms generalizing n with
  | nil => exact absurd rfl hne
  | cons m ms ih =>
      obtain ⟨n, rfl⟩ := Nat.exists_eq_succ_of_ne_zero (n := n) (by omega)
      have hm := h m List.mem_cons_self
      have hkey := hkeys m List.mem_cons_self
      have htext := hlength m
      cases ms with
      | nil =>
          have hsingle : listed ([m].map (·.chars)) = m.chars := List.intercalate_singleton
          rw [hsingle] at hn ⊢
          obtain ⟨left, hvalue, hleft⟩ :=
            hm n ('\x7d' :: behind) (by omega) (clear_cons (by simp) behind)
          rw [members_chars hkey hvalue, hleft, hbrace]
          rfl
      | cons k ks =>
          rw [List.map_cons, List.map_cons, listed_cons_cons] at hn ⊢
          rw [List.append_assoc, List.cons_append]
          simp only [List.length_append, List.length_cons] at hn
          obtain ⟨left, hvalue, hleft⟩ :=
            hm n (',' :: (listed (k.chars :: ks.map (·.chars)) ++ '\x7d' :: behind)) (by omega)
              (clear_cons (by simp) _)
          have hrest := ih (List.cons_ne_nil _ _)
            (fun z hz => hkeys z (List.mem_cons_of_mem _ hz))
            (fun z hz => h z (List.mem_cons_of_mem _ hz)) (n := n) (by rw [List.map_cons]; omega)
          rw [List.map_cons] at hrest
          rw [members_chars hkey hvalue, hleft, hcomma]
          simp only [hrest]
          rfl

/-- No member begins with the brace that ends an object. -/
theorem members_brace (n : Nat) (tail : List Char) : (members n ('\x7d' :: tail)).2 = none := by
  rcases n with _ | n <;> rfl

theorem value_object (n : Nat) (text : List Char) :
    value (n + 1) ('\x7b' :: text) = (.object (firstMember n text).1, (firstMember n text).2) := rfl

theorem reads_emptyObject {bs : List Char} (h : Blanks bs) :
    Reads ('\x7b' :: (bs ++ ['\x7d'])) (.object []) := by
  intro n rest hn _
  obtain ⟨n, rfl⟩ := Nat.exists_eq_add_of_le' (m := 2) (n := n) (by simp at hn; omega)
  refine ⟨rest, ?_, rfl⟩
  have hskip : skipBlanks (bs ++ ['\x7d'] ++ rest) = '\x7d' :: rest := by
    rw [List.append_assoc, skipBlanks_append h]
    rfl
  have hfirst : firstMember (n + 1) (bs ++ ['\x7d'] ++ rest) = ([], some rest) := by
    rw [firstMember, hskip]
    rfl
  rw [List.cons_append, value_object, hfirst]

/-- Members with commas between them are read as an object, if the value of each is read by
itself. -/
theorem reads_object {ms : List MemberSpelling} (hne : ms ≠ [])
    (hkeys : ∀ m ∈ ms, SpellsKey m.keyText m.key) (h : ∀ m ∈ ms, Reads m.text m.value) :
    Reads ('\x7b' :: (listed (ms.map (·.chars)) ++ ['\x7d'])) (.object (ms.map (·.member))) := by
  intro n rest hn _
  simp only [List.length_cons, List.length_append, List.length_nil] at hn
  obtain ⟨n, rfl⟩ := Nat.exists_eq_add_of_le' (m := 2) (n := n) (by omega)
  refine ⟨rest, ?_, rfl⟩
  have hmembers := members_listed hne hkeys h (n := n) (by omega) rest
  have hfirst : firstMember (n + 1) (listed (ms.map (·.chars)) ++ '\x7d' :: rest) =
      (ms.map (·.member), some rest) := by
    rw [firstMember]
    split
    · rename_i tail hskip
      have hsame : skipBlanks (listed (ms.map (·.chars)) ++ '\x7d' :: rest) =
          skipBlanks ('\x7d' :: tail) := hskip
      rw [members_congr hsame] at hmembers
      simpa [hmembers] using members_brace n tail
    · rw [← hmembers]
      exact members_congr (skipBlanks_skipBlanks _) n
  rw [List.cons_append, List.append_assoc, List.singleton_append, value_object, hfirst]

/-! ### All values -/

/-- Every value is read as it is spelled. -/
theorem reads_of_spells {text : List Char} {j : Json} (h : Spells text j) : Reads text j := by
  have hword : ∀ {text : List Char} {j : Json}, text ≠ [] →
      (∀ n rest, value (n + 1) (text ++ rest) = (j, some rest)) → Reads text j := by
    intro text j hne hvalue n rest hn _
    have hpos := List.length_pos_iff.2 hne
    obtain ⟨n, rfl⟩ := Nat.exists_eq_succ_of_ne_zero (n := n) (by omega)
    exact ⟨rest, hvalue n rest, rfl⟩
  induction h with
  | null => exact hword (by decide) fun _ _ => rfl
  | bool b => cases b <;> exact hword (by decide) fun _ _ => rfl
  | number hnumeral => exact reads_number hnumeral
  | string hletters => exact reads_string hletters
  | emptyArray hblanks => exact reads_emptyArray hblanks
  | array hne _ ih => exact reads_array hne ih
  | emptyObject hblanks => exact reads_emptyObject hblanks
  | object hne hkeys _ ih => exact reads_object hne hkeys ih
  | padded hbefore hbehind _ ih => exact reads_padded hbefore hbehind ih

/-- A text that is JSON is read as its value, with at most blanks left over. -/
theorem read_of_spells {text : List Char} {j : Json} (h : Spells text j) :
    ∃ behind, read text = (j, some behind) ∧ skipBlanks behind = [] := by
  have hclear : Clear [] := by
    rintro c ⟨⟩
  obtain ⟨behind, hvalue, hblank⟩ := reads_of_spells h (4 * text.length + 4) [] (by omega) hclear
  rw [List.append_nil] at hvalue
  exact ⟨behind, hvalue, hblank⟩

end RouteSplit.Json
