import RouteSplit.Options.Writer

/-!
# Written JSON values

What is written as JSON is read as what it was: every character of a string through its escape, an
integer through its digits, and an object member by member.

- `Stops`: what may stand behind a value inside another one;
- `Writes`: a text that is read as a value wherever it stands inside another one;
- `string?_quote`: strings;
- `writes_quote`, `writes_null`, `writes_bool`, `writes_toDigits`: values without parts;
- `read_object`: objects.
-/

namespace RouteSplit.Json

/-! ## Strings -/

/-- A hexadecimal digit is read as the number that it is written for. -/
theorem hexValue?_digitChar : ∀ d < 16, Text.hexValue? (Nat.digitChar d) = some d := by
  decide

/-- A control character is read back from the four digits of its number. -/
theorem codeEscape?_written {n : Nat} (h : n < 0x20) (rest : List Char) :
    codeEscape? ('0' :: '0' :: Nat.digitChar (n / 16) :: Nat.digitChar (n % 16) :: rest) =
      some (some (Char.ofNat n), rest) := by
  have hzero : Text.hexValue? '0' = some 0 := by decide
  have hhigh : Text.hexValue? (Nat.digitChar (n / 16)) = some (n / 16) :=
    hexValue?_digitChar _ (by omega)
  have hlow : Text.hexValue? (Nat.digitChar (n % 16)) = some (n % 16) :=
    hexValue?_digitChar _ (by omega)
  have hcode : ((0 * 16 + 0) * 16 + n / 16) * 16 + n % 16 = n := by omega
  have hplain : n < 0xd800 := by omega
  simp only [codeEscape?, hex4?, hzero, hhigh, hlow, hcode, Option.map_some, hplain, decide_true,
    Bool.true_or, if_true]

/-- A character is read back from the way in which it is written. -/
theorem stringChars_escaped (n : Nat) (c : Char) (rest : List Char) :
    stringChars (n + 1) (escaped c ++ rest) =
      (stringChars n rest).map fun q => (some c :: q.1, q.2) := by
  have hnamed : ∀ {d : Char}, c.toNat = d.toNat → c = d := fun h => Char.toNat_inj.1 h
  unfold escaped
  split
  case h_1 h => cases hnamed (d := '\x22') h; rfl
  case h_2 h => cases hnamed (d := '\\') h; rfl
  case h_3 h => cases hnamed (d := '\x08') h; rfl
  case h_4 h => cases hnamed (d := '\x0c') h; rfl
  case h_5 h => cases hnamed (d := '\n') h; rfl
  case h_6 h => cases hnamed (d := '\r') h; rfl
  case h_7 h => cases hnamed (d := '\t') h; rfl
  case h_8 hquote hslash _ _ _ _ _ =>
    by_cases hcontrol : c.toNat < 0x20
    · -- A control character without a name of its own goes by its number.
      rw [if_pos hcontrol]
      change (escape? ('u' :: '0' :: '0' :: Nat.digitChar (c.toNat / 16) ::
        Nat.digitChar (c.toNat % 16) :: rest)).bind _ = _
      rw [escape?, codeEscape?_written hcontrol, Char.ofNat_toNat]
      rfl
    · have hneQuote : (c == '\x22') = false := beq_false_of_ne fun h => hquote (h ▸ rfl)
      have hneSlash : (c == '\\') = false := beq_false_of_ne fun h => hslash (h ▸ rfl)
      simp only [if_neg hcontrol, List.singleton_append, stringChars, hneQuote, hneSlash,
        Bool.false_eq_true, if_false]

/-- The characters of a written string are read as they were. -/
theorem stringChars_written (cs rest : List Char) {n : Nat} (h : cs.length < n) :
    stringChars n (cs.flatMap escaped ++ '\x22' :: rest) = some (cs.map some, rest) := by
  induction cs generalizing n with
  | nil =>
      cases n with
      | zero => exact absurd h (Nat.not_lt_zero _)
      | succ n => rfl
  | cons c cs ih =>
      cases n with
      | zero => exact absurd h (Nat.not_lt_zero _)
      | succ n =>
          have hrest := ih (Nat.lt_of_succ_lt_succ h)
          rw [List.flatMap_cons, List.append_assoc, stringChars_escaped, hrest]
          rfl

theorem escaped_ne_nil (c : Char) : escaped c ≠ [] := by
  unfold escaped
  split
  case h_8 => by_cases h : c.toNat < 0x20 <;> simp [h]
  all_goals simp

theorem length_le_flatMap_escaped (cs : List Char) : cs.length ≤ (cs.flatMap escaped).length := by
  induction cs with
  | nil => exact Nat.le_refl _
  | cons c cs ih =>
      have hone := List.length_pos_iff.2 (escaped_ne_nil c)
      rw [List.flatMap_cons, List.length_append, List.length_cons]
      omega

theorem mapM_id_map_some (cs : List Char) : (cs.map some).mapM id = some cs := by
  induction cs with
  | nil => rfl
  | cons c cs ih => simp [ih]

/-- A string is read back from behind its opening quote. -/
theorem string?_quote (s : String) (rest : List Char) :
    string? (s.toList.flatMap escaped ++ '\x22' :: rest) = some (some s, rest) := by
  have hlength := length_le_flatMap_escaped s.toList
  have hread := stringChars_written s.toList rest
    (n := (s.toList.flatMap escaped ++ '\x22' :: rest).length + 1)
    (by rw [List.length_append]; omega)
  rw [string?, hread, Option.map_some, mapM_id_map_some, Option.map_some, String.ofList_toList]

/-! ## Values without parts -/

/-- What may stand behind a value inside another one. -/
inductive Stops : List Char → Prop
  | comma {rest : List Char} : Stops (',' :: rest)
  | bracket {rest : List Char} : Stops (']' :: rest)
  | brace {rest : List Char} : Stops ('\x7d' :: rest)

/-- `text` is read as `j` wherever it stands inside another value. -/
def Writes (text : List Char) (j : Json) : Prop :=
  ∀ n rest, Stops rest → value (n + 1) (text ++ rest) = (j, some rest)

/-- A quoted string is read as the string. -/
theorem writes_quote (s : String) : Writes (quote s) (.string (some s)) := by
  intro n rest _
  have hstring := string?_quote s rest
  have htext : quote s ++ rest = '\x22' :: (s.toList.flatMap escaped ++ '\x22' :: rest) := by
    simp [quote]
  have hblanks : skipBlanks (quote s ++ rest) = quote s ++ rest := by
    rw [htext]
    rfl
  rw [value, hblanks, htext]
  simp only [beq_self_eq_true, if_true, hstring]
  rfl

theorem writes_null : Writes "null".toList .null := fun _ _ _ => rfl

/-- The words for truth values are read as these. -/
theorem writes_bool (b : Bool) : Writes (if b then "true" else "false").toList (.bool b) := by
  intro n rest _
  cases b <;> rfl

/-! ## Integers -/

theorem isDigit_of_toDigits {n : Nat} {c : Char} (h : c ∈ Nat.toDigits 10 n) :
    c.isDigit = true :=
  Nat.isDigit_of_mem_toDigits (by decide) (by decide) h

/-- An integer other than zero does not begin with a zero. -/
theorem head?_toDigits {n : Nat} (h : 0 < n) : (Nat.toDigits 10 n).head? ≠ some '0' := by
  induction n using Nat.base_induction 10 (by decide) with
  | single m hm =>
      rw [Nat.toDigits_of_lt_base hm]
      simpa using Nat.ne_of_gt h
  | digit m k hk hm ih =>
      rw [← Nat.toDigits_append_toDigits (by decide) hm hk, List.head?_append]
      simpa using ih hm

/-- No decimal of more than one digit begins with a zero. -/
theorem toDigits_ne_zero_cons (n : Nat) (c : Char) (cs : List Char) :
    Nat.toDigits 10 n ≠ '0' :: c :: cs := by
  intro h
  rcases Nat.eq_zero_or_pos n with rfl | hpos
  · simp at h
  · exact head?_toDigits hpos (by rw [h]; rfl)

/-- All digits are read, and nothing behind them. -/
theorem digits?_toDigits (n : Nat) {rest : List Char} (h : Stops rest) :
    digits? (Nat.toDigits 10 n ++ rest) = some (Nat.toDigits 10 n, rest) := by
  have hrun : (Nat.toDigits 10 n ++ rest).takeWhile Char.isDigit = Nat.toDigits 10 n := by
    rw [List.takeWhile_append_of_pos fun c hc => isDigit_of_toDigits hc]
    cases h <;> simp [List.takeWhile]
  have hne : (Nat.toDigits 10 n).isEmpty = false := by simp
  simp only [digits?, hrun, hne, List.drop_left, Bool.false_eq_true, if_false]

/-- The digits of an integer are a number without a fraction and without an exponent. -/
theorem number?_toDigits (n : Nat) {rest : List Char} (h : Stops rest) :
    number? (Nat.toDigits 10 n ++ rest) = some (Nat.toDigits 10 n, rest) := by
  have hdigits := digits?_toDigits n h
  have hwhole : whole? (Nat.toDigits 10 n ++ rest) = some (Nat.toDigits 10 n, rest) := by
    unfold whole?
    rw [hdigits]
    split
    case h_1 c cs rest' heq =>
      exact absurd (Prod.mk.inj (Option.some.inj heq)).1 (toDigits_ne_zero_cons n c cs)
    case h_2 => rfl
  have hfraction : fraction? rest = some ([], rest) := by cases h <;> rfl
  have hexponent : exponent? rest = some ([], rest) := by cases h <;> rfl
  have hsign : ∀ tail, Nat.toDigits 10 n ++ rest ≠ '-' :: tail := by
    intro tail heq
    rcases List.exists_cons_of_ne_nil (Nat.toDigits_ne_nil (n := n) (b := 10)) with ⟨c, cs, hcs⟩
    have hdigit : c.isDigit = true := isDigit_of_toDigits (n := n) (by simp [hcs])
    rw [hcs, List.cons_append] at heq
    rw [(List.cons.inj heq).1] at hdigit
    exact absurd hdigit (by decide)
  simp only [number?, hwhole, hfraction, hexponent, Option.bind_eq_bind, Option.bind_some,
    List.nil_append, List.append_nil]
  rfl

/-- A digit begins a number and no other value. -/
theorem value_of_isDigit {c : Char} (h : c.isDigit = true) (n : Nat) (rest : List Char) :
    value (n + 1) (c :: rest) = ofOption .number (number? (c :: rest)) := by
  have hne : ∀ {d : Char}, d.isDigit = false → (c == d) = false := by
    intro d hd
    refine beq_false_of_ne fun heq => ?_
    rw [heq, hd] at h
    cases h
  have hblank : isBlank c = false := by simp [isBlank, hne]
  have hskip : skipBlanks (c :: rest) = c :: rest := by simp [skipBlanks, hblank]
  rw [value, hskip]
  simp [hne]

/-- The digits of a number are read as the numeral that they are. -/
theorem writes_toDigits (n : Nat) : Writes (Nat.toDigits 10 n) (.number (Nat.toDigits 10 n)) := by
  intro fuel rest h
  rcases List.exists_cons_of_ne_nil (Nat.toDigits_ne_nil (n := n) (b := 10)) with ⟨c, cs, hcs⟩
  have hdigit : c.isDigit = true := isDigit_of_toDigits (n := n) (by simp [hcs])
  have hnumber := number?_toDigits n h
  rw [hcs, List.cons_append] at hnumber ⊢
  rw [value_of_isDigit hdigit, hnumber]
  rfl

/-! ## Objects -/

/-- A member as it is written. -/
def memberText (key : String) (text : List Char) : List Char := quote key ++ ':' :: text

/-- A member is read up to what stands behind it: its object ends there, or another member
follows. -/
theorem members_memberText (key : String) {text : List Char} {j : Json} (h : Writes text j)
    (n : Nat) (behind : List Char) :
    members (n + 2) (memberText key text ++ '\x7d' :: behind) =
        ([(some key, j)], some behind) ∧
      members (n + 2) (memberText key text ++ ',' :: behind) =
        ((some key, j) :: (members (n + 1) behind).1, (members (n + 1) behind).2) := by
  have htext : ∀ rest, skipBlanks (memberText key text ++ rest) =
      '\x22' :: (key.toList.flatMap escaped ++ '\x22' :: ':' :: (text ++ rest)) := by
    intro rest
    simp [memberText, quote, skipBlanks, isBlank]
  have hcolon : ∀ cs, skipBlanks (':' :: cs) = ':' :: cs := fun _ => rfl
  have hbrace : ∀ cs, skipBlanks ('\x7d' :: cs) = '\x7d' :: cs := fun _ => rfl
  have hcomma : ∀ cs, skipBlanks (',' :: cs) = ',' :: cs := fun _ => rfl
  constructor
  · simp only [members, htext, string?_quote, hcolon, h n _ Stops.brace, hbrace]
  · rw [members, htext]
    simp only [string?_quote, hcolon, h n _ Stops.comma, hcomma]

/-- The members of an object as they are written. -/
def membersText (ms : List (String × List Char × Json)) : List Char :=
  [','].intercalate (ms.map fun m => memberText m.1 m.2.1)

theorem membersText_cons_cons (m m' : String × List Char × Json)
    (ms : List (String × List Char × Json)) :
    membersText (m :: m' :: ms) = memberText m.1 m.2.1 ++ ',' :: membersText (m' :: ms) := by
  simp [membersText, List.intercalate_cons_cons]

theorem length_le_membersText (ms : List (String × List Char × Json)) :
    ms.length ≤ (membersText ms).length := by
  have hpos : ∀ key text, 0 < (memberText key text).length := by simp [memberText, quote]
  induction ms with
  | nil => exact Nat.zero_le _
  | cons m ms ih =>
      cases ms with
      | nil =>
          rw [membersText, List.map_cons, List.map_nil, List.intercalate_singleton]
          exact hpos _ _
      | cons m' ms =>
          have hfirst := hpos m.1 m.2.1
          rw [membersText_cons_cons]
          simp only [List.length_append, List.length_cons] at ih ⊢
          omega

/-- Members are read one by one up to the end of their object. -/
theorem members_membersText {ms : List (String × List Char × Json)} (hne : ms ≠ [])
    (hms : ∀ m ∈ ms, Writes m.2.1 m.2.2) {n : Nat} (hn : ms.length < n) (behind : List Char) :
    members n (membersText ms ++ '\x7d' :: behind) =
      (ms.map fun m => (some m.1, m.2.2), some behind) := by
  induction ms generalizing n with
  | nil => exact absurd rfl hne
  | cons m ms ih =>
      rcases Nat.exists_eq_add_of_le' (show 2 ≤ n by rw [List.length_cons] at hn; omega)
        with ⟨n, rfl⟩
      have hm := members_memberText m.1 (hms m List.mem_cons_self) n
      cases ms with
      | nil =>
          have htext : membersText [m] = memberText m.1 m.2.1 := List.intercalate_singleton
          rw [htext]
          exact (hm behind).1
      | cons m' ms =>
          have hrest := ih (List.cons_ne_nil _ _) (fun x hx => hms x (List.mem_cons_of_mem _ hx))
            (n := n + 1) (by simpa using hn)
          rw [membersText_cons_cons, List.append_assoc, List.cons_append, (hm _).2, hrest]
          rfl

/-- An object with members is read as the object of what they are. -/
theorem read_object (ms : List (String × List Char × Json)) (hne : ms ≠ [])
    (hms : ∀ m ∈ ms, Writes m.2.1 m.2.2) (behind : List Char) :
    read ('\x7b' :: (membersText ms ++ '\x7d' :: behind)) =
      (.object (ms.map fun m => (some m.1, m.2.2)), some behind) := by
  have hlength := length_le_membersText ms
  have hmembers := fun n hn => members_membersText hne hms (n := n) hn behind
  have hquoted : ∃ tail, membersText ms ++ '\x7d' :: behind = '\x22' :: tail := by
    cases ms with
    | nil => exact absurd rfl hne
    | cons m ms =>
      cases ms with
      | nil => simp [membersText, memberText, quote]
      | cons m' ms => simp [membersText_cons_cons, memberText, quote]
  rcases hquoted with ⟨tail, htail⟩
  have hfirst : ∀ n, firstMember (n + 1) (membersText ms ++ '\x7d' :: behind) =
      members n (membersText ms ++ '\x7d' :: behind) := by
    intro n
    rw [htail]
    rfl
  -- There is fuel for every character, and every member has some.
  have hfuel : 4 * ('\x7b' :: (membersText ms ++ '\x7d' :: behind)).length + 4 =
      4 * (membersText ms).length + 4 * behind.length + 10 + 1 + 1 := by
    simp only [List.length_cons, List.length_append]
    omega
  have hvalue : ∀ n, value (n + 1) ('\x7b' :: (membersText ms ++ '\x7d' :: behind)) =
      (.object (firstMember n (membersText ms ++ '\x7d' :: behind)).1,
        (firstMember n (membersText ms ++ '\x7d' :: behind)).2) := fun _ => rfl
  rw [read, hfuel, hvalue, hfirst, hmembers _ (by omega)]

end RouteSplit.Json
