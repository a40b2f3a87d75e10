import RouteSplit.Json.Basic

/-!
# Spellings of JSON values

A value can be written in many ways: with blanks around its parts, with escapes in its strings, and
with numbers of every form.

- `Letters`, `Numeral`: the characters of strings and numbers;
- `Spells`: a text is JSON, and what value it has;
- `isWhole_of_spells`: such a value is whole.
-/

namespace RouteSplit.Json

/-! ## Strings and numbers -/

/-- Characters between the parts of a value. -/
def Blanks (cs : List Char) : Prop := ∀ c ∈ cs, isBlank c = true

instance (cs : List Char) : Decidable (Blanks cs) :=
  inferInstanceAs (Decidable (∀ c ∈ cs, isBlank c = true))

/-- Four hexadecimal digits and their value. -/
def Code (a b c d : Char) (n : Nat) : Prop :=
  ∃ w x y z, Text.hexValue? a = some w ∧ Text.hexValue? b = some x ∧ Text.hexValue? c = some y ∧
    Text.hexValue? d = some z ∧ n = ((w * 16 + x) * 16 + y) * 16 + z

/-- The first half of a surrogate pair. -/
def IsHigh (n : Nat) : Prop := 0xd800 ≤ n ∧ n ≤ 0xdbff

/-- The second half of a surrogate pair. -/
def IsLow (n : Nat) : Prop := 0xdc00 ≤ n ∧ n ≤ 0xdfff

/-- The escape of a second half comes first. -/
def BeginsLow (cs : List Char) : Prop :=
  ∃ a b c d n rest, cs = '\\' :: 'u' :: a :: b :: c :: d :: rest ∧ Code a b c d n ∧ IsLow n

/-- The escapes of a single letter, each with the character that it stands for. -/
def namedEscapes : List (Char × Char) :=
  [('\x22', '\x22'), ('\\', '\\'), ('/', '/'), ('b', '\x08'), ('f', '\x0c'), ('n', '\n'),
    ('r', '\r'), ('t', '\t')]

/-- How the characters of a string are spelled. Half of a surrogate pair is none. -/
inductive Letters : List Char → List (Option Char) → Prop
  | nil : Letters [] []
  | plain {c : Char} {cs : List Char} {xs : List (Option Char)} :
      c ≠ '\x22' → c ≠ '\\' → 0x20 ≤ c.toNat → Letters cs xs → Letters (c :: cs) (some c :: xs)
  | named {e c : Char} {cs : List Char} {xs : List (Option Char)} :
      (e, c) ∈ namedEscapes → Letters cs xs → Letters ('\\' :: e :: cs) (some c :: xs)
  | code {a b c d : Char} {n : Nat} {cs : List Char} {xs : List (Option Char)} :
      Code a b c d n → ¬IsHigh n → ¬IsLow n → Letters cs xs →
      Letters ('\\' :: 'u' :: a :: b :: c :: d :: cs) (some (Char.ofNat n) :: xs)
  | pair {a b c d a' b' c' d' : Char} {high low : Nat} {cs : List Char} {xs : List (Option Char)} :
      Code a b c d high → IsHigh high → Code a' b' c' d' low → IsLow low → Letters cs xs →
      Letters ('\\' :: 'u' :: a :: b :: c :: d :: '\\' :: 'u' :: a' :: b' :: c' :: d' :: cs)
        (some (Char.ofNat (0x10000 + (high - 0xd800) * 0x400 + (low - 0xdc00))) :: xs)
  | low {a b c d : Char} {n : Nat} {cs : List Char} {xs : List (Option Char)} :
      Code a b c d n → IsLow n → Letters cs xs →
      Letters ('\\' :: 'u' :: a :: b :: c :: d :: cs) (none :: xs)
  | high {a b c d : Char} {n : Nat} {cs : List Char} {xs : List (Option Char)} :
      Code a b c d n → IsHigh n → ¬BeginsLow cs → Letters cs xs →
      Letters ('\\' :: 'u' :: a :: b :: c :: d :: cs) (none :: xs)

/-- The text that characters make, if none of them is half a pair. -/
def textOf (xs : List (Option Char)) : Option String := (xs.mapM id).map String.ofList

/-- One or more digits. -/
def Digits (cs : List Char) : Prop := cs ≠ [] ∧ ∀ c ∈ cs, c.isDigit = true

/-- The integer part of a number. -/
inductive Whole : List Char → Prop
  | zero : Whole ['0']
  | other {c : Char} {cs : List Char} : c ≠ '0' → Digits (c :: cs) → Whole (c :: cs)

inductive Fraction : List Char → Prop
  | none : Fraction []
  | some {ds : List Char} : Digits ds → Fraction ('.' :: ds)

inductive Exponent : List Char → Prop
  | none : Exponent []
  | plain {e : Char} {ds : List Char} : e = 'e' ∨ e = 'E' → Digits ds → Exponent (e :: ds)
  | signed {e s : Char} {ds : List Char} : e = 'e' ∨ e = 'E' → s = '+' ∨ s = '-' → Digits ds →
      Exponent (e :: s :: ds)

/-- How a number is spelled. -/
inductive Numeral : List Char → Prop
  | plain {whole fraction exponent : List Char} :
      Whole whole → Fraction fraction → Exponent exponent →
      Numeral (whole ++ (fraction ++ exponent))
  | negative {whole fraction exponent : List Char} :
      Whole whole → Fraction fraction → Exponent exponent →
      Numeral ('-' :: (whole ++ (fraction ++ exponent)))

/-! ## Values -/

/-- How a member of an object is spelled, its key and its value each with the blanks around it. -/
structure MemberSpelling where
  keyText : List Char
  key : Option String
  text : List Char
  value : Json

namespace MemberSpelling

def chars (m : MemberSpelling) : List Char := m.keyText ++ ':' :: m.text

/-- The member itself. -/
def member (m : MemberSpelling) : Option String × Json := (m.key, m.value)

end MemberSpelling

/-- How a key is spelled. -/
def SpellsKey (text : List Char) (key : Option String) : Prop :=
  ∃ before cs xs behind, Blanks before ∧ Letters cs xs ∧ Blanks behind ∧
    text = before ++ '\x22' :: (cs ++ '\x22' :: behind) ∧ key = textOf xs

/-- Parts one behind the other. -/
def listed (texts : List (List Char)) : List Char := [','].intercalate texts

/-- How a value is spelled. -/
inductive Spells : List Char → Json → Prop
  | null : Spells "null".toList .null
  | bool (b : Bool) : Spells (if b then "true" else "false").toList (.bool b)
  | number {raw : List Char} : Numeral raw → Spells raw (.number raw)
  | string {cs : List Char} {xs : List (Option Char)} :
      Letters cs xs → Spells ('\x22' :: (cs ++ ['\x22'])) (.string (textOf xs))
  | emptyArray {bs : List Char} : Blanks bs → Spells ('[' :: (bs ++ [']'])) (.array [])
  | array {xs : List (List Char × Json)} : xs ≠ [] → (∀ x ∈ xs, Spells x.1 x.2) →
      Spells ('[' :: (listed (xs.map (·.1)) ++ [']'])) (.array (xs.map (·.2)))
  | emptyObject {bs : List Char} :
      Blanks bs → Spells ('\x7b' :: (bs ++ ['\x7d'])) (.object [])
  | object {ms : List MemberSpelling} : ms ≠ [] → (∀ m ∈ ms, SpellsKey m.keyText m.key) →
      (∀ m ∈ ms, Spells m.text m.value) →
      Spells ('\x7b' :: (listed (ms.map (·.chars)) ++ ['\x7d'])) (.object (ms.map (·.member)))
  | padded {before text behind : List Char} {j : Json} :
      Blanks before → Blanks behind → Spells text j → Spells (before ++ (text ++ behind)) j

/-- Plain characters spell themselves. -/
theorem letters_plain {cs : List Char}
    (h : ∀ c ∈ cs, c ≠ '\x22' ∧ c ≠ '\\' ∧ 0x20 ≤ c.toNat) : Letters cs (cs.map some) := by
  induction cs with
  | nil => exact .nil
  | cons c cs ih =>
      obtain ⟨hquote, hslash, hcontrol⟩ := h c List.mem_cons_self
      exact .plain hquote hslash hcontrol (ih fun d hd => h d (List.mem_cons_of_mem _ hd))

theorem areWhole_iff {js : List Json} : areWhole js = true ↔ ∀ j ∈ js, j.isWhole = true := by
  induction js with
  | nil => simp [areWhole]
  | cons j js ih => simp [areWhole, ih]

theorem membersWhole_iff {ms : List (Option String × Json)} :
    membersWhole ms = true ↔ ∀ m ∈ ms, m.2.isWhole = true := by
  induction ms with
  | nil => simp [membersWhole]
  | cons m ms ih => simp [membersWhole, ih]

/-- A value that is spelled out is whole. -/
theorem isWhole_of_spells {text : List Char} {j : Json} (h : Spells text j) : j.isWhole = true := by
  induction h with
  | null | bool | number | string | emptyArray | emptyObject => rfl
  | array _ _ ih => exact areWhole_iff.2 (List.forall_mem_map.2 ih)
  | object _ _ _ ih => exact membersWhole_iff.2 (List.forall_mem_map.2 ih)
  | padded _ _ _ ih => exact ih

end RouteSplit.Json
