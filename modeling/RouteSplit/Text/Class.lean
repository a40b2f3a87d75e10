import RouteSplit.Text.HiddenRanges
import RouteSplit.Text.IdentifierRanges

/-!
# Character classes

Which characters end a line, stand between tokens, belong to an identifier, or are not shown.

- `isLineBreak`, `isBlank`: the characters between tokens;
- `isSpace`: the characters that count as white space;
- `isNameStart`, `isNamePart`: the characters of identifiers;
- `isHidden`: the characters that have no picture of their own;
- `hexValue?`: the value of a hexadecimal digit.
-/

namespace RouteSplit.Text

def isLineBreak (c : Char) : Bool :=
  c == '\n' || c == '\r' || c.toNat == 0x2028 || c.toNat == 0x2029

/-- The characters that separate tokens within a line: tabs, form feeds, the next-line control, the
byte order mark and every space character, those without width included. -/
def isBlank (c : Char) : Bool :=
  let n := c.toNat
  n == 0x20 || n == 0x09 || n == 0x0b || n == 0x0c || n == 0x85 || n == 0xa0 || n == 0xfeff ||
    n == 0x1680 || n == 0x180e || (0x2000 ≤ n && n ≤ 0x200b) || n == 0x202f || n == 0x205f ||
    n == 0x3000

def isSpace (c : Char) : Bool :=
  let n := c.toNat
  (0x09 ≤ n && n ≤ 0x0d) || n == 0x20 || n == 0x85 || n == 0xa0 || n == 0x1680 ||
    (0x2000 ≤ n && n ≤ 0x200a) || n == 0x2028 || n == 0x2029 || n == 0x202f || n == 0x205f ||
    n == 0x3000

def inRanges (ranges : Array (Nat × Nat)) (n : Nat) : Bool :=
  ranges.any fun r => r.1 ≤ n && n ≤ r.2

def isNameStart (c : Char) : Bool :=
  if c.toNat < 0x80 then c.isAlpha || c == '_' || c == '$' else inRanges startRanges c.toNat

def isNamePart (c : Char) : Bool :=
  if c.toNat < 0x80 then c.isAlphanum || c == '_' || c == '$'
  else inRanges startRanges c.toNat || inRanges continueRanges c.toNat

/-- Whether a character has no picture of its own. -/
def isHidden (c : Char) : Bool :=
  if c.toNat < 0x7f then c.toNat < 0x20 else inRanges hiddenRanges c.toNat

def hexValue? (c : Char) : Option Nat :=
  if c.isDigit then some (c.toNat - '0'.toNat)
  else if 'a' ≤ c && c ≤ 'f' then some (c.toNat - 'a'.toNat + 10)
  else if 'A' ≤ c && c ≤ 'F' then some (c.toNat - 'A'.toNat + 10)
  else none

end RouteSplit.Text
