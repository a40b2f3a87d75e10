import RouteSplit.Text.Class
import RouteSplit.Tree.Label

/-!
# Escape sequences

Reading the escapes of identifiers and string literals.

- `hexDigits`, `codePoint`: numbers in base sixteen;
- `escape`: what stands behind a backslash in a string literal;
- `joinSurrogates`: two halves of a pair make one character.
-/

namespace RouteSplit.Token

def hexDigits : Nat → Nat → List Char → Option (Nat × List Char)
  | 0, value, rest => some (value, rest)
  | n + 1, value, c :: rest => (Text.hexValue? c).bind fun d => hexDigits n (16 * value + d) rest
  | _ + 1, _, [] => none

/-- The value of one or more hexadecimal digits up to a closing brace, and the text behind it. -/
def bracedDigits (value : Nat) (some? : Bool) : List Char → Option (Nat × List Char)
  | [] => none
  | c :: rest =>
    if c == '\x7d' then if some? then some (value, rest) else none
    else (Text.hexValue? c).bind fun d => bracedDigits (16 * value + d) true rest

/-- The code point of an escape, from behind its `u`. -/
def codePoint : List Char → Option (Nat × List Char)
  | [] => none
  | c :: rest =>
    if c == '\x7b' then
      match bracedDigits 0 false rest with
      | some (n, rest') => if n ≤ 0x10ffff then some (n, rest') else none
      | none => none
    else hexDigits 4 0 (c :: rest)

def unitOf (n : Nat) : TextUnit :=
  if 0xd800 ≤ n && n ≤ 0xdfff then .surrogate n else .char (Char.ofNat n)

/-- The value of up to `n` octal digits, and the text behind them. -/
def octalDigits : Nat → Nat → List Char → Nat × List Char
  | n + 1, value, c :: rest =>
    if '0' ≤ c && c ≤ '7' then octalDigits n (8 * value + (c.toNat - '0'.toNat)) rest
    else (value, c :: rest)
  | _, value, rest => (value, rest)

/-- What an escape stands for, from behind its backslash, and the text behind it. A line break is
dropped, and a character without a meaning of its own stands for itself. -/
def escape : List Char → Option (List TextUnit × List Char)
  | [] => none
  | 'n' :: rest => some ([.char '\n'], rest)
  | 't' :: rest => some ([.char '\t'], rest)
  | 'r' :: rest => some ([.char '\r'], rest)
  | 'b' :: rest => some ([.char '\x08'], rest)
  | 'v' :: rest => some ([.char '\x0b'], rest)
  | 'f' :: rest => some ([.char '\x0c'], rest)
  | 'x' :: rest => (hexDigits 2 0 rest).map fun r => ([unitOf r.1], r.2)
  | 'u' :: rest => (codePoint rest).map fun r => ([unitOf r.1], r.2)
  | '\r' :: '\n' :: rest => some ([], rest)
  | c :: rest =>
    if Text.isLineBreak c then some ([], rest)
    else if '0' ≤ c && c ≤ '7' then
      let r := octalDigits (if c ≤ '3' then 3 else 2) 0 (c :: rest)
      some ([unitOf r.1], r.2)
    else some ([.char c], rest)

/-- Whether the text behind a backslash is an escape with a meaning that no octal digits give. -/
def escapeIsValid : List Char → Bool
  | 'x' :: rest => (hexDigits 2 0 rest).isSome
  | 'u' :: rest => (codePoint rest).isSome
  | '0' :: c :: _ => !c.isDigit
  | c :: _ => c == '0' || !c.isDigit
  | [] => true

/-- Whether all escapes in a text have a meaning that no octal digits give. -/
def escapesAreValid : List Char → Bool
  | '\\' :: c :: rest => escapeIsValid (c :: rest) && escapesAreValid rest
  | _ :: rest => escapesAreValid rest
  | [] => true

def withLineFeeds : List Char → List Char
  | '\r' :: '\n' :: rest => '\n' :: withLineFeeds rest
  | '\r' :: rest => '\n' :: withLineFeeds rest
  | c :: rest => c :: withLineFeeds rest
  | [] => []

/-- A piece of a template as it counts: its line breaks are line feeds, unless an escape in it has
no meaning. -/
def templateText (raw : String) : String :=
  if escapesAreValid raw.toList then String.ofList (withLineFeeds raw.toList) else raw

/-- A high half directly before a low half becomes the character that the two encode. -/
def joinSurrogates : List TextUnit → List TextUnit
  | .surrogate hi :: .surrogate lo :: rest =>
    if hi < 0xdc00 && 0xdc00 ≤ lo then
      .char (Char.ofNat (0x10000 + (hi - 0xd800) * 0x400 + (lo - 0xdc00))) :: joinSurrogates rest
    else .surrogate hi :: joinSurrogates (.surrogate lo :: rest)
  | u :: rest => u :: joinSurrogates rest
  | [] => []

end RouteSplit.Token
