import RouteSplit.Number.Format
import RouteSplit.Text.Class

/-!
# Numeric literals

A literal is read as the nearest binary number and written in as few characters as the language
allows.

- `value?`: the number that a literal stands for, or nothing if it is too large;
- `write`: the shortest spelling of a literal;
- `writeInteger`: an integer of any size in decimal.
-/

namespace RouteSplit.Number.Literal

/-! ## Reading -/

def natOf (base : Nat) (digits : List Char) : Nat :=
  digits.foldl (fun n c => match Text.hexValue? c with
    | some d => base * n + d
    | none => n) 0

/-- The sign and the digits of an exponent. An exponent beyond all reach stands for any larger
one. -/
def exponentOf (text : List Char) : Int :=
  let (negative, digits) := match text with
    | '-' :: rest => (true, rest)
    | '+' :: rest => (false, rest)
    | rest => (false, rest)
  let digits := digits.dropWhile (· == '0')
  let n := if digits.length > 8 then 100000000 else natOf 10 digits
  if negative then -(n : Int) else n

/-- The nearest number to `digits * 10 ^ e`, or nothing if that is too large. -/
def ofDecimal? (digits : Nat) (e : Int) : Option Binary64 :=
  let size : Int := (Nat.toDigits 10 digits).length + e
  if digits == 0 || size < -400 then some ⟨0, 0⟩
  else if size > 400 then none
  else if 0 ≤ e then Binary64.round? (digits * Nat.pow 10 e.toNat) 1
  else Binary64.round? digits (Nat.pow 10 (-e).toNat)

/-- The digits of a decimal before and behind its point, and its exponent. -/
def decimalParts (text : List Char) : List Char × List Char × Int :=
  let mantissa := text.takeWhile fun c => c != 'e' && c != 'E'
  let whole := mantissa.takeWhile (· != '.')
  (whole, mantissa.drop (whole.length + 1), exponentOf (text.drop (mantissa.length + 1)))

def decimal? (text : List Char) : Option Binary64 :=
  let (whole, fraction, exponent) := decimalParts (text.filter (· != '_'))
  ofDecimal? (natOf 10 (whole ++ fraction)) (exponent - fraction.length)

/-- Whether a literal that begins with a zero is octal by an old custom. -/
def isOldOctal (text : List Char) : Bool :=
  text.length > 1 && text.all fun c => '0' ≤ c && c ≤ '7'

/-- The number that a literal stands for, or nothing if it is too large. -/
def value? (raw : String) : Option Binary64 :=
  match raw.toList with
  | '0' :: c :: rest =>
    if c == 'x' || c == 'X' then Binary64.round? (natOf 16 rest) 1
    else if c == 'o' || c == 'O' then Binary64.round? (natOf 8 rest) 1
    else if c == 'b' || c == 'B' then Binary64.round? (natOf 2 rest) 1
    else if isOldOctal (c :: rest) || isOldOctal ('0' :: c :: rest) then
      Binary64.round? (natOf 8 (c :: rest)) 1
    else decimal? ('0' :: c :: rest)
  | text => decimal? text

/-- The integer that a literal with any base stands for. -/
def integer (raw : String) : Nat :=
  match raw.toList.filter (· != 'n') with
  | '0' :: c :: rest =>
    if c == 'x' || c == 'X' then natOf 16 rest
    else if c == 'o' || c == 'O' then natOf 8 rest
    else if c == 'b' || c == 'B' then natOf 2 rest
    else natOf 10 (c :: rest)
  | text => natOf 10 text

/-! ## Writing -/

/-- Numbers as the language itself writes them: without an exponent from a millionth up to 21
digits. -/
def plainFormat : DecimalFormat := ⟨21, -5, false⟩

/-- The first occurrence of an exponent's plus sign is dropped, and the zero before a point. -/
def trimmed (text : List Char) : List Char :=
  let text := match text with
    | '0' :: '.' :: rest => '.' :: rest
    | _ => text
  match text.span (· != 'e') with
  | (before, 'e' :: '+' :: behind) => before ++ 'e' :: behind
  | _ => text

/-- A fraction that begins with zeros, with an exponent if that is shorter. -/
def withSmallExponent (text : List Char) : List Char :=
  let zeros := (text.drop 1).takeWhile (· == '0')
  let digits := text.drop (1 + zeros.length)
  let exponent := (toString (digits.length + zeros.length)).toList
  let written := digits ++ ['e', '-'] ++ exponent
  if written.length < text.length then written else text

/-- Trailing zeros, as an exponent if that is shorter. -/
def withLargeExponent (text : List Char) : List Char :=
  let zeros := text.reverse.takeWhile (· == '0')
  let written := text.take (text.length - zeros.length) ++ 'e' :: (toString zeros.length).toList
  if written.length < text.length then written else text

/-- A fraction with an exponent, without its point if that is shorter. -/
def withoutPoint (text : List Char) : List Char :=
  match text.span (· != '.') with
  | (whole, '.' :: behind) =>
    match behind.span (· != 'e') with
    | (fraction, 'e' :: exponent) =>
      let e := exponentOf exponent - fraction.length
      let written := whole ++ fraction ++ 'e' :: (toString e).toList
      if written.length < text.length then written else text
    | _ => text
  | _ => text

/-- The shortest spelling of a number. Integers below a thousand are left as they are. -/
def writeValue (x : Binary64) : String :=
  let plain := plainFormat.write x.shortest
  if x.isInteger && x.floor < 1000 then plain
  else
    let text := trimmed plain.toList
    let hex := '0' :: 'x' :: Nat.toDigits 16 x.floor
    if x.isInteger && hex.length < text.length then String.ofList hex
    else
      let isSmall := !x.isInteger && ['.', '0'].isPrefixOf text
      let text := if isSmall then withSmallExponent text else text
      let text := if text.getLast? == some '0' then withLargeExponent text else text
      String.ofList (withoutPoint text)

def write (raw : String) : String :=
  match value? raw with
  | some x => writeValue x
  | none => "Infinity"

/-- Whether a point directly behind the spelling would belong to the number. -/
def takesPoint (spelling : String) : Bool :=
  !spelling.toList.any fun c => c == '.' || c == 'e' || c == 'x' || c == 'I'

def writeInteger (raw : String) : String := toString (integer raw) ++ "n"

end RouteSplit.Number.Literal
