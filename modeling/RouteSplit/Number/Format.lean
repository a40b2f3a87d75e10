import RouteSplit.Number.Shortest

/-!
# Writing decimals

- `DecimalFormat`: which decimals are written without an exponent, and how exponents look;
- `DecimalFormat.write`: a decimal in a format.
-/

namespace RouteSplit.Number

/-- How decimals are written. The point stands behind digit `n` of the digits; `n` may be negative
or exceed their number. -/
structure DecimalFormat where
  /-- The greatest `n` that is written without an exponent. -/
  maxPlain : Int
  /-- The least `n` that is written without an exponent. -/
  minPlain : Int
  /-- An integer without an exponent ends in `.0`. -/
  keepsFraction : Bool
deriving DecidableEq, Repr, Inhabited

/-- The decimal's digits without trailing zeros, and the number of digits before its point. -/
def Decimal.scientific (d : Decimal) : List Char × Int :=
  let digits := Nat.toDigits 10 d.digits
  let significant := (digits.reverse.dropWhile (· == '0')).reverse
  if significant.isEmpty then (['0'], 1) else (significant, (digits.length : Int) + d.exponent)

def DecimalFormat.write (f : DecimalFormat) (d : Decimal) : String :=
  let (digits, n) := d.scientific
  let count : Int := digits.length
  let zeros (k : Int) : List Char := List.replicate k.toNat '0'
  if f.minPlain ≤ n && n ≤ f.maxPlain then
    if count ≤ n then
      String.ofList (digits ++ zeros (n - count)) ++ (if f.keepsFraction then ".0" else "")
    else if 0 < n then
      String.ofList (digits.take n.toNat) ++ "." ++ String.ofList (digits.drop n.toNat)
    else "0." ++ String.ofList (zeros (-n) ++ digits)
  else
    let e := n - 1
    let mantissa := match digits with
      | [c] => String.ofList [c]
      | c :: rest => String.ofList (c :: '.' :: rest)
      | [] => "0"
    mantissa ++ "e" ++ (if e < 0 then "-" else "+") ++ toString e.natAbs

end RouteSplit.Number
