/-!
# Shortest decimals

Numbers are binary fractions `m * 2 ^ q` with at most 53 significant bits. Of the decimals that
read back as a given one, the shortest is written, and of those the nearest.

- `Binary64`: a non-negative finite number;
- `Binary64.round?`: the number nearest to a quotient, ties to the even significand;
- `Binary64.shortest`: the digits of its shortest decimal.
-/

namespace RouteSplit.Number

/-- The number `mantissa * 2 ^ exponent`, with the mantissa below `2 ^ 53`. -/
structure Binary64 where
  mantissa : Nat
  exponent : Int
deriving DecidableEq, Repr, Inhabited

/-- The decimal `digits * 10 ^ exponent`. -/
structure Decimal where
  digits : Nat
  exponent : Int
deriving DecidableEq, Repr, Inhabited

/-- The quotient of `num * 2 ^ shift` and `den`, rounded to the nearest integer, ties to even. -/
def roundShifted (num den : Nat) (shift : Int) : Nat :=
  let num := if 0 ≤ shift then num * Nat.pow 2 shift.toNat else num
  let den := if 0 ≤ shift then den else den * Nat.pow 2 (-shift).toNat
  let quotient := num / den
  let twice := 2 * (num % den)
  if twice > den || (twice == den && quotient % 2 == 1) then quotient + 1 else quotient

namespace Binary64

def minExponent : Int := -1074

def maxExponent : Int := 971

/-- The number nearest to `num / den`, or nothing if that is too large. -/
def round? (num den : Nat) : Option Binary64 :=
  if num == 0 || den == 0 then some ⟨0, 0⟩
  else
    let guess : Int := (num.log2 : Int) - (den.log2 : Int) - 53
    let fits (q : Int) : Bool := roundShifted num den (-q) < Nat.pow 2 53
    let q := max minExponent (if fits guess then guess else if fits (guess + 1) then guess + 1
      else guess + 2)
    let m := roundShifted num den (-q)
    if q > maxExponent then none else some ⟨m, q⟩

def fraction (x : Binary64) : Nat × Nat :=
  if 0 ≤ x.exponent then (x.mantissa * Nat.pow 2 x.exponent.toNat, 1)
  else (x.mantissa, Nat.pow 2 (-x.exponent).toNat)

def isInteger (x : Binary64) : Bool :=
  let (num, den) := x.fraction
  num % den == 0

def floor (x : Binary64) : Nat :=
  let (num, den) := x.fraction
  num / den

/-- The number with all 53 bits of its mantissa in use, as far as its exponent allows. -/
def normalize (x : Binary64) : Binary64 :=
  let room := 52 - (x.mantissa.log2 : Int)
  let shift := min room (x.exponent - minExponent)
  if x.mantissa == 0 || shift ≤ 0 then x
  else ⟨x.mantissa * Nat.pow 2 shift.toNat, x.exponent - shift⟩

/-- Whether the decimal `d * 10 ^ e` lies among the reals that round to the number. -/
def readsBack (x : Binary64) (d : Nat) (e : Int) : Bool :=
  let (num, den) := x.fraction
  let narrow := x.mantissa == Nat.pow 2 52 && x.exponent > minExponent
  let unit := if 0 ≤ x.exponent then Nat.pow 2 x.exponent.toNat else 1
  let scaled := if 0 ≤ e then d * Nat.pow 10 e.toNat * den else d * den
  let scale := if 0 ≤ e then 1 else Nat.pow 10 (-e).toNat
  let low := if narrow then 4 * num - unit else 4 * num - 2 * unit
  let high := 4 * num + 2 * unit
  let value := 4 * scaled
  if x.mantissa % 2 == 0 then low * scale ≤ value && value ≤ high * scale
  else low * scale < value && value < high * scale

/-- The greatest power of ten that is not above `num / den`, from a first guess. -/
def decimalExponent (num den : Nat) : Int :=
  let digitsOf (n : Nat) : Nat := (Nat.toDigits 10 n).length
  let guess : Int := (digitsOf num : Int) - (digitsOf den : Int)
  let reaches (k : Int) : Bool :=
    if 0 ≤ k then den * Nat.pow 10 k.toNat ≤ num else den ≤ num * Nat.pow 10 (-k).toNat
  if reaches guess then guess else guess - 1

/-- The shortest decimal with at most `17 - fuel` digits more than one, searched from `n` digits
on. -/
def search (x : Binary64) (top : Int) : (fuel n : Nat) → Decimal
  | 0, n => ⟨0, top - n⟩
  | fuel + 1, n =>
    let (num, den) := x.fraction
    let e : Int := top + 1 - n
    let num' := if 0 ≤ e then num else num * Nat.pow 10 (-e).toNat
    let den' := if 0 ≤ e then den * Nat.pow 10 e.toNat else den
    let below := num' / den'
    let above := below + 1
    let belowIn := readsBack x below e
    let aboveIn := readsBack x above e
    let nearAbove := 2 * (num' % den') > den' || (2 * (num' % den') == den' && below % 2 == 1)
    if belowIn && aboveIn then ⟨if nearAbove then above else below, e⟩
    else if belowIn then ⟨below, e⟩
    else if aboveIn then ⟨above, e⟩
    else search x top fuel (n + 1)

def shortest (x : Binary64) : Decimal :=
  if x.mantissa == 0 then ⟨0, 0⟩
  else
    let x := x.normalize
    let (num, den) := x.fraction
    search x (decimalExponent num den) 18 1

end Binary64

end RouteSplit.Number
