import RouteSplit.Number.Literal

/-!
# Scaled decimals

A decimal can be read in two steps, each of them rounded: its leading digits are taken as an
integer, and that is multiplied or divided by a power of ten. The result is not always the nearest
number, and which one it is can be seen where the number is written again.

- `leading`: the digits that fit into 64 bits;
- `Binary64.mul?`, `Binary64.div`: products and quotients, rounded;
- `scaled?`: the number that a decimal is read as.
-/

namespace RouteSplit.Number

namespace Binary64

/-- The rounded product, or nothing if that is too large. -/
def mul? (x y : Binary64) : Option Binary64 :=
  round? (x.fraction.1 * y.fraction.1) (x.fraction.2 * y.fraction.2)

/-- The rounded quotient. Divisors are at least one, so it is never too large. -/
def div (x y : Binary64) : Binary64 :=
  (round? (x.fraction.1 * y.fraction.2) (x.fraction.2 * y.fraction.1)).getD ⟨0, 0⟩

end Binary64

namespace Scaled

/-- The greatest power of ten that is a number. -/
def maxPower : Nat := 308

/-- The number nearest to `10 ^ k`. -/
def power (k : Nat) : Binary64 := (Binary64.round? (Nat.pow 10 k) 1).getD ⟨0, 0⟩

/-- Digits behind those of `n`, as long as the integer that they make stays below `2 ^ 64`: the
integer, and how many digits are left over. -/
def leading (n : Nat) : List Char → Nat × Nat
  | [] => (n, 0)
  | c :: rest =>
    let m := 10 * n + (c.toNat - '0'.toNat)
    if m < Nat.pow 2 64 then leading m rest else (n, rest.length + 1)

/-- `x / 10 ^ k`, in steps that each divide by a number. -/
def shrink (x : Binary64) (k : Nat) : Binary64 :=
  if k ≤ maxPower then x.div (power k)
  else if x.mantissa == 0 then x
  else shrink (x.div (power maxPower)) (k - maxPower)
termination_by k
decreasing_by simp [maxPower] at *; omega

/-- `n * 10 ^ e`, or nothing if that is too large. -/
def scale? (n : Nat) (e : Int) : Option Binary64 := do
  let x ← Binary64.round? n 1
  if e < 0 then return shrink x (-e).toNat
  else if e ≤ maxPower then x.mul? (power e.toNat)
  else if n == 0 then return x
  else none

end Scaled

/-- The number that a decimal with the given digits before and behind its point is read as, or
nothing if that is too large. Digits beyond 64 bits count before the point as zeros, and behind it
not at all. -/
def scaled? (whole fraction : List Char) (e : Int) : Option Binary64 :=
  let (n, cut) := Scaled.leading 0 whole
  let (m, left) := Scaled.leading n fraction
  Scaled.scale? m (e + cut - (fraction.length - left : Nat))

end RouteSplit.Number
