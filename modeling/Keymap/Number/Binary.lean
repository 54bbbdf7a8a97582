import Keymap.Number.Power

/-!
Double precision numbers as exact binary fractions: taking one apart into a significand and a
power of two, and rounding a quotient of naturals to the nearest double, half-way cases to the
even significand.
-/

set_option autoImplicit false

namespace Keymap.Number

/-- What the bits of a double stand for. A finite one is `significand * 2 ^ exponent`. -/
inductive Binary where
  | nan
  | infinite (negative : Bool)
  | finite (negative : Bool) (significand : Nat) (exponent : Int)
deriving DecidableEq, Repr

namespace Binary

def ofFloat (x : Float) : Binary :=
  let bits := x.toBits.toNat
  let negative := bits / twoTo 63 == 1
  let biased : Nat := bits / twoTo 52 % twoTo 11
  let fraction := bits % twoTo 52
  if biased = 2047 then
    if fraction = 0 then .infinite negative else .nan
  else if biased = 0 then .finite negative fraction (-1074)
  else .finite negative (twoTo 52 + fraction) ((biased : Int) - 1075)

def signBit (negative : Bool) : Nat := if negative then twoTo 63 else 0

def infinity (negative : Bool) : Float :=
  Float.ofBits (UInt64.ofNat (signBit negative + 2047 * twoTo 52))

/-- The quotient of `numerator * 2 ^ (-exponent)` by `denominator`, rounded to the nearest
natural, half-way cases to the even one. -/
def roundedQuotient (numerator denominator : Nat) (exponent : Int) : Nat :=
  let scaled := numerator * twoTo (-exponent).toNat
  let divisor := denominator * twoTo exponent.toNat
  let quotient := scaled / divisor
  let twice := 2 * (scaled % divisor)
  if twice < divisor || (twice = divisor && quotient % 2 = 0) then quotient else quotient + 1

/-- The exponent at which the quotient has a significand of at most 53 bits, or of 54. -/
def roughExponent (numerator denominator : Nat) : Int :=
  max ((Nat.log2 numerator : Int) - Nat.log2 denominator - 53) (-1074)

/-- The double nearest to the quotient; an infinity beyond the largest double. -/
def nearest (negative : Bool) (numerator denominator : Nat) : Float :=
  if numerator = 0 then Float.ofBits (UInt64.ofNat (signBit negative))
  else
    let rough := roughExponent numerator denominator
    let whole := numerator * twoTo (-rough).toNat / (denominator * twoTo rough.toNat)
    let exponent := if whole < twoTo 53 then rough else rough + 1
    let significand := roundedQuotient numerator denominator exponent
    let bits := (exponent + 1074).toNat * twoTo 52 + significand
    if 2047 * twoTo 52 ≤ bits then infinity negative
    else Float.ofBits (UInt64.ofNat (signBit negative + bits))

/-- The double nearest to `significand * 10 ^ exponent`. -/
def ofDecimal (negative : Bool) (significand : Nat) (exponent : Int) : Float :=
  let size := (Nat.log2 significand : Int)
  -- Ten is more than 2 ^ 3 and less than 2 ^ 4, so far outside the range no power is formed.
  if 0 < exponent && 1100 < size + 3 * exponent then
    if significand = 0 then nearest negative 0 1 else infinity negative
  else if exponent < 0 && size + 3 * exponent < -1200 then nearest negative 0 1
  else nearest negative (significand * tenTo exponent.toNat) (tenTo (-exponent).toNat)

end Binary

end Keymap.Number
