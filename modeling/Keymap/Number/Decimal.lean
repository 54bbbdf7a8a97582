import Keymap.Number.Binary

/-!
The decimal text of a double: the fewest digits that read back as the same double, and of those
the digits nearest to it. Numbers from `1e-04` up to below `1e+16` are written positionally.
-/

set_option autoImplicit false

namespace Keymap.Number

/-- The decimal `digits * 10 ^ exponent`. -/
structure Decimal where
  digits : Nat
  exponent : Int
deriving DecidableEq, Repr

namespace Decimal

/-- The doubles near a positive one, in units of a quarter of its last place. The bounds of the
reals that round to it belong to it when its significand is even. -/
structure Neighbourhood where
  low : Nat
  value : Nat
  high : Nat
  closed : Bool
  /-- The power of two of one unit. -/
  unit : Int

def neighbourhood (significand : Nat) (exponent : Int) : Neighbourhood :=
  let narrow := significand = twoTo 52 && -1074 < exponent
  { low := 4 * significand - (if narrow then 1 else 2)
    value := 4 * significand
    high := 4 * significand + 2
    closed := significand % 2 = 0
    unit := exponent - 2 }

/-- Brings a count of units and a count of steps of `10 ^ power` to one scale. -/
def unitScale (unit power : Int) : Nat := twoTo unit.toNat * tenTo (-power).toNat

def stepScale (unit power : Int) : Nat := tenTo power.toNat * twoTo (-unit).toNat

def Neighbourhood.holds (near : Neighbourhood) (power : Int) (count : Nat) : Bool :=
  let point := count * stepScale near.unit power
  let low := near.low * unitScale near.unit power
  let high := near.high * unitScale near.unit power
  if near.closed then low ≤ point && point ≤ high else low < point && point < high

/-- The nearest multiple of `10 ^ power` that reads back, if one of the two neighbours does. -/
def Neighbourhood.onGrid (near : Neighbourhood) (power : Int) : Option Nat :=
  let step := stepScale near.unit power
  let value := near.value * unitScale near.unit power
  let below := value / step
  let above := below + 1
  match near.holds power below, near.holds power above with
  | true, true =>
      let remainder := value - below * step
      if 2 * remainder < step || (2 * remainder = step && below % 2 = 0) then some below
      else some above
  | true, false => some below
  | false, true => some above
  | false, false => none

/-- The power of ten just above the value. -/
def Neighbourhood.magnitude (near : Neighbourhood) : Int :=
  let bits := (Nat.log2 near.value : Int) + near.unit
  let rough := Int.fdiv (bits * 30103) 100000
  let candidates := [rough - 1, rough, rough + 1, rough + 2]
  (candidates.find? fun power =>
    near.value * unitScale near.unit power < stepScale near.unit power).getD (rough + 3)

def dropZeros (digits : Nat) (exponent : Int) : Nat → Decimal
  | 0 => ⟨digits, exponent⟩
  | fuel + 1 =>
      if digits % 10 = 0 && digits ≠ 0 then dropZeros (digits / 10) (exponent + 1) fuel
      else ⟨digits, exponent⟩

/-- Grids of one to seventeen digits are tried in turn; seventeen always suffice. -/
def shortest (significand : Nat) (exponent : Int) : Decimal :=
  let near := neighbourhood significand exponent
  let top := near.magnitude
  let found := (List.range 17).findSome? fun (count : Nat) =>
    let power := top - ((count : Nat) + 1 : Int)
    (near.onGrid power).map fun digits => (digits, power)
  match found with
  | some (digits, power) => dropZeros digits power 18
  | none => ⟨0, 0⟩

end Decimal

def digitChars (value : Nat) : List Char := Nat.toDigits 10 value

def intText (value : Int) : String :=
  if value < 0 then String.ofList ('-' :: digitChars value.natAbs)
  else String.ofList (digitChars value.natAbs)

def exponentText (exponent : Int) : List Char :=
  let digits := digitChars exponent.natAbs
  let padded := if digits.length < 2 then '0' :: digits else digits
  (if exponent < 0 then '-' else '+') :: padded

/-- Places the point in the digits of a decimal. -/
def decimalText (decimal : Decimal) : List Char :=
  let digits := digitChars decimal.digits
  let point := digits.length + decimal.exponent
  if -4 < point && point ≤ 16 then
    if point ≤ 0 then '0' :: '.' :: List.replicate (-point).toNat '0' ++ digits
    else if digits.length ≤ point then
      digits ++ List.replicate (point - digits.length).toNat '0' ++ ['.', '0']
    else digits.take point.toNat ++ '.' :: digits.drop point.toNat
  else
    let lead := digits.take 1
    let tail := digits.drop 1
    lead ++ (if tail.isEmpty then [] else '.' :: tail) ++ 'e' :: exponentText (point - 1)

/-- The words for the doubles that no decimal stands for. -/
structure FloatWords where
  nan : String
  infinity : String

def floatText (special : FloatWords) (x : Float) : String :=
  let signed (negative : Bool) (text : String) := if negative then "-" ++ text else text
  match Binary.ofFloat x with
  | .nan => special.nan
  | .infinite negative => signed negative special.infinity
  | .finite negative 0 _ => signed negative "0.0"
  | .finite negative significand exponent =>
      signed negative (String.ofList (decimalText (Decimal.shortest significand exponent)))

end Keymap.Number
