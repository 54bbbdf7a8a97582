import Keymap.Number.Decimal

/-!
Numbers as documents and expressions hold them: integers of any size and doubles. Comparison is
exact across the two kinds; arithmetic on integers is exact except for division, which rounds.
-/

set_option autoImplicit false

namespace Keymap

inductive Number where
  | int (value : Int)
  | float (value : Float)
deriving DecidableEq, Inhabited

namespace Number

/-- Why an operation on numbers has no result. -/
inductive Fault where
  | tooLargeForFloat
  | quotientTooLarge
  | divisionByZero
  | outsideDomain
  | infiniteIndex
  | nanIndex
  | tooManyDigits
deriving DecidableEq, Repr

def Fault.message : Fault → String
  | .tooLargeForFloat => "int too large to convert to float"
  | .quotientTooLarge => "integer division result too large for a float"
  | .divisionByZero => "division by zero"
  | .outsideDomain => "math domain error"
  | .infiniteIndex => "cannot convert float infinity to integer"
  | .nanIndex => "cannot convert float NaN to integer"
  | .tooManyDigits =>
      "Exceeds the limit (4300 digits) for integer string conversion; " ++
        "use sys.set_int_max_str_digits() to increase the limit"

/-- Integers of more digits are neither read nor written. -/
def maxDigits : Nat := 4300

/-- The message for an integer that is not read. -/
def overlongMessage (digits : Nat) : String :=
  "Exceeds the limit (4300 digits) for integer string conversion: value has " ++
    intText digits ++ " digits; use sys.set_int_max_str_digits() to increase the limit"

def fitsDigits (value : Int) : Bool := value.natAbs < tenTo maxDigits

/-- The exact value of a number on the extended line. -/
inductive Extent where
  | undefined
  | infinite (negative : Bool)
  /-- The value `significand * 2 ^ exponent`. -/
  | finite (significand exponent : Int)

def extent : Number → Extent
  | .int value => .finite value 0
  | .float x => match Binary.ofFloat x with
    | .nan => .undefined
    | .infinite negative => .infinite negative
    | .finite negative significand exponent =>
        .finite (if negative then -significand else significand) exponent

def compareFinite (a p b q : Int) : Ordering :=
  let low := min p q
  compare (a * twoTo (p - low).toNat) (b * twoTo (q - low).toNat)

/-- The order of two numbers by exact value; a value that is no number has no place in it. -/
def Extent.order : Extent → Extent → Option Ordering
  | .undefined, _ => none
  | _, .undefined => none
  | .infinite left, .infinite right => some (compare right left)
  | .infinite negative, .finite _ _ => some (if negative then .lt else .gt)
  | .finite _ _, .infinite negative => some (if negative then .gt else .lt)
  | .finite a p, .finite b q => some (compareFinite a p b q)

def order (left right : Number) : Option Ordering := left.extent.order right.extent

def equals (left right : Number) : Bool := left.order right == some .eq

def less (left right : Number) : Bool := left.order right == some .lt

def atMost (left right : Number) : Bool := left.less right || left.equals right

def isZero (number : Number) : Bool := number.equals (.int 0)

def isNaN : Number → Bool
  | .int _ => false
  | .float x => Binary.ofFloat x == .nan

/-- The integer that a double equals, if any. -/
def wholeValue? (x : Float) : Option Int :=
  match Binary.ofFloat x with
  | .finite negative significand exponent =>
      let divisor := twoTo (-exponent).toNat
      if significand % divisor = 0 then
        let size : Int := significand / divisor * twoTo exponent.toNat
        some (if negative then -size else size)
      else none
  | _ => none

/-- A double that equals an integer becomes that integer. -/
def settle : Number → Number
  | .int value => .int value
  | .float x => match wholeValue? x with
    | some value => .int value
    | none => .float x

def toFloat : Number → Except Fault Float
  | .float x => .ok x
  | .int value =>
      let x := Binary.nearest (value < 0) value.natAbs 1
      match Binary.ofFloat x with
      | .infinite _ => .error .tooLargeForFloat
      | _ => .ok x

def combine (onInts : Int → Int → Int) (onFloats : Float → Float → Float) :
    Number → Number → Except Fault Number
  | .int a, .int b => .ok (.int (onInts a b))
  | a, b => do
      let x ← a.toFloat
      let y ← b.toFloat
      return settle (.float (onFloats x y))

def add : Number → Number → Except Fault Number := combine (· + ·) (· + ·)

def sub : Number → Number → Except Fault Number := combine (· - ·) (· - ·)

def mul : Number → Number → Except Fault Number := combine (· * ·) (· * ·)

/-- The quotient, rounded to the nearest double. -/
def div (left right : Number) : Except Fault Number :=
  if right.isZero then .error .divisionByZero
  else match left, right with
    | .int a, .int b =>
        let x := Binary.nearest (decide (a < 0) != decide (b < 0)) a.natAbs b.natAbs
        match Binary.ofFloat x with
        | .infinite _ => .error .quotientTooLarge
        | _ => .ok (settle (.float x))
    | _, _ => do
        let x ← left.toFloat
        let y ← right.toFloat
        return settle (.float (x / y))

/-- The remainder of truncated division of two doubles; it has the sign of the first and is
exact. -/
def floatRemainder (x y : Float) : Except Fault Float :=
  match Binary.ofFloat x, Binary.ofFloat y with
  | .nan, _ => .ok x
  | _, .nan => .ok y
  | .infinite _, _ => .error .outsideDomain
  | .finite .., .infinite _ => .ok x
  | .finite negative a p, .finite _ b q =>
      let low := min p q
      let divisor := b * twoTo (q - low).toNat
      if divisor = 0 then .error .outsideDomain
      else
        let rest := a * twoTo (p - low).toNat % divisor
        .ok (Binary.nearest negative (rest * twoTo low.toNat) (twoTo (-low).toNat))

def mod (left right : Number) : Except Fault Number := do
  if right.isZero then throw .divisionByZero
  let x ← left.toFloat
  let y ← right.toFloat
  return settle (.float (← floatRemainder x y))

def neg : Number → Number
  | .int value => .int (-value)
  | .float x => .float (-x)

/-- The integer part of a number, as an index takes it. -/
def truncate : Number → Except Fault Int
  | .int value => .ok value
  | .float x => match Binary.ofFloat x with
    | .nan => .error .nanIndex
    | .infinite _ => .error .infiniteIndex
    | .finite negative significand exponent =>
        let size : Int := significand * twoTo exponent.toNat / twoTo (-exponent).toNat
        .ok (if negative then -size else size)

def text (special : FloatWords) : Number → String
  | .int value => intText value
  | .float x => floatText special x

end Number

end Keymap
