import Keymap.Number.Basic
import Keymap.Text.Words

/-!
Numerals in text. Digits of every script count; single underscores may stand between digits.
-/

set_option autoImplicit false

namespace Keymap.Number

open Keymap.Text

def ofDigits (digits : List Nat) : Nat := digits.foldl (fun value digit => 10 * value + digit) 0

/-- Removes the underscores, each of which must stand between two digits. -/
def dropUnderscores (afterDigit : Bool) : List Char → Option (List Char)
  | [] => some []
  | c :: rest =>
      if c = '_' then
        if afterDigit && (rest.head?.map isDigit).getD false then dropUnderscores false rest
        else none
      else (dropUnderscores (isDigit c) rest).map (c :: ·)

/-- The sign of a numeral and what follows it. -/
def splitSign : List Char → Bool × List Char
  | '-' :: rest => (true, rest)
  | '+' :: rest => (false, rest)
  | text => (false, text)

/-- The leading digits and what follows them. -/
def splitDigits (text : List Char) : List Nat × List Char :=
  ((text.takeWhile isDigit).filterMap digitValue?, text.dropWhile isDigit)

def readInt? (text : List Char) : Option Int := do
  let plain ← dropUnderscores false text
  let (negative, unsigned) := splitSign plain
  let (digits, rest) := splitDigits unsigned
  if digits.isEmpty || !rest.isEmpty || maxDigits < digits.length then none
  else
    let value : Int := ofDigits digits
    some (if negative then -value else value)

/-- The exponent part of a numeral; a letter without digits is no exponent. -/
def splitExponent : List Char → Int × List Char
  | [] => (0, [])
  | c :: rest =>
      if c = 'e' || c = 'E' then
        let (negative, unsigned) := splitSign rest
        let (digits, after) := splitDigits unsigned
        if digits.isEmpty then (0, c :: rest)
        else
          let value : Int := ofDigits digits
          (if negative then -value else value, after)
      else (0, c :: rest)

def readUnsignedFloat? (negative : Bool) (text : List Char) : Option Float :=
  let (whole, afterWhole) := splitDigits text
  let (fraction, afterFraction) := match afterWhole with
    | '.' :: rest => splitDigits rest
    | rest => ([], rest)
  let (exponent, rest) := splitExponent afterFraction
  if (whole.isEmpty && fraction.isEmpty) || !rest.isEmpty then none
  else some (Binary.ofDecimal negative (ofDigits (whole ++ fraction)) (exponent - fraction.length))

def readFloat? (text : List Char) : Option Float := do
  let plain ← dropUnderscores false text
  let (negative, unsigned) := splitSign plain
  let word := String.ofList (unsigned.map lowerAscii)
  if word = "inf" || word = "infinity" then some (Binary.infinity negative)
  else if word = "nan" then some (Float.ofBits 0x7ff8000000000000)
  else readUnsignedFloat? negative unsigned

/-- A text that is one numeral between blanks; the empty text counts as nought. -/
def ofText? (text : String) : Option Number :=
  let inner := trim text.toList
  if inner.isEmpty then some (.int 0)
  else match readInt? inner with
    | some value => some (.int value)
    | none => (readFloat? inner).map .float

end Keymap.Number
