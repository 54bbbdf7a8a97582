import Keymap.Value.Basic
import Keymap.Number.Numeral

/-!
Plain scalars of YAML: text without quotes that stands for null, a truth value or a number, and
for itself otherwise.
-/

set_option autoImplicit false

namespace Keymap.Yaml

def isDigit (c : Char) : Bool := '0' ≤ c && c ≤ '9'

def nullWords : List String := ["", "~", "null", "Null", "NULL"]

def trueWords : List String :=
  ["yes", "Yes", "YES", "true", "True", "TRUE", "on", "On", "ON"]

def falseWords : List String :=
  ["no", "No", "NO", "false", "False", "FALSE", "off", "Off", "OFF"]

def infinityWords : List String := [".inf", ".Inf", ".INF"]

def nanWords : List String := [".nan", ".NaN", ".NAN"]

/-- The value of a digit of any base up to sixteen. -/
def digitValue? (base : Nat) (c : Char) : Option Nat :=
  let value? := if isDigit c then some (c.toNat - 0x30)
    else if 'a' ≤ c && c ≤ 'f' then some (c.toNat - 0x57)
    else if 'A' ≤ c && c ≤ 'F' then some (c.toNat - 0x37)
    else none
  value?.filter fun value => value < base

/-- Digits with underscores among them. -/
def isRun (base : Nat) (text : List Char) : Bool :=
  text.all fun c => c = '_' || (digitValue? base c).isSome

def runValue (base : Nat) (text : List Char) : Nat :=
  (text.filterMap (digitValue? base)).foldl (fun value digit => base * value + digit) 0

/-- A part of a sexagesimal number that is not its first: one or two digits below sixty. -/
def isSixtieth (part : List Char) : Bool :=
  isRun 10 part && !part.contains '_' &&
    (part.length = 1 || (part.length = 2 && runValue 10 part < 60))

def startsDecimal (text : List Char) : Bool :=
  match text with
  | [] => false
  | c :: _ => isDigit c && c ≠ '0'

/-- An integer without its sign: binary, octal, hexadecimal, decimal or sexagesimal. -/
def readNatural? (text : List Char) : Option Nat :=
  match text with
  | ['0'] => some 0
  | '0' :: 'b' :: digits =>
      if !digits.isEmpty && isRun 2 digits then some (runValue 2 digits) else none
  | '0' :: 'x' :: digits =>
      if !digits.isEmpty && isRun 16 digits then some (runValue 16 digits) else none
  | '0' :: digits => if isRun 8 digits then some (runValue 8 digits) else none
  | _ => match Text.splitOn ':' text with
    | [] => none
    | first :: parts =>
        if startsDecimal first && isRun 10 first && parts.all isSixtieth then
          some (parts.foldl (fun value part => 60 * value + runValue 10 part) (runValue 10 first))
        else none

/-- The exponent of a decimal fraction, which has a sign. -/
def readExponent? : List Char → Option Int
  | [] => some 0
  | mark :: sign :: digits =>
      if (mark = 'e' || mark = 'E') && (sign = '+' || sign = '-') && !digits.isEmpty &&
          digits.all isDigit then
        let value : Int := runValue 10 digits
        some (if sign = '-' then -value else value)
      else none
  | _ => none

def isFractionChar (c : Char) : Bool := isDigit c || c = '_'

/-- A decimal fraction without its sign. The digits before the point may be missing if `bare`. -/
def readFraction? (negative bare : Bool) (text : List Char) : Option Float :=
  let whole := text.takeWhile isFractionChar
  match text.dropWhile isFractionChar with
  | '.' :: rest =>
      let places := rest.takeWhile isFractionChar
      let complete := match whole with
        | [] => bare && (places.head?.map isDigit).getD false
        | c :: _ => isDigit c
      if complete then do
        let exponent ← readExponent? (rest.dropWhile isFractionChar)
        let count := (places.filter isDigit).length
        some (Number.Binary.ofDecimal negative (runValue 10 (whole ++ places)) (exponent - count))
      else none
  | _ => none

def readNumber? (text : List Char) : Option Number :=
  let (negative, unsigned) := Number.splitSign text
  let word := String.ofList unsigned
  let signed := unsigned.length < text.length
  if infinityWords.contains word then some (.float (Number.Binary.infinity negative))
  else if !signed && nanWords.contains word then some (.float (Float.ofBits 0x7ff8000000000000))
  else match readFraction? negative (!signed) unsigned with
    | some value => some (.float value)
    | none => (readNatural? unsigned).map fun size =>
        let value : Int := size
        .int (if negative then -value else value)

/-- What a plain scalar stands for, unless it is itself. -/
def meaning? (text : List Char) : Option Value :=
  let word := String.ofList text
  if nullWords.contains word then some .null
  else if trueWords.contains word then some (.bool true)
  else if falseWords.contains word then some (.bool false)
  else (readNumber? text).map .number

/-- A date, which is none of the values here but is no plain text either. -/
def isDate (text : List Char) : Bool :=
  text.length = 10 && text.zipIdx.all fun (c, index) =>
    if index = 4 || index = 7 then c = '-' else isDigit c

/-- Words with a meaning of their own in mappings. -/
def reservedWords : List String := ["=", "<<"]

/-- Whether a text that is written without quotes is read back as itself. -/
def isPlainText (text : List Char) : Bool :=
  (meaning? text).isNone && !isDate text && !reservedWords.contains (String.ofList text)

def isBlank (c : Char) : Bool :=
  c = ' ' || c = '\t' || c = '\r' || c = '\n' || c.toNat = 0x85 || c.toNat = 0x2028 ||
    c.toNat = 0x2029

def startsBlank (text : List Char) : Bool := (text.head?.map isBlank).getD true

/-- Characters that a plain scalar cannot start with. -/
def indicators : List Char :=
  ['-', '?', ':', ',', '[', ']', '{', '}', '#', '&', '*', '!', '|', '>', '\'', '"', '%', '@',
   '\x60']

end Keymap.Yaml
