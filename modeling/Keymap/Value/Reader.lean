import Keymap.Value.Basic
import Keymap.Number.Numeral

/-!
Reading JSON text. A fault names what was expected and the number of characters that were left
when it was missed; the reader spends one unit of fuel per value, item or field, each of which
takes at least one character. A text of JSON may hold the escape of a surrogate that stands alone,
which no text here can: it is read as U+FFFD.
-/

set_option autoImplicit false

namespace Keymap.Json

inductive Expectation where
  | value
  | name
  | colon
  | comma
  | closedString
  | printable
  | escape
  | unicodeEscape
  | noMore
  | noMark
deriving DecidableEq, Repr

def Expectation.message : Expectation → String
  | .value => "Expecting value"
  | .name => "Expecting property name enclosed in double quotes"
  | .colon => "Expecting ':' delimiter"
  | .comma => "Expecting ',' delimiter"
  | .closedString => "Unterminated string starting at"
  | .printable => "Invalid control character at"
  | .escape => "Invalid \\escape"
  | .unicodeEscape => "Invalid \\uXXXX escape"
  | .noMore => "Extra data"
  | .noMark => "Unexpected UTF-8 BOM (decode using utf-8-sig)"

inductive Fault where
  | missed (expected : Expectation) (left : Nat)
  | tooManyDigits (digits : Nat)

def miss {α : Type} (expected : Expectation) (rest : List Char) : Except Fault α :=
  .error (.missed expected rest.length)

def isSpace (c : Char) : Bool := c = ' ' || c = '\t' || c = '\n' || c = '\r'

def skipSpace (text : List Char) : List Char := text.dropWhile isSpace

def hexValue? (c : Char) : Option Nat :=
  if '0' ≤ c && c ≤ '9' then some (c.toNat - 0x30)
  else if 'a' ≤ c && c ≤ 'f' then some (c.toNat - 0x57)
  else if 'A' ≤ c && c ≤ 'F' then some (c.toNat - 0x37)
  else none

/-- Four hexadecimal digits, with at least one character after them. -/
def readUnit? : List Char → Option (Nat × List Char)
  | a :: b :: c :: d :: next :: rest => do
      let unit := 16 * (16 * (16 * (← hexValue? a) + (← hexValue? b)) + (← hexValue? c)) +
        (← hexValue? d)
      some (unit, next :: rest)
  | _ => none

/-- The character of one escape. A surrogate is none, and U+FFFD stands in its place. -/
def ofUnit (unit : Nat) : Char :=
  if 0xd800 ≤ unit && unit < 0xe000 then '\ufffd' else Char.ofNat unit

def simpleEscape? : Char → Option Char
  | '"' => some '"'
  | '\\' => some '\\'
  | '/' => some '/'
  | 'b' => some '\x08'
  | 'f' => some '\x0c'
  | 'n' => some '\n'
  | 'r' => some '\r'
  | 't' => some '\t'
  | _ => none

/-- The characters up to the closing quote. `opening` is the text from the opening quote on. Two
escaped halves of a character beyond sixteen bits make one character. -/
def readChars (opening : List Char) : Nat → List Char → Except Fault (List Char × List Char)
  | 0, _ => miss .closedString opening
  | fuel + 1, text => match text with
    | [] => miss .closedString opening
    | '"' :: rest => .ok ([], rest)
    | '\\' :: 'u' :: rest => match readUnit? rest with
      | none => miss .unicodeEscape ('u' :: rest)
      | some (unit, after) =>
          let paired : Except Fault (Char × List Char) :=
            if 0xd800 ≤ unit && unit < 0xdc00 then match after with
              | '\\' :: 'u' :: tail =>
                  if tail.length < 5 then .ok (ofUnit unit, after)
                  else match readUnit? tail with
                    | none => miss .unicodeEscape ('u' :: tail)
                    | some (low, final) =>
                        if 0xdc00 ≤ low && low < 0xe000 then
                          .ok (Char.ofNat (0x10000 + (unit - 0xd800) * 0x400 + (low - 0xdc00)), final)
                        else .ok (ofUnit unit, after)
              | _ => .ok (ofUnit unit, after)
            else .ok (ofUnit unit, after)
          match paired with
          | .error fault => .error fault
          | .ok (c, next) => do
              let (chars, final) ← readChars opening fuel next
              return (c :: chars, final)
    | ['\\'] => miss .closedString opening
    | '\\' :: c :: rest => match simpleEscape? c with
      | none => miss .escape ('\\' :: c :: rest)
      | some meant => do
          let (chars, final) ← readChars opening fuel rest
          return (meant :: chars, final)
    | c :: rest =>
        if c.toNat < 0x20 then miss .printable (c :: rest)
        else do
          let (chars, final) ← readChars opening fuel rest
          return (c :: chars, final)

/-- Reads a string whose opening quote has just been passed. -/
def readString (text : List Char) : Except Fault (String × List Char) := do
  let (chars, rest) ← readChars ('"' :: text) (text.length + 1) text
  return (String.ofList chars, rest)

def isAsciiDigit (c : Char) : Bool := '0' ≤ c && c ≤ '9'

def asciiDigits (text : List Char) : List Nat × List Char :=
  ((text.takeWhile isAsciiDigit).map fun c => c.toNat - 0x30, text.dropWhile isAsciiDigit)

/-- The fraction of a number; a point without digits after it does not belong to the number. -/
def readFraction : List Char → Option (List Nat) × List Char
  | '.' :: rest => match asciiDigits rest with
    | ([], _) => (none, '.' :: rest)
    | (digits, after) => (some digits, after)
  | rest => (none, rest)

def readExponent : List Char → Option Int × List Char
  | [] => (none, [])
  | c :: rest =>
      if c = 'e' || c = 'E' then
        let (negative, unsigned) := Number.splitSign rest
        match asciiDigits unsigned with
        | ([], _) => (none, c :: rest)
        | (digits, after) =>
            let value : Int := Number.ofDigits digits
            (some (if negative then -value else value), after)
      else (none, c :: rest)

/-- Reads a number whose sign has been passed; `text` starts with its first digit. -/
def readNumber (negative : Bool) (text : List Char) : Except Fault (Value × List Char) := do
  let (whole, afterWhole) := match text with
    | '0' :: rest => ([0], rest)
    | _ => asciiDigits text
  let (fraction, afterFraction) := readFraction afterWhole
  let (exponent, rest) := readExponent afterFraction
  match fraction, exponent with
  | none, none =>
      if Number.maxDigits < whole.length then throw (.tooManyDigits whole.length)
      let value : Int := Number.ofDigits whole
      return (Value.ofInt (if negative then -value else value), rest)
  | _, _ =>
      let places := fraction.getD []
      let power := exponent.getD 0 - places.length
      return (.number (.float (Number.Binary.ofDecimal negative
        (Number.ofDigits (whole ++ places)) power)), rest)

def constants : List (String × Value) :=
  [("null", .null), ("true", .bool true), ("false", .bool false),
   ("NaN", .number (.float (Float.ofBits 0x7ff8000000000000))),
   ("Infinity", .number (.float (Number.Binary.infinity false))),
   ("-Infinity", .number (.float (Number.Binary.infinity true)))]

def readConstant? (text : List Char) : Option (Value × List Char) :=
  constants.findSome? fun (word, value) =>
    if word.toList.isPrefixOf text then some (value, text.drop word.length) else none

def readScalar (text : List Char) : Except Fault (Value × List Char) :=
  match readConstant? text with
  | some found => .ok found
  | none => match text with
    | '-' :: c :: rest =>
        if isAsciiDigit c then readNumber true (c :: rest) else miss .value text
    | c :: _ => if isAsciiDigit c then readNumber false text else miss .value text
    | [] => miss .value text

mutual

/-- Reads one value at the start of the text. -/
def readValue : Nat → List Char → Except Fault (Value × List Char)
  | 0, text => miss .value text
  | fuel + 1, text => match text with
    | '"' :: rest => do
        let (string, after) ← readString rest
        return (.text string, after)
    | '[' :: rest => match skipSpace rest with
      | ']' :: after => .ok (.list [], after)
      | first => do
          let (items, after) ← readItems fuel first
          return (.list items, after)
    | '{' :: rest => match skipSpace rest with
      | '}' :: after => .ok (.object [], after)
      | first => do
          let (fields, after) ← readFields [] fuel first
          return (.object fields, after)
    | _ => readScalar text

def readItems : Nat → List Char → Except Fault (List Value × List Char)
  | 0, text => miss .value text
  | fuel + 1, text => do
      let (item, afterItem) ← readValue fuel text
      match skipSpace afterItem with
      | ']' :: after => return ([item], after)
      | ',' :: after =>
          let (items, final) ← readItems fuel (skipSpace after)
          return (item :: items, final)
      | rest => miss .comma rest

/-- Of two fields with one name the later value counts. -/
def readFields (known : Fields) : Nat → List Char → Except Fault (Fields × List Char)
  | 0, text => miss .name text
  | fuel + 1, text => match text with
    | '"' :: rest => do
        let (name, afterName) ← readString rest
        match skipSpace afterName with
        | ':' :: beforeValue =>
            let (value, afterValue) ← readValue fuel (skipSpace beforeValue)
            let fields := known.insert name value
            match skipSpace afterValue with
            | '}' :: after => return (fields, after)
            | ',' :: after => readFields fields fuel (skipSpace after)
            | rest => miss .comma rest
        | rest => miss .colon rest
    | _ => miss .name text

end

/-- Reads a text that holds one value and blanks around it. -/
def readAll (text : List Char) : Except Fault Value := do
  if text.head? = some '\ufeff' then miss .noMark text
  let (value, after) ← readValue (text.length + 1) (skipSpace text)
  match skipSpace after with
  | [] => return value
  | rest => miss .noMore rest

/-- The line, column and index of a fault, for its message. -/
def place (text : List Char) (left : Nat) : String :=
  let index := text.length - left
  let before := text.take index
  let line := before.count '\n' + 1
  let column := (before.reverse.takeWhile fun c => c ≠ '\n').length + 1
  ": line " ++ Number.intText line ++ " column " ++ Number.intText column ++
    " (char " ++ Number.intText index ++ ")"

end Keymap.Json
