import Keymap.Pattern.Source
import Keymap.Text.Named

/-!
Escapes and sets. An escape is a character by its code, a class of characters, an anchor or a
reference to a group; a set holds characters, ranges and classes.
-/

set_option autoImplicit false

namespace Keymap.Pattern

def isOctal (c : Char) : Bool := '0' ≤ c && c ≤ '7'

def isDecimal (c : Char) : Bool := '0' ≤ c && c ≤ '9'

def isHex (c : Char) : Bool :=
  isDecimal c || ('a' ≤ c && c ≤ 'f') || ('A' ≤ c && c ≤ 'F')

def digitOf (c : Char) : Nat :=
  if isDecimal c then c.toNat - 0x30
  else if 'a' ≤ c && c ≤ 'f' then c.toNat - 0x57
  else c.toNat - 0x37

def valueOf (base : Nat) (digits : List Char) : Nat :=
  digits.foldl (fun value c => base * value + digitOf c) 0

def isAsciiLetter (c : Char) : Bool := ('a' ≤ c && c ≤ 'z') || ('A' ≤ c && c ≤ 'Z')

def controlEscape? : Char → Option Nat
  | 'a' => some 0x07
  | 'b' => some 0x08
  | 'f' => some 0x0c
  | 'n' => some 0x0a
  | 'r' => some 0x0d
  | 't' => some 0x09
  | 'v' => some 0x0b
  | '\\' => some 0x5c
  | _ => none

def category? : Char → Option SetItem
  | 'd' => some (.category false .digit)
  | 'D' => some (.category true .digit)
  | 's' => some (.category false .space)
  | 'S' => some (.category true .space)
  | 'w' => some (.category false .word)
  | 'W' => some (.category true .word)
  | _ => none

def anchor? : Char → Option Anchor
  | 'A' => some .textStart
  | 'b' => some .boundary
  | 'B' => some .inside
  | 'Z' => some .textEnd
  | _ => none

def escapeText (letter : Char) (digits : List Char) : String :=
  String.ofList ('\\' :: letter :: digits)

/-- A code written with a fixed number of hexadecimal digits. -/
def readCode (letter : Char) (width : Nat) : Reading Nat := do
  let digits ← takeClass isHex width
  if digits.length ≠ width then
    refuse (.incompleteEscape (escapeText letter digits)) (digits.length + 2)
  let code := valueOf 16 digits
  if 0x110000 ≤ code then refuse (.badEscape (escapeText letter digits)) (digits.length + 2)
  return code

/-- A character by its name in braces; only the ASCII characters are known by name. -/
def readCharacterName : Reading Nat := do
  if !(← accept '\x7b') then refuse (.missing "\x7b") 0
  let name ← readName '\x7d' "character name"
  match Text.named? name with
  | some code => return code
  | none => refuse (.unknownCharacterName (String.ofList name)) (name.length + 4)

def hexEscape? : Char → Option Nat
  | 'x' => some 2
  | 'u' => some 4
  | 'U' => some 8
  | _ => none

def readOtherEscape (letter : Char) : Reading Nat := do
  if isAsciiLetter letter then refuse (.badEscape (escapeText letter [])) 2
  return letter.toNat

/-- An escape inside a set, whose backslash and letter have been taken. -/
def readSetEscape (letter : Char) : Reading SetItem := do
  match controlEscape? letter, category? letter, hexEscape? letter with
  | some code, _, _ => return .char code
  | _, some item, _ => return item
  | _, _, some width => return .char (← readCode letter width)
  | _, _, _ =>
      if letter = 'N' then return .char (← readCharacterName)
      if isOctal letter then
        let digits ← takeClass isOctal 2
        let code := valueOf 8 (letter :: digits)
        if 0xff < code then
          refuse (.octalTooLarge (escapeText letter digits)) (digits.length + 2)
        return .char code
      if isDecimal letter then refuse (.badEscape (escapeText letter [])) 2
      return .char (← readOtherEscape letter)

def oneChar (code : Nat) : Node := .set false [.char code]

def closedGroup (source : Source) (group : Nat) : Bool :=
  ((source.groups[group]?).getD none).isSome

/-- A group that is asked for inside a look-behind must have been closed before it. -/
def checkLookBehind (group : Nat) : Reading Unit := do
  let source ← get
  match source.lookBehind with
  | none => return
  | some bound =>
      if !(closedGroup source group) then refuse .openGroup 0
      if bound ≤ group then refuse .groupInLookBehind 0

def readReference (group back : Nat) : Reading Node := do
  let source ← get
  if source.groups.length ≤ group then refuse (.invalidReference group) (back - 1)
  if !(closedGroup source group) then refuse .openGroup back
  checkLookBehind group
  return .reference group

/-- A digit escape: three octal digits are a code, all else refers to a group. -/
def readDigitEscape (letter : Char) : Reading Node := do
  let second ← takeClass isDecimal 1
  let third ← match second with
    | [c] => if isOctal letter && isOctal c then takeClass isOctal 1 else pure []
    | _ => pure []
  let digits := second ++ third
  if third.length = 1 then
    let code := valueOf 8 (letter :: digits)
    if 0xff < code then refuse (.octalTooLarge (escapeText letter digits)) 4
    return oneChar code
  else readReference (valueOf 10 (letter :: digits)) (digits.length + 2)

/-- An escape outside of sets, whose backslash and letter have been taken. -/
def readEscape (letter : Char) : Reading Node := do
  match anchor? letter, category? letter, controlEscape? letter with
  | some anchor, _, _ => return .anchor anchor
  | _, some item, _ => return .set false [item]
  | _, _, some code => return oneChar code
  | _, _, _ => match hexEscape? letter with
    | some width => return oneChar (← readCode letter width)
    | none =>
        if letter = 'N' then return oneChar (← readCharacterName)
        else if letter = '0' then
          return oneChar (valueOf 8 (← takeClass isOctal 2))
        else if isDecimal letter then readDigitEscape letter
        else return oneChar (← readOtherEscape letter)

/-- One member of a set: an escape or a character, given as a token. -/
def readMember : List Char → Reading SetItem
  | ['\\', letter] => readSetEscape letter
  | [c] => return .char c.toNat
  | _ => return .char 0

/-- The members of a set up to its closing bracket, which right at the start is a member. -/
def readSet (opening : Nat) (items : List SetItem) : Nat → Reading (List SetItem)
  | 0 => return items
  | fuel + 1 => do
      let unterminated : Reading (List SetItem) := do
        throw (.malformed .unterminatedSet (some opening))
      let this ← take
      if this.isEmpty then unterminated
      else if this = [']'] && !items.isEmpty then return items
      else
        let low ← readMember this
        if ← accept '-' then
          let that ← take
          if that.isEmpty then unterminated
          else if that = [']'] then return items ++ [low, .char '-'.toNat]
          else
            let high ← readMember that
            let bad : Reading (List SetItem) :=
              refuse (.badRange (String.ofList this) (String.ofList that))
                (this.length + 1 + that.length)
            match low, high with
            | .char first, .char last =>
                if last < first then bad
                else readSet opening (items ++ [.range first last]) fuel
            | _, _ => bad
        else readSet opening (items ++ [low]) fuel

end Keymap.Pattern
