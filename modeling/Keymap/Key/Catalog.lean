import Keymap.Text.Words

/-!
The names of keys. A press is a key with modifiers before it, joined by plus signs; a binding is
a sequence of presses separated by blanks. Named keys and those of the number pad may be written
in any case, as may the bracketed names of letters, digits and function keys, which mean a place
on the keyboard whatever the layout.
-/

set_option autoImplicit false

namespace Keymap.Key

def numbered (before after : String) (numbers : List Nat) : List String :=
  numbers.map fun number => before ++ toString number ++ after

def digits : List Nat := List.range 10

def functionNumbers : List Nat := (List.range 19).map (· + 1)

def letters (first : Char) : List String :=
  (List.range 26).map fun index => String.ofList [Char.ofNat (first.toNat + index)]

def functionKeys : List String := numbered "f" "" functionNumbers

def punctuation : List String := ["\x60", "-", "=", "[", "]", "\\", ";", "'", ",", ".", "/"]

def namedKeys : List String :=
  ["left", "up", "right", "down", "pageup", "pagedown", "end", "home", "tab", "enter", "escape",
   "space", "backspace", "delete", "pausebreak", "capslock", "insert"]

def padKeys : List String :=
  numbered "numpad" "" digits ++
    ["numpad_multiply", "numpad_add", "numpad_separator", "numpad_subtract", "numpad_decimal",
     "numpad_divide"]

def bracketed (names : List String) : List String := names.map fun name => "[" ++ name ++ "]"

def placedFunctionKeys : List String := bracketed (numbered "F" "" functionNumbers)

def placedLetters : List String := bracketed ((letters 'A').map ("Key" ++ ·))

def placedDigits : List String := bracketed (numbered "Digit" "" digits)

def placedPadDigits : List String := bracketed (numbered "Numpad" "" digits)

def placedNamedKeys : List String := bracketed
  ["Backquote", "Minus", "Equal", "BracketLeft", "BracketRight", "Backslash", "Semicolon",
   "Quote", "Comma", "Period", "Slash", "ArrowLeft", "ArrowUp", "ArrowRight", "ArrowDown",
   "PageUp", "PageDown", "End", "Home", "Tab", "Enter", "Escape", "Space", "Backspace",
   "Delete", "Pause", "CapsLock", "Insert"]

def placedPadOperators : List String := bracketed
  ["NumpadMultiply", "NumpadAdd", "NumpadComma", "NumpadSubtract", "NumpadDecimal",
   "NumpadDivide"]

/-- All names, in the order in which patterns list them. -/
def catalog : List String :=
  functionKeys ++ digits.map toString ++ letters 'a' ++ punctuation ++ namedKeys ++ padKeys ++
    placedFunctionKeys ++ placedLetters ++ placedDigits ++ placedNamedKeys ++ placedPadDigits ++
    placedPadOperators

def modifiers : List String := ["ctrl", "shift", "alt", "cmd", "win", "meta"]

/-- Names that are written as they stand. -/
def exactNames : List String :=
  letters 'a' ++ digits.map toString ++ punctuation ++ placedNamedKeys ++ placedPadOperators

/-- Names that may be written in any case, folded. -/
def foldedNames : List (List Char) :=
  (functionKeys ++ namedKeys ++ padKeys ++ placedFunctionKeys ++ placedLetters ++ placedDigits ++
    placedPadDigits).map fun name => name.toList.map Text.fold

def isKey (name : List Char) : Bool :=
  exactNames.contains (String.ofList name) || foldedNames.contains (name.map Text.fold)

def isModifier (name : List Char) : Bool :=
  modifiers.contains (String.ofList (name.map Text.fold))

/-- Whether a text is a key with modifiers before it. -/
def isPress (text : List Char) : Bool :=
  let parts := Text.splitOn '+' text
  parts.dropLast.all isModifier && (parts.getLast?.map isKey).getD false

/-- Whether a text is a sequence of presses. -/
def isSequence (text : List Char) : Bool :=
  let presses := Text.words text
  !presses.isEmpty && presses.all isPress

/-- The small letters of a key name. The dotted capital i becomes an i and a dot above it. -/
def lower (text : List Char) : List Char :=
  text.flatMap fun c =>
    if c.toNat = 0x130 then ['i', '\u0307']
    else if c.toNat = 0x212a then ['k']
    else [Text.lowerAscii c]

/-- The form in which a sequence is kept: single blanks and small letters. -/
def normalize (text : List Char) : String :=
  String.ofList (lower (Text.joined " " ((Text.words text).map String.ofList)).toList)

end Keymap.Key
