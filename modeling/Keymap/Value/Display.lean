import Keymap.Value.Basic
import Keymap.Text.Quoted
import Keymap.Text.Words

/-!
The text of a value in messages: words for the constants, brackets around lists and mappings,
quotes around text that stands inside another value.
-/

set_option autoImplicit false

namespace Keymap.Value

open Keymap.Text

def messageWords : Number.FloatWords := ⟨"nan", "inf"⟩

mutual

def shown : Value → String
  | .undefined => "undefined"
  | .null => "None"
  | .bool true => "True"
  | .bool false => "False"
  | .number amount => amount.text messageWords
  | .text content => quoted content
  | .list items => "[" ++ joined ", " (shownItems items) ++ "]"
  | .object fields => "\x7b" ++ joined ", " (shownFields fields) ++ "\x7d"

def shownItems : List Value → List String
  | [] => []
  | item :: rest => shown item :: shownItems rest

def shownFields : List (String × Value) → List String
  | [] => []
  | (name, value) :: rest => (quoted name ++ ": " ++ shown value) :: shownFields rest

end

/-- Text stands for itself; every other value is shown. -/
def display : Value → String
  | .text content => content
  | value => shown value

/-- A list of names as messages show it. -/
def shownNames (names : List String) : String :=
  "[" ++ joined ", " (names.map quoted) ++ "]"

end Keymap.Value
