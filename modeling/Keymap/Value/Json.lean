import Keymap.Value.Basic
import Keymap.Text.Digest
import Keymap.Text.Words
import Keymap.Sorting

/-!
JSON text of a value. Everything beyond printable ASCII is escaped, and a style fixes the
separators, the indentation and whether fields are sorted by name.
-/

set_option autoImplicit false

namespace Keymap.Json

open Keymap.Text

structure Style where
  itemSeparator : String
  nameSeparator : String
  /-- The number of blanks per level; none keeps everything on one line. -/
  indent : Option Nat
  sorted : Bool

/-- The text that digests are taken of. -/
def compact : Style := ⟨",", ":", none, true⟩

/-- The text that templates splice. -/
def spaced : Style := ⟨", ", ": ", none, true⟩

/-- The text that a value of an expression is printed as. -/
def unsorted : Style := ⟨", ", ": ", none, false⟩

/-- The text of compiled documents. -/
def pretty : Style := ⟨",", ": ", some 2, true⟩

def jsonWords : Number.FloatWords := ⟨"NaN", "Infinity"⟩

def escapeUnit (unit : Nat) : List Char := '\\' :: 'u' :: Digest.hexDigits 4 unit

/-- A character beyond sixteen bits is escaped as two units. -/
def escape (c : Char) : List Char :=
  let code := c.toNat
  if c = '"' || c = '\\' then ['\\', c]
  else if c = '\n' then ['\\', 'n']
  else if c = '\r' then ['\\', 'r']
  else if c = '\t' then ['\\', 't']
  else if code = 0x0c then ['\\', 'f']
  else if code = 0x08 then ['\\', 'b']
  else if 0x20 ≤ code && code ≤ 0x7e then [c]
  else if code < 0x10000 then escapeUnit code
  else
    escapeUnit (0xd800 + (code - 0x10000) / 0x400) ++
      escapeUnit (0xdc00 + (code - 0x10000) % 0x400)

def string (text : String) : String :=
  String.ofList ('"' :: text.toList.flatMap escape ++ ['"'])

/-- Puts the parts of a list or mapping between its brackets. -/
def enclose (style : Style) (depth : Nat) (opening closing : String) (parts : List String) :
    String :=
  if parts.isEmpty then opening ++ closing
  else match style.indent with
    | none => opening ++ joined style.itemSeparator parts ++ closing
    | some width =>
        let line (level : Nat) := "\n" ++ String.ofList (List.replicate (width * level) ' ')
        opening ++ line (depth + 1) ++
          joined (style.itemSeparator ++ line (depth + 1)) parts ++ line depth ++ closing

def inOrder (style : Style) (fields : List (String × String)) : List (String × String) :=
  if style.sorted then Sorting.sort (fun left right => decide (left.1 ≤ right.1)) fields
  else fields

mutual

def write (style : Style) (depth : Nat) : Value → String
  | .undefined => string "undefined"
  | .null => "null"
  | .bool true => "true"
  | .bool false => "false"
  | .number amount => amount.text jsonWords
  | .text content => string content
  | .list items => enclose style depth "[" "]" (writeItems style (depth + 1) items)
  | .object fields =>
      let parts := inOrder style (writeFields style (depth + 1) fields)
      enclose style depth "\x7b" "\x7d"
        (parts.map fun (name, value) => string name ++ style.nameSeparator ++ value)

def writeItems (style : Style) (depth : Nat) : List Value → List String
  | [] => []
  | item :: rest => write style depth item :: writeItems style depth rest

def writeFields (style : Style) (depth : Nat) :
    List (String × Value) → List (String × String)
  | [] => []
  | (name, value) :: rest => (name, write style depth value) :: writeFields style depth rest

end

def render (style : Style) (value : Value) : String := write style 0 value

end Keymap.Json
