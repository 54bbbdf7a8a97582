import Keymap.Text.Character
import Keymap.Text.Digest

/-!
Quoted text as messages show it: in single quotes, or in double quotes where the text holds a
single quote and no double one. Backslashes, the surrounding quote and characters without a
shape are escaped.
-/

set_option autoImplicit false

namespace Keymap.Text.Quoted

open Keymap.Text.Digest (hexDigits)

def quoteFor (text : List Char) : Char :=
  if text.contains '\'' && !text.contains '"' then '"' else '\''

/-- Hexadecimal escapes have two, four or eight digits, the fewest that hold the code. -/
def escapeCode (code : Nat) : List Char :=
  if code < 0x100 then '\\' :: 'x' :: hexDigits 2 code
  else if code < 0x10000 then '\\' :: 'u' :: hexDigits 4 code
  else '\\' :: 'U' :: hexDigits 8 code

def escape (quote c : Char) : List Char :=
  if c = quote || c = '\\' then ['\\', c]
  else if c = '\n' then ['\\', 'n']
  else if c = '\r' then ['\\', 'r']
  else if c = '\t' then ['\\', 't']
  else if isShown c then [c]
  else escapeCode c.toNat

def encode (text : List Char) : List Char :=
  let quote := quoteFor text
  quote :: text.flatMap (escape quote) ++ [quote]

end Keymap.Text.Quoted

namespace Keymap.Text

def quoted (text : String) : String := String.ofList (Quoted.encode text.toList)

end Keymap.Text
