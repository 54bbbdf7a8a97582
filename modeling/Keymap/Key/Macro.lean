import Keymap.Key.Catalog
import Keymap.Pattern.Reader
import Keymap.Pattern.Match

/-!
The key macro, `\x7b\x7bkey: pattern\x7d\x7d`: a text that holds it stands for one text per key
name that the pattern takes in full, whatever the case. Without a pattern it stands for all keys.
-/

set_option autoImplicit false

namespace Keymap.Key

/-- The text around the macro and the pattern in it, if it has one. -/
structure Macro where
  before : List Char
  pattern : List Char
  after : List Char
deriving DecidableEq, Repr

def opening : List Char := ['{', '{', 'k', 'e', 'y']

def closing : List Char := ['}', '}']

/-- What follows the opening: an end, or a colon and a pattern within one line. -/
def macroTail? (text : List Char) : Option (List Char × List Char) :=
  match text with
  | '}' :: '}' :: after => some ([], after)
  | ':' :: rest => do
      let (pattern, after) ← Text.cutAt closing (Text.trimLeft rest)
      if pattern.contains '\n' then none else some (pattern, after)
  | _ => none

/-- The first macro of a text. -/
def macro? : List Char → Option Macro
  | [] => none
  | c :: rest =>
      let here := if opening.isPrefixOf (c :: rest) then
          macroTail? ((c :: rest).drop opening.length)
        else none
      match here with
      | some (pattern, after) => some ⟨[], pattern, after⟩
      | none => (macro? rest).map fun found => { found with before := c :: found.before }

/-- Patterns ignore case. -/
def patternFlags : Pattern.Flags := { Pattern.Flags.none with ignoreCase := true }

/-- The keys that a pattern takes, in the order of the catalog. -/
def keysOf (pattern : List Char) : Except Pattern.Fault (List String) :=
  if pattern.isEmpty then .ok catalog
  else do
    let compiled ← Pattern.read patternFlags (Text.trim pattern)
    return catalog.filter compiled.matches

def Macro.fill (found : Macro) (key : String) : String :=
  String.ofList found.before ++ key ++ String.ofList found.after

/-- The texts that a text stands for; without a macro, itself. -/
def expand (text : String) : Except (Pattern.Fault × String) (List String) :=
  match macro? text.toList with
  | none => .ok [text]
  | some found => match keysOf found.pattern with
    | .ok keys => .ok (keys.map found.fill)
    | .error fault => .error (fault, String.ofList (Text.trim found.pattern))

end Keymap.Key
