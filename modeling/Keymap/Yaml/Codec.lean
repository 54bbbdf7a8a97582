import Keymap.Yaml.Reader
import Keymap.Yaml.Writer

/-!
What a program needs of YAML: a reader of values and a writer. The program takes them as given, so
what is proved of its runs holds for every reader. The one here reads and writes a part of YAML.
-/

set_option autoImplicit false

namespace Keymap.Yaml

/-- Why a text gives no value. -/
inductive Fault where
  | malformed
  /-- The text is well-formed, but what it writes is no value, such as a date of no calendar. -/
  | invalid (reason : String)
deriving DecidableEq, Repr

/-- A reader and a writer of YAML. The values that are read are those that a document may hold. -/
structure Codec where
  read : String → Except Fault Value
  write : Value → String

/-- Values on one line are read; mappings and lists are written in lines. Whatever else of YAML a
text holds, this does not know: block mappings and lists, tags, anchors and dates. -/
def basic : Codec where
  read text := (read? text).elim (.error .malformed) .ok
  write := render

end Keymap.Yaml
