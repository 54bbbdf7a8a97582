import Keymap.File.Path
import Keymap.Problem
import Keymap.Value.Reader

/-!
Documents as text. The suffix of a file tells its format, and the text of a document holds one
mapping; a text that holds null stands for the empty mapping. Of the formats only JSON is read here;
the others count as unknown.
-/

set_option autoImplicit false

namespace Keymap.Document

/-- The format of each suffix, by the order of the suffixes. -/
def formats : List (String × String) :=
  [(".json", "json"), (".toml", "toml"), (".yaml", "yaml"), (".yml", "yaml")]

def suffixes : List String := formats.map Prod.fst

def lower (text : String) : String := String.ofList (text.toList.map Text.lowerAscii)

/-- The format of a file, by its suffix in small letters. -/
def formatOf (path : String) : Except Defect String :=
  match formats.lookup (lower (File.Path.ofText path).suffix) with
  | some format => .ok format
  | none => .error (.unknownFileType path suffixes)

def mapping (source : String) : Value → Except Fault Value
  | .null => .ok (.object [])
  | .object fields => .ok (.object fields)
  | _ => .error (.defect (.notDocument source))

/-- Reads a document; `source` names it in messages. Its texts hold no surrogates: the escape of one
is read as U+FFFD. -/
def read (source format text : String) : Except Fault Value :=
  if format = "json" then match Json.readAll text.toList with
    | .ok value => mapping source value
    | .error (.tooManyDigits digits) => .error (.overlong (.read digits))
    | .error (.missed expected left) =>
        .error (.defect (.unreadable source format
          (expected.message ++ Json.place text.toList left)))
  else .error (.defect (.unknownFormat source format))

end Keymap.Document
