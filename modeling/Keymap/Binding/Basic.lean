import Keymap.Value.Json
import Keymap.Text.Digest
import Keymap.Sorting

/-!
Bindings as they move through the compiler: a key sequence, the commands it runs, and where it
holds. A command is a mapping whose field `command` names it. A binding without prefixes holds
whatever has been typed before.
-/

set_option autoImplicit false

namespace Keymap

/-- A condition for a binding to hold. Conditions that differ only in blanks share an id. -/
structure Guard where
  text : String
  id : String
deriving DecidableEq, Repr

def Guard.ofText (text : String) : Guard := ⟨text, Text.Digest.ofText (Text.withoutBlanks text)⟩

abbrev Command := Fields

def Command.named (name : String) : Command := [("command", .text name)]

def Command.runs (command : Command) (name : String) : Bool :=
  (command.get? "command").bind Value.text? == some name

structure Binding where
  key : String
  commands : List Command
  /-- The place of the entry in the document. -/
  index : Int
  guards : List Guard
  /-- The modes the entry selects; after the expansion of modes, the one mode it holds in. -/
  modes : Option (List String)
  /-- Whether the binding comes from another mode that its mode falls back to. -/
  implicit : Bool
  /-- The sequences one of which must have been typed. -/
  prefixes : List String
  priority : Number
  finalKey : Bool
  /-- A number, an expression or null. -/
  repeatCount : Value
  docs : Fields
deriving Inhabited

namespace Binding

def mode? (binding : Binding) : Option String := binding.modes.bind List.head?

def runs (binding : Binding) (name : String) : Bool :=
  binding.commands.any fun command => command.runs name

def onlyRuns (binding : Binding) (name : String) : Bool :=
  match binding.commands with
  | [command] => command.runs name
  | _ => false

/-- What two bindings share that claim the same place: key, mode, guards in any order, and
prefixes. -/
structure Signature where
  key : String
  mode : Option String
  guards : List String
  prefixes : List String
deriving DecidableEq, Repr

def signature (binding : Binding) : Signature where
  key := binding.key
  mode := binding.mode?
  guards := Sorting.sortTexts (binding.guards.map (·.id))
  prefixes := binding.prefixes

def texts (items : List String) : Value := .list (items.map .text)

def optionalText (text : Option String) : Value := (text.map Value.text).getD .null

/-- The digest of a signature, which names the place in answers. -/
def Signature.fingerprint (signature : Signature) : String :=
  Text.Digest.ofText (Json.render Json.compact (.object
    [("key", .text signature.key), ("mode", optionalText signature.mode),
     ("when", texts signature.guards), ("prefixes", texts signature.prefixes)]))

/-- Everything that tells two bindings apart but their place in the document. -/
def content (binding : Binding) : String :=
  Json.render Json.compact (.object
    [("key", .text binding.key),
     ("commands", .list (binding.commands.map .object)),
     ("when", texts (binding.guards.map (·.id))),
     ("mode", (binding.modes.map texts).getD .null),
     ("implicit_mode", .bool binding.implicit),
     ("prefixes", texts binding.prefixes),
     ("final_key", .bool binding.finalKey),
     ("computed_repeat", binding.repeatCount),
     ("docs", .object binding.docs)])

end Binding

end Keymap
