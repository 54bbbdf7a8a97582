import Keymap.Binding.Basic

/-!
Modes of the editor. A mode that falls back to another also has the bindings of that one.
-/

set_option autoImplicit false

namespace Keymap

structure Mode where
  name : String
  isDefault : Bool
  highlight : String
  recordEdits : Bool
  cursorShape : String
  onType : List Command
  fallback : Option String
deriving Inhabited

namespace Mode

def named (name : String) : Mode := ⟨name, false, "NoHighlight", false, "Line", [], none⟩

/-- The mode of a document that declares none. -/
def implied : Mode := { named "default" with isDefault := true, recordEdits := true }

/-- The mode in which keys are captured; every document has it. -/
def capture : Mode := { named "capture" with highlight := "Highlight", cursorShape := "Underline" }

def toValue (mode : Mode) : Value := .object
  [("name", .text mode.name), ("default", .bool mode.isDefault),
   ("highlight", .text mode.highlight), ("record_edits", .bool mode.recordEdits),
   ("cursor_shape", .text mode.cursorShape), ("on_type", .list (mode.onType.map .object)),
   ("fallback_bindings", Binding.optionalText mode.fallback)]

end Mode

end Keymap
