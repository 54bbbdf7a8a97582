import Keymap.Key.Macro
import Keymap.Schema.Binding

/-!
Entries with variables: an entry with `foreach` stands for one entry per combination of the values
of its variables.
-/

set_option autoImplicit false

namespace Keymap

namespace Foreach

/-- A variable and its values. -/
abbrev Variable := String × List Value

/-- The values that one value stands for: a text with a key macro stands for several. -/
def expandValue (label : String) : Value → Except Fault (List Value)
  | .text content => match Key.expand content with
    | .ok texts => .ok (texts.map .text)
    | .error (fault, pattern) => .error (Fault.ofPattern label pattern fault)
  | value => .ok [value]

def expandValues (label : String) : List Value → Except Fault (List Value)
  | [] => .ok []
  | value :: rest => do return (← expandValue label value) ++ (← expandValues label rest)

def readEachVariable (label : String) : List (String × Value) → Except Fault (List Variable)
  | [] => .ok []
  | (name, value) :: rest => do
      let here := label ++ ".foreach." ++ name
      let values ← match value with
        | .list items => expandValues here items
        | _ => throw (.defect (.notList here))
      return (name, values) :: (← readEachVariable label rest)

def readVariables (label : String) : Value → Except Fault (List Variable)
  | .object fields => readEachVariable label fields
  | _ => .error (.defect (.notMapping (label ++ ".foreach")))

/-- All ways to choose a value for each variable; the last variable changes first. -/
def combinations : List Variable → List Fields
  | [] => [[]]
  | (name, values) :: rest =>
      values.flatMap fun value => (combinations rest).map fun others => (name, value) :: others

/-- What the fields of an entry are filled from: all but the variables themselves and, where all
prefixes are meant, the prefixes. -/
structure Template where
  fields : Fields
  anyPrefixes : Bool

def Template.ofEntry (entry : Fields) : Template :=
  let fields := entry.erase "foreach"
  match fields.get? "prefixes" with
  | some (.text content) =>
      if content = Legacy.allPrefixes then ⟨fields.erase "prefixes", true⟩ else ⟨fields, false⟩
  | _ => ⟨fields, false⟩

abbrev Expanding (Result : Type) := Noted Complaint Fault Result

/-- The entry of one combination. Variables hide definitions of the same name. -/
def Template.fill (template : Template) (definitions combination : Fields) : Expanding Fields :=
  let filling := Value.fillFields (definitions.overlay combination) template.fields
  ⟨filling.notes, match filling.result with
    | .error overlong => .error (.overlong overlong)
    | .ok fields =>
        .ok (if template.anyPrefixes then fields.insert "prefixes" (.text Legacy.allPrefixes)
          else fields)⟩

def Template.fillAll (template : Template) (definitions : Fields) :
    List Fields → Expanding (List Fields)
  | [] => .done []
  | combination :: rest => do
      let first ← template.fill definitions combination
      return first :: (← template.fillAll definitions rest)

/-- The entries that an entry stands for; without `foreach`, itself. -/
def expand (definitions : Fields) (label : String) (entry : Fields) :
    Expanding (List Fields) :=
  match entry.get? "foreach" with
  | none => .done [entry]
  | some value => do
      let names ← Noted.ofExcept (readVariables label value)
      (Template.ofEntry entry).fillAll definitions (combinations names)

end Foreach

end Keymap
