import Keymap.Schema.Command
import Keymap.Legacy.Version
import Keymap.Mode.Basic

/-!
The sections of a document: its header, its bindings as they are written, its modes, kinds and
defaults, and its definitions. A section of the wrong shape refuses the document; an entry of the
wrong shape is reported and left out.
-/

set_option autoImplicit false

namespace Keymap

structure Header where
  version : String
  name : Option String
  description : Option String
  requiredExtensions : List String
deriving DecidableEq, Repr

structure Kind where
  name : String
  description : String
deriving DecidableEq, Repr

/-- Fields that bindings may refer to. -/
structure DefaultEntry where
  id : String
  fields : Fields
  appendWhen : List String

structure Specification where
  header : Header
  bindings : List Value
  modes : List Mode
  kinds : List Kind
  defaults : List DefaultEntry
  definitions : Fields

namespace Schema

def sectionNames : List String := ["header", "bind", "mode", "kind", "default", "define"]

def headerFields : List String := ["version", "name", "description", "requiredExtensions"]

def bindingFields : List String :=
  ["key", "command", "args", "computedArgs", "whenComputed", "when", "mode", "priority",
   "defaults", "foreach", "prefixes", "finalKey", "computedRepeat", "name", "description",
   "combinedName", "combinedKey", "combinedDescription", "hideInPalette", "hideInDocs", "kind"]

def modeFields : List String :=
  ["name", "default", "highlight", "recordEdits", "cursorShape", "onType", "fallbackBindings"]

def defaultFields : List String := ["id", "default", "appendWhen", "name", "description"]

def kindFields : List String := ["name", "description"]

def highlights : List String := ["NoHighlight", "Highlight", "Alert"]

def cursorShapes : List String :=
  ["Line", "Block", "Underline", "LineThin", "BlockOutline", "UnderlineThin"]

/-- The version of a header is there and is no truth value. -/
def readVersion (value : Value) : Except Defect String :=
  match value with
  | .null => .error .noVersion
  | .bool _ => .error .noVersion
  | value => match Version.ofValue? value with
    | some ⟨2, 0, _⟩ => .ok value.display
    | _ => .error (.unsupportedVersion value.display)

def readHeader (value : Value) : Except Defect Header := do
  let header ← mapping "header" value
  rejectUnknown "header" headerFields header
  let version ← readVersion (header.read "version")
  let name ← optionalText "header.name" (header.read "name")
  let description ← optionalText "header.description" (header.read "description")
  let extensions ← textList "header.requiredExtensions" (header.read "requiredExtensions")
  return ⟨version, name, description, extensions⟩

/-- An empty text counts as absent. -/
def unlessEmpty (text : Option String) : Option String := text.filter fun content => content ≠ ""

def readMode (label : String) (value : Value) : Except Defect Mode := do
  let entry ← mapping label value
  rejectUnknown label modeFields entry
  let name ← nonEmptyText (label ++ ".name") (entry.read "name")
  let isDefault ← optionalFlag (label ++ ".default") (entry.read "default")
  let highlight ← choice (label ++ ".highlight") highlights "NoHighlight"
    (entry.read "highlight")
  let recordEdits ← optionalFlag (label ++ ".recordEdits") (entry.read "recordEdits")
  let cursorShape ← choice (label ++ ".cursorShape") cursorShapes "Line"
    (entry.read "cursorShape")
  let onType ← readCommands (label ++ ".onType") (entry.read "onType")
  let fallback ← optionalText (label ++ ".fallbackBindings") (entry.read "fallbackBindings")
  return ⟨name, isDefault.getD false, highlight, recordEdits.getD false, cursorShape, onType,
    unlessEmpty fallback⟩

def isIdPart (part : List Char) : Bool :=
  !part.isEmpty && part.all fun c => (c.isAlphanum || c = '_' || c = '-')

/-- The empty id is that of the default of all bindings. -/
def isDefaultId (id : String) : Bool :=
  id.isEmpty || (Text.splitOn '.' id.toList).all isIdPart

def readDefaultEntry (label : String) (value : Value) : Except Defect DefaultEntry := do
  let entry ← mapping label value
  rejectUnknown label defaultFields entry
  let id ← match entry.read "id" with
    | .text content => pure content
    | _ => throw (.notText (label ++ ".id"))
  if !(isDefaultId id) then throw (.invalidDefaultId label id)
  let fields ← mapping (label ++ ".default") ((entry.get? "default").getD (.object []))
  rejectUnknown (label ++ ".default") (bindingFields.filter fun name => name ≠ "defaults") fields
  let appended ← textList (label ++ ".appendWhen") (entry.read "appendWhen")
  return ⟨id, fields, appended⟩

def readKind (label : String) (value : Value) : Except Defect Kind := do
  let entry ← mapping label value
  rejectUnknown label kindFields entry
  let name ← nonEmptyText (label ++ ".name") (entry.read "name")
  let description ← optionalText (label ++ ".description") (entry.read "description")
  return ⟨name, description.getD ""⟩

abbrev Reading (Result : Type) := Noted Problem Defect Result

/-- Reads the entries of a section; the defects of those that cannot be read are noted. -/
def readEntries {Entry : Type} (read : String → Value → Except Defect Entry) (label : String)
    (index : Nat) : List Value → Reading (List Entry)
  | [] => .done []
  | value :: rest => match read (itemLabel label index) value with
    | .ok entry => do return entry :: (← readEntries read label (index + 1) rest)
    | .error defect => do
        Noted.note [.defect defect]
        readEntries read label (index + 1) rest

/-- Reads the kinds; of two with one name the first counts. -/
def readKinds (known : List Kind) (index : Nat) : List Value → Reading (List Kind)
  | [] => .done known
  | value :: rest =>
      let label := itemLabel "kind" index
      match readKind label value with
      | .error defect => do
          Noted.note [.defect defect]
          readKinds known (index + 1) rest
      | .ok kind =>
          if known.any fun other => other.name = kind.name then do
            Noted.note [.duplicateKind label kind.name]
            readKinds known (index + 1) rest
          else readKinds (known ++ [kind]) (index + 1) rest

/-- Definitions that hold nothing count as absent. -/
def readDefinitions (value : Value) : Except Defect Fields :=
  if value.isVacuous then .ok [] else mapping "define" value

def readSpecification (document : Value) : Reading Specification := do
  let root ← Noted.ofExcept (mapping "document" document)
  let unknown := unknownNames sectionNames root
  Noted.note (if unknown.isEmpty then [] else [.unknownSections unknown])
  let header ← Noted.ofExcept (readHeader (root.read "header"))
  let bindings ← Noted.ofExcept (entries root "bind")
  let modeEntries ← Noted.ofExcept (entries root "mode")
  let modes ← readEntries readMode "mode" 0 modeEntries
  let kindEntries ← Noted.ofExcept (entries root "kind")
  let kinds ← readKinds [] 0 kindEntries
  let defaultEntries ← Noted.ofExcept (entries root "default")
  let defaults ← readEntries readDefaultEntry "default" 0 defaultEntries
  let definitions ← Noted.ofExcept (readDefinitions (root.read "define"))
  return ⟨header, bindings, modes, kinds, defaults, definitions⟩

end Schema

end Keymap
