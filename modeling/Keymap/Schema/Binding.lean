import Keymap.Schema.Specification
import Keymap.Key.Catalog
import Keymap.Legacy.Upgrade
import Keymap.Options

/-!
Checking one expanded entry and turning it into a binding. A defect refuses the entry; what
leaves the binding usable is noted.
-/

set_option autoImplicit false

namespace Keymap.Schema

def captureNames : List String := ["captureKeys", "replaceChar", "insertChar", "search"]

def docTexts : List String :=
  ["name", "description", "combinedName", "combinedKey", "combinedDescription", "kind",
   "defaults"]

def docFlags : List String := ["hideInPalette", "hideInDocs"]

/-- A valid key sequence in its kept form. -/
def readKey (label : String) (value : Value) : Except Defect String := do
  let key ← nonEmptyText label value
  if Key.isSequence key.toList then return Key.normalize key.toList
  else throw (.invalidKey label key)

def presentFields (names : List String) (entry : Fields) : Fields :=
  entry.filter fun field => names.contains field.1 && !field.2.isNull

/-- The commands of an entry: its own, or those that `runCommands` lists. -/
def readEntryCommands (label : String) (entry : Fields) : Except Defect (List Command) := do
  let name ← nonEmptyText (label ++ ".command") (entry.read "command")
  if name = "runCommands" then
    let args ← mapping (label ++ ".args") (entry.read "args")
    match args.read "commands" with
    | .list items => readCommands (label ++ ".args.commands") (.list items)
    | _ => throw (.notList (label ++ ".args.commands"))
  else return [← readCommandEntry label (presentFields commandFields entry)]

def captures (options : Options) (command : Command) : Bool :=
  captureNames.any fun name => command.runs (options.command name)

/-- How often a binding runs: a number that is not negative, an expression, or null. -/
def readRepeat (label : String) : Value → Except Defect Value
  | .null => .ok .null
  | .text content => .ok (.text content)
  | value => do
      match ← optionalNumber (label ++ ".computedRepeat") value with
      | some amount =>
          if amount.less (.int 0) then throw (.negativeRepeat label) else return .number amount
      | none => return .null

/-- What an entry does: the part that is checked first. -/
structure Action where
  key : String
  commands : List Command
  repeatCount : Value
  finalKey : Option Bool

def readAction (options : Options) (label : String) (entry : Fields) : Except Defect Action := do
  rejectUnknown label bindingFields entry
  if entry.has "foreach" then throw (.unexpandedForeach label)
  let key ← readKey (label ++ ".key") (entry.read "key")
  let commands ← readEntryCommands label entry
  if 1 < (commands.filter (captures options)).length then throw (.manyCaptures label)
  let repeatCount ← readRepeat label (entry.read "computedRepeat")
  let finalKey ← optionalFlag (label ++ ".finalKey") (entry.read "finalKey")
  return ⟨key, commands, repeatCount, finalKey⟩

def Action.steps (options : Options) (action : Action) : Bool :=
  action.commands.any fun command => command.runs options.stepCommand

/-- A binding that moves on to the next key never ends a sequence. -/
def Action.endsSequence (options : Options) (action : Action) : Bool :=
  !(action.steps options) && action.finalKey.getD true

def Action.problems (options : Options) (label : String) (action : Action) : List Problem :=
  if action.steps options && action.finalKey = some true then
    [.finalStep label options.stepCommand]
  else []

def readDocTexts (label : String) (entry : Fields) : List String → Except Defect Fields
  | [] => .ok []
  | name :: rest => do
      let text ← optionalText (label ++ "." ++ name) (entry.read name)
      let others ← readDocTexts label entry rest
      return (text.map fun content => (name, Value.text content)).toList ++ others

def readDocFlags (label : String) (entry : Fields) : List String → Except Defect Fields
  | [] => .ok []
  | name :: rest => do
      let flag ← optionalFlag (label ++ "." ++ name) (entry.read name)
      let others ← readDocFlags label entry rest
      return (flag.map fun value => (name, Value.bool value)).toList ++ others

def readDocs (label : String) (entry : Fields) : Except Defect Fields := do
  let texts ← readDocTexts label entry docTexts
  return texts ++ (← readDocFlags label entry docFlags)

/-- Where kinds are declared, a binding's kind is one of them. -/
def kindProblems (kinds : List Kind) (label : String) (docs : Fields) : List Problem :=
  match docs.get? "kind" with
  | some (.text kind) =>
      if kinds.isEmpty || (kinds.any fun known => known.name = kind) then []
      else [.undeclaredKind label kind]
  | _ => []

def readModes (label : String) : Value → Except Defect (Option (List String))
  | .null => .ok none
  | value => do
      let modes ← textList label value
      if modes.isEmpty then throw (.noModes label)
      return some modes

def readEachLead (label : String) (index : Nat) : List String → Except Defect (List String)
  | [] => .ok []
  | lead :: rest => do
      let first ← if (Text.trimmed lead).isEmpty then pure ""
        else readKey (itemLabel label index) (.text lead)
      return first :: (← readEachLead label (index + 1) rest)

/-- Without prefixes a binding holds at the start of a sequence only. -/
def readPrefixes (label : String) (value : Value) : Except Defect (List String) :=
  match value with
  | .null => .ok [""]
  | .text content =>
      if content = Legacy.allPrefixes then .ok [] else readEachLead label 0 [content]
  | value => do readEachLead label 0 (← textList label value)

def readPriority (label : String) (value : Value) : Except Defect Number := do
  match ← optionalNumber label value with
  | some amount => return if amount.isZero then .int 0 else amount
  | none => return .int 0

/-- Where an entry holds: the part that is checked last. -/
structure Reach where
  guards : List Guard
  modes : Option (List String)
  prefixes : List String
  priority : Number

def readReach (label : String) (entry : Fields) : Except Defect Reach := do
  let guards ← readGuards (label ++ ".when") (entry.read "when")
  let modes ← readModes (label ++ ".mode") (entry.read "mode")
  let prefixes ← readPrefixes (label ++ ".prefixes") (entry.read "prefixes")
  let priority ← readPriority (label ++ ".priority") (entry.read "priority")
  return ⟨guards, modes, prefixes, priority⟩

/-- The binding that an expanded entry declares. -/
def readBinding (options : Options) (kinds : List Kind) (label : String) (index : Int)
    (value : Value) : Reading Binding := do
  let entry ← Noted.ofExcept (mapping label value)
  let action ← Noted.ofExcept (readAction options label entry)
  Noted.note (action.problems options label)
  let docs ← Noted.ofExcept (readDocs label entry)
  Noted.note (kindProblems kinds label docs)
  let reach ← Noted.ofExcept (readReach label entry)
  return {
    key := action.key
    commands := action.commands
    index := index
    guards := reach.guards
    modes := reach.modes
    implicit := false
    prefixes := reach.prefixes
    priority := reach.priority
    finalKey := action.endsSequence options
    repeatCount := action.repeatCount
    docs := docs }

end Keymap.Schema
