import Keymap.Schema.Shape

/-!
Definitions of commands. A sequence of commands may refer to a definition by name, and the commands
of the definition are put in place of the reference.
-/

set_option autoImplicit false

namespace Keymap

namespace Definition

/-- Definitions hold plain commands, never sequences or references. -/
def nests : Value → Bool
  | .text content => content = "runCommands"
  | .object fields =>
      Fields.has "defined" fields || Command.runs fields "runCommands"
  | _ => false

def isCommand : Value → Bool
  | .text _ => true
  | .object _ => true
  | _ => false

def checkCommand (label name : String) (command : Value) : Except Defect Unit :=
  if nests command then .error (.nestedDefinition label name)
  else if isCommand command then .ok ()
  else .error (.notDefinition label name)

/-- The commands of a definition, which may be written as one command. -/
def commands (label name : String) (definition : Value) : Except Defect (List Value) := do
  let entries := match definition with
    | .list items => items
    | single => [single]
  entries.forM (checkCommand label name)
  return entries

/-- The name that an entry of a sequence refers to. -/
def reference? : Value → Option String
  | .object fields => (Fields.get? "defined" fields).map Value.display
  | _ => none

/-- Puts the commands of the definitions in place of the references. -/
def splice (definitions : Fields) (label : String) (index : Nat) :
    List Value → Except Defect (List Value)
  | [] => .ok []
  | item :: rest => do
      let here := Schema.itemLabel (label ++ ".args.commands") index
      let own ← match reference? item with
        | none => pure [item]
        | some name => match definitions.get? name with
          | some definition => commands here name definition
          | none => throw (.missingDefinition here name)
      return own ++ (← splice definitions label (index + 1) rest)

/-- Resolves the references of an entry that runs a sequence; other entries stay. -/
def resolve (definitions : Fields) (label : String) (entry : Fields) : Except Defect Fields :=
  if Command.runs entry "runCommands" then
    match entry.read "args" with
    | .object args => match Fields.read "commands" args with
      | .list items => do
          let commands ← splice definitions label 0 items
          return entry.insert "args" (.object (Fields.insert "commands" (.list commands) args))
      | _ => .ok entry
    | _ => .ok entry
  else .ok entry

end Definition

end Keymap
