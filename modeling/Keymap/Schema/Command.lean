import Keymap.Schema.Shape

/-!
Commands and conditions as documents write them. A command is a name, or a mapping with
arguments and a condition; a list of commands may be written as one command.
-/

set_option autoImplicit false

namespace Keymap.Schema

def commandFields : List String := ["command", "args", "computedArgs", "whenComputed"]

/-- The arguments of a command, kept only if they are there. -/
def readArguments (label field : String) (entry : Fields) : Except Defect Fields :=
  match entry.read field with
  | .null => .ok []
  | value => do return [(field, .object (← mapping (label ++ "." ++ field) value))]

def readCommandEntry (label : String) (entry : Fields) : Except Defect Command := do
  match entry.get? "defined" with
  | some name => throw (.unresolvedCommand label name.display)
  | none => pure ()
  rejectUnknown label commandFields entry
  let name ← nonEmptyText (label ++ ".command") (entry.read "command")
  let args ← readArguments label "args" entry
  let computed ← readArguments label "computedArgs" entry
  let condition ← optionalText (label ++ ".whenComputed") (entry.read "whenComputed")
  return ("command", .text name) :: args ++ computed ++
    (condition.map fun text => ("whenComputed", Value.text text)).toList

def readCommand (label : String) : Value → Except Defect Command
  | .text content => do return Command.named (← nonEmptyText label (.text content))
  | value => do readCommandEntry label (← mapping label value)

def readEachCommand (label : String) (index : Nat) : List Value → Except Defect (List Command)
  | [] => .ok []
  | value :: rest => do
      let command ← readCommand (itemLabel label index) value
      return command :: (← readEachCommand label (index + 1) rest)

def readCommands (label : String) : Value → Except Defect (List Command)
  | .null => .ok []
  | .list items => readEachCommand label 0 items
  | .text content => do return [← readCommand label (.text content)]
  | .object entry => do return [← readCommand label (.object entry)]
  | _ => .error (.notCommands label)

def readGuards (label : String) (value : Value) : Except Defect (List Guard) := do
  return (← textList label value).map Guard.ofText

end Keymap.Schema
