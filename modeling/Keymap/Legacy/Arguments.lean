import Keymap.Legacy.Braces
import Keymap.Value.Display

/-!
The arguments of commands in legacy documents: the fields of some commands have new names, and
placeholders everywhere get double braces.
-/

set_option autoImplicit false

namespace Keymap.Legacy

/-- The commands of a sequence are neither a list nor anything that can be read as one. -/
inductive Fault where
  | notIterable
deriving DecidableEq, Repr

/-- The last part of a command's dotted name. -/
def shortName (command : Value) : String :=
  if command.isVacuous then "" else ((Text.pieces '.' command.display).getLast?).getD ""

def doubledText (value : Value) : Value := .text (Braces.double value.display)

/-- A named register was called by its name. -/
def registerArgs (fields : Fields) : Value :=
  .object
    [("description", doubledText ((fields.get? "description").getD (.text ""))),
     ("register", doubledText ((fields.get? "name").getD (.text "")))]

/-- A condition is kept under its new name unless it holds nothing. -/
def condition (fields : Fields) (old new : String) : Fields :=
  let value := fields.read old
  if value.isVacuous then [] else [(new, doubledText value)]

def historyArgs (fields : Fields) : Value :=
  .object (condition fields "at" "whereComputedIndexIs" ++
    condition fields "range" "whereComputedRangeIs")

mutual

/-- The arguments of a command, given the value that names it. -/
def upgradeArgs (command : Value) : Value → Except Fault Value
  | .object fields =>
      let name := shortName command
      if name = "runCommands" then do
        let commands := if Fields.has "commands" fields then [] else [("commands", Value.list [])]
        return .object ((← upgradeSequence fields) ++ commands)
      else if name = "storeNamed" || name = "restoreNamed" then .ok (registerArgs fields)
      else if name = "pushHistoryToStack" || name = "replayFromStack" then .ok (historyArgs fields)
      else .ok (Braces.doubleIn (.object fields))
  | value => .ok (Braces.doubleIn value)

/-- The arguments of a command that runs others: only its commands change. -/
def upgradeSequence : List (String × Value) → Except Fault Fields
  | [] => .ok []
  | (name, value) :: rest => do
      let after ← upgradeSequence rest
      if name = "commands" then return (name, .list (← upgradeCommands value)) :: after
      else return (name, value) :: after

/-- A text is read as a list of its characters, a mapping as a list of its names. -/
def upgradeCommands : Value → Except Fault (List Value)
  | .list items => upgradeItems items
  | .text content => .ok (content.toList.map fun c => .text (String.ofList [c]))
  | .object fields => .ok (fields.map fun field => .text field.1)
  | value => if value.isVacuous then .ok [] else .error .notIterable

def upgradeItems : List Value → Except Fault (List Value)
  | [] => .ok []
  | .object fields :: rest => do
      let command ← upgradeCommand (Fields.read "command" fields) fields
      return .object command :: (← upgradeItems rest)
  | item :: rest => do return item :: (← upgradeItems rest)

/-- The fields of one command of a sequence. Null fields are dropped. -/
def upgradeCommand (command : Value) : List (String × Value) → Except Fault Fields
  | [] => .ok []
  | (name, value) :: rest => do
      let upgraded ← if name = "args" || name = "computedArgs" then upgradeArgs command value
        else .ok value
      let after ← upgradeCommand command rest
      return if upgraded.isNull then after else (name, upgraded) :: after

end

end Keymap.Legacy
