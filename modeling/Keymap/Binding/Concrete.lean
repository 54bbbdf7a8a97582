import Keymap.Sequence.Code
import Keymap.Binding.Basic
import Keymap.Options
import Keymap.Problem

/-!
Bindings as an editor takes them: one key, one mode, and guards that ask for the mode and for the
code of what has been typed.
-/

set_option autoImplicit false

namespace Keymap

def modeGuard (options : Options) (mode : String) : Guard :=
  Guard.ofText (options.context ++ ".mode == '" ++ mode ++ "'")

def codeGuard (options : Options) (codes : List Nat) : Guard :=
  Guard.ofText (Text.joined " || " (codes.map fun (code : Nat) =>
    options.context ++ ".prefixCode == " ++ Number.intText code))

/-- All guards at once, each in parentheses. -/
def conjunction (guards : List Guard) : Option String :=
  if guards.isEmpty then none
  else some ("(" ++ Text.joined ") && (" (guards.map (·.text)) ++ ")")

/-- A binding as the editor takes it. -/
structure ConcreteBinding where
  key : String
  mode : Option String
  condition : Option String
  guards : List Guard
  commands : List Command
  index : Int
  finalKey : Bool
  repeatCount : Value
  prefixCode : Option Nat
  prefixDescriptions : List String
  docs : Fields

namespace ConcreteBinding

def codesOf (codes : CodeTable) : List String → Except Fault (List (Nat × String))
  | [] => .ok []
  | lead :: rest => match codes.codeOf? lead with
    | none => .error (.noCode lead)
    | some code => do return (code, lead) :: (← codesOf codes rest)

/-- Adds what a binding asks of the mode and the typed keys to its guards. -/
def ofBinding (options : Options) (codes : CodeTable) (binding : Binding) :
    Except Fault ConcreteBinding := do
  let required ← codesOf codes binding.prefixes
  let modeGuards := (binding.mode?.map (modeGuard options)).toList
  let codeGuards := if required.isEmpty then []
    else [codeGuard options (required.map (·.1))]
  let guards := binding.guards ++ modeGuards ++ codeGuards
  return {
    key := binding.key
    mode := binding.mode?
    condition := conjunction guards
    guards := guards
    commands := binding.commands
    index := binding.index
    finalKey := binding.finalKey
    repeatCount := binding.repeatCount
    prefixCode := required.head?.map (·.1)
    prefixDescriptions := required.map fun (code, lead) => Number.intText code ++ ": " ++ lead
    docs := binding.docs }

def guardValue (guard : Guard) : Value :=
  .object [("text", .text guard.text), ("id", .text guard.id)]

def toValue (binding : ConcreteBinding) : Value := .object
  [("key", .text binding.key),
   ("mode", Binding.optionalText binding.mode),
   ("when", Binding.optionalText binding.condition),
   ("guards", .list (binding.guards.map guardValue)),
   ("commands", .list (binding.commands.map .object)),
   ("index", Value.ofInt binding.index),
   ("final_key", .bool binding.finalKey),
   ("computed_repeat", binding.repeatCount),
   ("prefix_code", (binding.prefixCode.map fun code => Value.ofInt code).getD .null),
   ("prefix_descriptions", Binding.texts binding.prefixDescriptions),
   ("docs", .object binding.docs)]

end ConcreteBinding

end Keymap
