import Keymap.CommandLine.Arguments
import Keymap.Number.Numeral
import Keymap.Options

/-!
The commands: compiling a file, validating it, bringing it to the current layout, and evaluating
an expression or a template.
-/

set_option autoImplicit false

namespace Keymap.CommandLine

/-- What is printed of a compiled file. -/
inductive Layout where
  | json
  | summary
deriving DecidableEq, Repr

structure Source where
  file : String
  options : Options
  layout : Layout
deriving DecidableEq, Repr

structure Query where
  expression : String
  isTemplate : Bool
  /-- Definitions of variables, each a name, an equals sign and a value. -/
  definitions : List String
  errorLimit : Int
deriving DecidableEq, Repr

inductive Command where
  | compile (source : Source) (out : Option String) (strict : Bool)
  | validate (source : Source)
  | upgrade (file : String) (out : Option String)
  | evaluate (query : Query)
deriving DecidableEq, Repr

/-- What a command line asks for; one that is refused has no other effect. -/
inductive Request where
  | run (command : Command)
  | help
  | refused
deriving DecidableEq, Repr

inductive Verb where
  | compile
  | validate
  | upgrade
  | evaluate
deriving DecidableEq, Repr

def verbs : List (String × Verb) :=
  [("compile", .compile), ("validate", .validate), ("upgrade", .upgrade), ("eval", .evaluate)]

def helpSwitch : Switch := .flag "help" (some 'h')

def generalSwitches : List Switch := [helpSwitch, .flag "verbose" (some 'v')]

def sourceSwitches : List Switch :=
  [helpSwitch, .text "namespace", .text "error-limit", .text "format"]

def Verb.switches : Verb → List Switch
  | .compile => sourceSwitches ++ [.text "out", .flag "strict" none]
  | .validate => sourceSwitches
  | .upgrade => [helpSwitch, .text "out"]
  | .evaluate => [helpSwitch, .text "var", .flag "template" none, .text "error-limit"]

/-- What the switches set. -/
structure Settings where
  operand : Option String
  options : Options
  layout : Layout
  out : Option String
  strict : Bool
  isTemplate : Bool
  definitions : List String

namespace Settings

def start : Settings := ⟨none, Options.default, .summary, none, false, false, []⟩

def layouts : List (String × Layout) := [("json", .json), ("table", .summary)]

/-- Sets the text of a switch; none if the switch does not take this text. -/
def setText (settings : Settings) (name content : String) : Option Settings :=
  if name = "namespace" then
    some { settings with options := { settings.options with context := content } }
  else if name = "error-limit" then
    (Number.readInt? (Text.trim content.toList)).map fun limit =>
      { settings with options := { settings.options with errorLimit := limit } }
  else if name = "format" then
    (layouts.lookup content).map fun layout => { settings with layout := layout }
  else if name = "out" then
    some { settings with out := if content = "" then none else some content }
  else if name = "var" then
    some { settings with definitions := settings.definitions ++ [content] }
  else none

def setFlag (settings : Settings) (name : String) : Settings :=
  if name = "strict" then { settings with strict := true }
  else if name = "template" then { settings with isTemplate := true }
  else settings

/-- The command that the settings describe; none without an operand. -/
def command? (settings : Settings) (verb : Verb) : Option Command :=
  settings.operand.map fun operand =>
    let source : Source := ⟨operand, settings.options, settings.layout⟩
    match verb with
    | .compile => .compile source settings.out settings.strict
    | .validate => .validate source
    | .upgrade => .upgrade operand settings.out
    | .evaluate => .evaluate
        ⟨operand, settings.isTemplate, settings.definitions, settings.options.errorLimit⟩

end Settings

/-- Follows the events of a command. A stray word is refused once all others have been followed,
so that help that is asked for anywhere is given. -/
def follow (verb : Verb) (stray : Bool) (settings : Settings) : List Event → Request
  | [] =>
      if stray then .refused
      else match settings.command? verb with
        | some command => .run command
        | none => .refused
  | .flag name :: rest =>
      if name = "help" then .help else follow verb stray (settings.setFlag name) rest
  | .text name content :: rest => match settings.setText name content with
    | some changed => follow verb stray changed rest
    | none => .refused
  | .operand content :: rest => follow verb stray { settings with operand := some content } rest
  | .stray :: rest => follow verb true settings rest
  | .refused :: _ => .refused

/-- Follows the events before the name of the command. -/
def followGeneral (stray : Bool) (command : Option (String × List String)) :
    List Event → Request
  | [] => match command with
    | none => .refused
    | some (name, rest) => match verbs.lookup name with
      | none => .refused
      | some verb => match wordsOf? verb.switches rest with
        | none => .refused
        | some words => follow verb stray .start (events verb.switches true words)
  | .flag name :: rest => if name = "help" then .help else followGeneral stray command rest
  | .stray :: rest => followGeneral true command rest
  | _ :: _ => .refused

def request (arguments : List String) : Request :=
  match wordsOf? generalSwitches arguments with
  | none => .refused
  | some words =>
      let (found, command) := commandEvents generalSwitches words arguments
      followGeneral false command found

end Keymap.CommandLine
