import Keymap.CommandLine.Run

/-!
The program: it runs the command that its arguments name on the files of the machine.
-/

set_option autoImplicit false

namespace Keymap.Main

def usage : String :=
  "usage: keymap [-h] [-v] compile|validate|upgrade|eval ...\n" ++
  "  compile FILE [--namespace NAME] [--error-limit N] [--format json|table] [--out FILE] " ++
  "[--strict]\n" ++
  "  validate FILE [--namespace NAME] [--error-limit N] [--format json|table]\n" ++
  "  upgrade FILE [--out FILE]\n" ++
  "  eval EXPRESSION [--var NAME=VALUE] [--template] [--error-limit N]\n"

def faultOf (path : String) : IO.Error → File.Fault
  | .noFileOrDirectory .. => .missing path
  | .alreadyExists .. => .occupied path
  | error => .other (toString error)

/-- Answers a failed action of the machine with its fault. -/
def attempt {Result : Type} (path : String) (action : IO Result) :
    IO (Except File.Fault Result) := do
  try return .ok (← action)
  catch error => return .error (faultOf path error)

/-- The files of the machine. -/
def disk : File.Disk IO where
  read path := attempt path.text (IO.FS.readFile path.text)
  save path text := do
    let current := File.Path.ofText (toString (← IO.currentDir))
    let names := path.resolve current.names
    let place := File.Tree.placeText names
    let draft := File.Tree.placeText (File.Tree.draftOf names)
    attempt place do
      IO.FS.createDirAll (File.Tree.placeText names.dropLast)
      IO.FS.writeFile draft text
      IO.FS.rename draft place
      return place

end Keymap.Main

def main (arguments : List String) : IO UInt32 := do
  match Keymap.CommandLine.request arguments with
  | .help =>
      IO.print Keymap.Main.usage
      return 0
  | .refused =>
      IO.eprint Keymap.Main.usage
      return 2
  | .run command => match ← Keymap.CommandLine.run Keymap.Main.disk command with
    | .exits outcome =>
        IO.print outcome.output
        IO.eprint outcome.errors
        return UInt32.ofNat outcome.status
    | .crashes fault =>
        IO.eprintln fault.message
        return 1
