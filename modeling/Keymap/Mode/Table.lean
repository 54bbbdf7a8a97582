import Keymap.Mode.Basic
import Keymap.Problem

/-!
The modes of a document, and the modes that bindings hold in. A mode that falls back to another
gets implicit copies of that mode's bindings.
-/

set_option autoImplicit false

namespace Keymap

namespace ModeTable

/-- Of two modes with one name the first counts. -/
def distinct (known : List Mode) : List Mode → List Problem × List Mode
  | [] => ([], known)
  | mode :: rest =>
      if known.any fun other => other.name = mode.name then
        let (problems, modes) := distinct known rest
        (.repeatedMode mode.name :: problems, modes)
      else distinct (known ++ [mode]) rest

def defaultNames (modes : List Mode) : List String :=
  (modes.filter (·.isDefault)).map (·.name)

/-- Leaves exactly one default mode: the first that is marked, or else the first of all. -/
def withOneDefault (modes : List Mode) : List Problem × List Mode :=
  match modes, defaultNames modes with
  | [], _ => ([], [])
  | first :: others, [] =>
      ([.noDefaultMode first.name], { first with isDefault := true } :: others)
  | modes, [_] => ([], modes)
  | modes, chosen :: others =>
      ([.manyDefaultModes (chosen :: others) chosen],
        modes.map fun mode =>
          if mode.isDefault && mode.name ≠ chosen then { mode with isDefault := false } else mode)

def withCapture (modes : List Mode) : List Mode :=
  if modes.any fun mode => mode.name = Mode.capture.name then modes else modes ++ [Mode.capture]

/-- Takes away the fallbacks to modes that are not there. -/
def checkFallback (names : List String) (mode : Mode) : List Problem × Mode :=
  match mode.fallback with
  | some target =>
      if target = "" || names.contains target then ([], mode)
      else ([.undefinedFallback mode.name target], { mode with fallback := none })
  | none => ([], mode)

def checkFallbacks (names : List String) : List Mode → List Problem × List Mode
  | [] => ([], [])
  | mode :: rest =>
      let (problems, checked) := checkFallback names mode
      let (others, modes) := checkFallbacks names rest
      (problems ++ others, checked :: modes)

/-- The table of the declared modes. -/
def ofModes (declared : List Mode) : List Problem × List Mode :=
  match declared with
  | [] => ([], [Mode.implied, Mode.capture])
  | declared =>
      let (repeated, unique) := distinct [] declared
      let (defaults, marked) := withOneDefault unique
      let modes := withCapture marked
      let (fallbacks, checked) := checkFallbacks (modes.map (·.name)) modes
      (repeated ++ defaults ++ fallbacks, checked)

/-- The default mode, as a list of its name. -/
def defaultMode (modes : List Mode) : List String := (defaultNames modes).take 1

/-- Modes that are excluded are written with an exclamation mark. -/
def excluded? (name : String) : Option String :=
  match name.toList with
  | '!' :: rest => some (String.ofList rest)
  | _ => none

/-- The names of a list, each at its first place. -/
def firsts (seen : List String) : List String → List String
  | [] => []
  | name :: rest =>
      if seen.contains name then firsts seen rest else name :: firsts (name :: seen) rest

/-- The modes that a binding selects. Beside excluded modes plain ones do not count; plain ones
need not be declared. -/
def select (modes : List Mode) (key : String) :
    Option (List String) → List Problem × List String
  | none => ([], defaultMode modes)
  | some chosen =>
      let excluded := chosen.filterMap excluded?
      if excluded.isEmpty then ([], firsts [] chosen)
      else
        let problems := if excluded.length = chosen.length then [] else [Problem.mixedModes key]
        (problems, (modes.map (·.name)).filter fun name => !excluded.contains name)

/-- The modes that fall back to a mode, in the order of the table. -/
def fallingBack (modes : List Mode) (name : String) : List String :=
  (modes.filter fun mode => mode.fallback = some name && name ≠ "").map (·.name)

def implicitModes (modes : List Mode) (explicit : List String) : List String :=
  firsts [] (explicit.flatMap (fallingBack modes))

def place (binding : Binding) (implicit : Bool) (mode : String) : Binding :=
  { binding with modes := some [mode], implicit := implicit }

/-- The copies of a binding in the modes it selects and in those that fall back to them. -/
def copies (modes : List Mode) (binding : Binding) : List Problem × List Binding :=
  let (problems, explicit) := select modes binding.key binding.modes
  (problems, explicit.map (place binding false) ++
    (implicitModes modes explicit).map (place binding true))

def expand (modes : List Mode) : List Binding → List Problem × List Binding
  | [] => ([], [])
  | binding :: rest =>
      let (problems, placed) := copies modes binding
      let (others, bindings) := expand modes rest
      (problems ++ others, placed ++ bindings)

end ModeTable

end Keymap
