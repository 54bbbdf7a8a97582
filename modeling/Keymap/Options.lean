/-!
The options of a compilation: the namespace of the editor context and of the internal commands,
and how many failed expressions each entry reports.
-/

set_option autoImplicit false

namespace Keymap

structure Options where
  context : String
  errorLimit : Int
deriving DecidableEq, Repr

namespace Options

def default : Options := ⟨"master-key", 3⟩

def command (options : Options) (name : String) : String := options.context ++ "." ++ name

/-- Moves on to the next key of a sequence. -/
def stepCommand (options : Options) : String := options.command "prefix"

def ignoreCommand (options : Options) : String := options.command "ignore"

end Options

end Keymap
