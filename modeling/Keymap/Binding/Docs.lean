import Keymap.Binding.Basic

/-!
Documentation that the bindings of one key share in one mode and after one prefix: of each shared
field the first text that is there is copied to all of them.
-/

set_option autoImplicit false

namespace Keymap.Docs

def sharedNames : List String :=
  ["name", "description", "combinedName", "combinedDescription", "combinedKey"]

structure Group where
  key : String
  mode : Option String
  lead : Option String
deriving DecidableEq, Repr

def groupOf (binding : Binding) : Group := ⟨binding.key, binding.mode?, binding.prefixes.head?⟩

/-- Null and the empty text are no documentation. -/
def isDoc : Value → Bool
  | .null => false
  | .text content => content ≠ ""
  | _ => true

/-- The first value of a field among bindings. -/
def firstDoc? (name : String) (bindings : List Binding) : Option Value :=
  bindings.findSome? fun binding => (binding.docs.get? name).filter isDoc

def sharedDocs (bindings : List Binding) : Fields :=
  sharedNames.filterMap fun name => (firstDoc? name bindings).map fun value => (name, value)

def share (bindings : List Binding) (binding : Binding) : Binding :=
  let group := bindings.filter fun other => groupOf other = groupOf binding
  { binding with docs := binding.docs.overlay (sharedDocs group) }

def merge (bindings : List Binding) : List Binding := bindings.map (share bindings)

end Keymap.Docs
