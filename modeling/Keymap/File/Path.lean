import Keymap.Text.Words

/-!
Paths of files: names separated by slashes. Empty names and single points do not count; two
points mean the directory above.
-/

set_option autoImplicit false

namespace Keymap.File

structure Path where
  absolute : Bool
  names : List String
deriving DecidableEq, Repr

namespace Path

def isName (name : String) : Bool := name ≠ "" && name ≠ "."

def ofText (text : String) : Path :=
  ⟨text.toList.head? = some '/', (Text.pieces '/' text).filter isName⟩

/-- The text of a path; that of the current directory is a point. -/
def text (path : Path) : String :=
  if path.absolute then "/" ++ Text.joined "/" path.names
  else if path.names.isEmpty then "."
  else Text.joined "/" path.names

/-- The last point of a name and what follows it. -/
def lastPart : List Char → Option (List Char)
  | [] => none
  | c :: rest => match lastPart rest with
    | some part => some part
    | none => if c = '.' then some (c :: rest) else none

/-- The suffix of a name; a point at either end of the name does not start one. -/
def suffixOf (name : String) : String :=
  match name.toList with
  | [] => ""
  | _ :: rest => match lastPart rest with
    | none => ""
    | some part => if part.length = 1 then "" else String.ofList part

def suffix (path : Path) : String := suffixOf (path.names.getLast?.getD "")

/-- One step from a directory, of which the names are given. -/
def enter (directory : List String) (name : String) : List String :=
  if name = ".." then directory.dropLast else directory ++ [name]

/-- The names from the root to where a path leads from a directory. -/
def resolve (directory : List String) (path : Path) : List String :=
  path.names.foldl enter (if path.absolute then [] else directory)

end Path

end Keymap.File
