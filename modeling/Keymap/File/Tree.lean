import Keymap.File.Path
import Keymap.Text.Quoted

/-!
Reading and saving files. A disk is what a program needs of its surroundings; a tree of files in
memory is one. Saving makes the directories on the way, writes beside the target and then moves
the finished file into its place.
-/

set_option autoImplicit false

namespace Keymap.File

/-- Why a file cannot be read or saved. -/
inductive Fault where
  | missing (path : String)
  | directory (path : String)
  | notDirectory (path : String)
  /-- A file is in the place of a directory that is to be made. -/
  | occupied (path : String)
  | directoryInPlace (source target : String)
  | other (reason : String)
deriving DecidableEq, Repr

def Fault.message : Fault → String
  | .missing path =>
      "FileNotFoundError: [Errno 2] No such file or directory: " ++ Text.quoted path
  | .directory path => "IsADirectoryError: [Errno 21] Is a directory: " ++ Text.quoted path
  | .notDirectory path => "NotADirectoryError: [Errno 20] Not a directory: " ++ Text.quoted path
  | .occupied path => "FileExistsError: [Errno 17] File exists: " ++ Text.quoted path
  | .directoryInPlace source target =>
      "IsADirectoryError: [Errno 21] Is a directory: " ++ Text.quoted source ++ " -> " ++
        Text.quoted target
  | .other reason => "OSError: " ++ reason

/-- What a program needs to read files and to save them. Saving answers where the file is. -/
structure Disk (Run : Type → Type) where
  read : Path → Run (Except Fault String)
  save : Path → String → Run (Except Fault String)

/-- Every kind of line end becomes a line feed. -/
def plainLines : List Char → List Char
  | [] => []
  | '\r' :: '\n' :: rest => '\n' :: plainLines rest
  | '\r' :: rest => '\n' :: plainLines rest
  | c :: rest => c :: plainLines rest

/-- A file by the names that lead to it from the root. -/
structure Entry where
  names : List String
  text : String
deriving DecidableEq, Repr

/-- Files in memory. A directory is there as long as a file is below it; the current directory
always is. -/
structure Tree where
  current : List String
  entries : List Entry

namespace Tree

def textOf? (tree : Tree) (names : List String) : Option String :=
  (tree.entries.find? fun entry => entry.names = names).map (·.text)

def isFile (tree : Tree) (names : List String) : Bool := (tree.textOf? names).isSome

def isDirectory (tree : Tree) (names : List String) : Bool :=
  names.isPrefixOf tree.current ||
    tree.entries.any fun entry => names.isPrefixOf entry.names && entry.names ≠ names

def placeText (names : List String) : String := "/" ++ Text.joined "/" names

/-- Follows names from a directory; all but the last must lead to directories. -/
def follow (tree : Tree) (path : String) (directory : List String) :
    List String → Except Fault (List String)
  | [] => .ok directory
  | [name] => .ok (Path.enter directory name)
  | name :: rest =>
      let next := Path.enter directory name
      if tree.isDirectory next then follow tree path next rest
      else if tree.isFile next then .error (.notDirectory path)
      else .error (.missing path)

def read (tree : Tree) (path : Path) : Except Fault String := do
  let start := if path.absolute then [] else tree.current
  let names ← tree.follow path.text start path.names
  if tree.isDirectory names then throw (.directory path.text)
  match tree.textOf? names with
  | some text => return text
  | none => throw (.missing path.text)

def put (entry : Entry) : List Entry → List Entry
  | [] => [entry]
  | other :: rest =>
      if other.names = entry.names then entry :: rest else other :: put entry rest

/-- The beginnings of a list of names that are shorter than it. -/
def above (names : List String) : List (List String) :=
  (List.range names.length).map names.take

/-- Makes a directory with those above it. -/
def makeDirectory (tree : Tree) (names : List String) : Except Fault Unit :=
  if tree.isFile names then .error (.occupied (placeText names))
  else if (above names).any tree.isFile then .error (.notDirectory (placeText names))
  else .ok ()

/-- The place beside a target where its text is written first. -/
def draftOf (names : List String) : List String :=
  names.dropLast ++ [names.getLast?.getD "" ++ ".tmp"]

def save (tree : Tree) (path : Path) (text : String) : Except Fault (String × Tree) := do
  let target := path.resolve tree.current
  let draft := draftOf target
  tree.makeDirectory target.dropLast
  if tree.isDirectory draft then throw (.directory (placeText draft))
  if tree.isDirectory target then
    throw (.directoryInPlace (placeText draft) (placeText target))
  let others := tree.entries.filter fun entry => entry.names ≠ draft
  return (placeText target, { tree with entries := put ⟨target, text⟩ others })

/-- The disk of a program that runs on a tree. -/
def disk : Disk (StateM Tree) where
  read path := do return (← get).read path
  save path text := do
    match (← get).save path text with
    | .ok (place, tree) => do
        set tree
        return .ok place
    | .error fault => return .error fault

end Tree

end Keymap.File
