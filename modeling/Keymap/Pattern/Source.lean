import Keymap.Pattern.Fault

/-!
The text of a pattern while it is read, in tokens of one character, or of a backslash and the
character after it.
-/

set_option autoImplicit false

namespace Keymap.Pattern

structure Source where
  rest : List Char
  size : Nat
  flags : Flags
  names : List (String × Nat)
  /-- The widths of the groups by number; an open group has none yet. -/
  groups : List (Option Width)
  /-- The number of groups at the outermost look-behind that is being read. -/
  lookBehind : Option Nat
  /-- Groups asked for by number, with the places. -/
  asked : List (Nat × Nat)

abbrev Reading (Result : Type) := StateT Source (Except Fault) Result

def token : List Char → List Char
  | '\\' :: c :: _ => ['\\', c]
  | c :: _ => [c]
  | [] => []

def place : Reading Nat := do
  let source ← get
  return source.size - source.rest.length

/-- Fails at a place so many characters before the next token. -/
def refuse {Result : Type} (cause : Cause) (back : Nat) : Reading Result := do
  throw (.malformed cause (some ((← place) - back)))

def peek : Reading (List Char) := do return token (← get).rest

/-- The text must not go on with a backslash that nothing follows. -/
def checkNext : Reading Unit := do
  let source ← get
  if source.rest = ['\\'] then
    throw (.malformed .danglingBackslash (some (source.size - 1)))

/-- Takes the next token; at the end of the text it is empty. -/
def take : Reading (List Char) := do
  let next ← peek
  modify fun source => { source with rest := source.rest.drop next.length }
  checkNext
  return next

def accept (c : Char) : Reading Bool := do
  if (← peek) = [c] then
    let _ ← take
    return true
  else return false

/-- Takes characters of a class, at most so many. -/
def takeClass (belongs : Char → Bool) : Nat → Reading (List Char)
  | 0 => return []
  | count + 1 => do
      match ← peek with
      | [c] =>
          if belongs c then
            let _ ← take
            return c :: (← takeClass belongs count)
          else return []
      | _ => return []

/-- Takes a name up to its closing character. -/
def takeName (closing : Char) (what : String) (taken : List Char) : Nat → Reading (List Char)
  | 0 => return taken
  | fuel + 1 => do
      match ← take with
      | [] =>
          if taken.isEmpty then refuse (.missing what) 0
          else refuse (.unterminatedName (String.ofList [closing])) taken.length
      | [c] =>
          if c = closing then
            if taken.isEmpty then refuse (.missing what) 1 else return taken
          else takeName closing what (taken ++ [c]) fuel
      | pair => takeName closing what (taken ++ pair) fuel

def readName (closing : Char) (what : String) : Reading (List Char) := do
  takeName closing what [] ((← get).rest.length + 1)

end Keymap.Pattern
