import Keymap.Value.Display
import Keymap.Number.Numeral

/-!
Versions of documents: the first `major[.minor[.patch]]` in the text of a value. Documents of
major version one are legacy documents.
-/

set_option autoImplicit false

namespace Keymap

structure Version where
  major : Nat
  minor : Nat
  patch : Nat
deriving DecidableEq, Repr

namespace Version

open Keymap.Text (isDigit)

/-- A point and digits at the start of a text, or nothing. -/
def readPart : List Char → Option (Nat × List Char)
  | '.' :: rest => match Number.splitDigits rest with
    | ([], _) => none
    | (digits, after) => some (Number.ofDigits digits, after)
  | _ => none

def ofText? (text : List Char) : Option Version :=
  match Number.splitDigits (text.dropWhile fun c => !isDigit c) with
  | ([], _) => none
  | (digits, rest) =>
      let major := Number.ofDigits digits
      match readPart rest with
      | none => some ⟨major, 0, 0⟩
      | some (minor, after) => match readPart after with
        | none => some ⟨major, minor, 0⟩
        | some (patch, _) => some ⟨major, minor, patch⟩

def ofValue? (value : Value) : Option Version :=
  if value.isNull then none else ofText? value.display.toList

/-- The digits after a point, and what follows them; without digits nothing is taken. -/
def partDigits : List Char → List Nat × List Char
  | '.' :: rest => match Number.splitDigits rest with
    | ([], _) => ([], '.' :: rest)
    | found => found
  | text => ([], text)

/-- How many digits the first part has that is too long to be read. -/
def overlong? (text : List Char) : Option Nat :=
  let (major, rest) := Number.splitDigits (text.dropWhile fun c => !isDigit c)
  let (minor, after) := partDigits rest
  let (patch, _) := partDigits after
  ([major, minor, patch].map List.length).find? fun digits => Number.maxDigits < digits

end Version

/-- What a document's header names as its version. -/
def Value.version (document : Value) : Value :=
  match document with
  | .object fields => match Fields.read "header" fields with
    | .object header => Fields.read "version" header
    | _ => .null
  | _ => .null

/-- Whether a document's header names a version of major one. -/
def Value.isLegacy (document : Value) : Bool :=
  ((Version.ofValue? document.version).map (·.major)) == some 1

end Keymap
