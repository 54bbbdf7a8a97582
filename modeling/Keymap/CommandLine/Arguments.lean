import Keymap.Text.Words

/-!
The words of a command line. A switch has a long name, which may be shortened as long as it is
the only one that starts so, and it may have a letter; letters of several switches can stand
behind one dash. After two dashes alone no word is a switch.
-/

set_option autoImplicit false

namespace Keymap.CommandLine

/-- A switch stands alone or takes a text, after an equals sign or as the next word. -/
inductive Switch where
  | flag (name : String) (letter : Option Char)
  | text (name : String)
deriving DecidableEq, Repr

def Switch.name : Switch → String
  | .flag name _ => name
  | .text name => name

inductive Word where
  | plain (content : String)
  | separator
  | long (switch : Switch) (attached : Option String)
  | letters (letters : List Char)
  | unknown
deriving DecidableEq, Repr

def dash : Char := '-'

/-- The flag that a letter stands for. -/
def flagOf? (switches : List Switch) (c : Char) : Option String :=
  switches.findSome? fun switch => match switch with
    | .flag name letter => if letter = some c then some name else none
    | .text _ => none

/-- Negative numbers are no switches. -/
def isNegativeNumber (afterDash : List Char) : Bool :=
  let whole := afterDash.takeWhile Text.isDigit
  match afterDash.dropWhile Text.isDigit with
  | [] => !whole.isEmpty
  | '.' :: places => !places.isEmpty && places.all Text.isDigit
  | _ => false

/-- The switches that a name may be short for; a complete name stands for its own alone. -/
def candidates (switches : List Switch) (name : List Char) : List Switch :=
  match switches.find? fun switch => switch.name.toList = name with
  | some switch => [switch]
  | none => switches.filter fun switch => name.isPrefixOf switch.name.toList

/-- The kind of a word that starts with two dashes; none if it is short for several switches. -/
def longWord? (switches : List Switch) (word : String) (name : List Char)
    (attached : Option String) : Option Word :=
  match candidates switches name with
  | [switch] => some (.long switch attached)
  | [] => some (if word.toList.contains ' ' then .plain word else .unknown)
  | _ => none

def wordOf? (switches : List Switch) (word : String) : Option Word :=
  match word.toList with
  | '-' :: '-' :: rest => match Text.cutAt ['='] rest with
    | some (name, attached) => longWord? switches word name (some (String.ofList attached))
    | none => longWord? switches word rest none
  | '-' :: c :: rest =>
      if (flagOf? switches c).isSome then some (.letters (c :: rest))
      else if isNegativeNumber (c :: rest) || rest.contains ' ' || c = ' ' then some (.plain word)
      else some .unknown
  | _ => some (.plain word)

/-- The kinds of all words; none if one of them is short for several switches. -/
def wordsOf? (switches : List Switch) : List String → Option (List Word)
  | [] => some []
  | word :: rest =>
      if word = "--" then some (.separator :: rest.map .plain)
      else do some ((← wordOf? switches word) :: (← wordsOf? switches rest))

/-- What the words ask for, in order. -/
inductive Event where
  | flag (name : String)
  | text (name content : String)
  | operand (content : String)
  | stray
  | refused
deriving DecidableEq, Repr

/-- The flags of the letters behind one dash. A flag that is given a text is refused, and nothing
that stands with it counts. -/
def letterEvents (switches : List Switch) : List Char → Option (List Event)
  | [] => some []
  | c :: rest => match flagOf? switches c with
    | none => some [.stray]
    | some name =>
        if rest.head? = some '=' || rest.head? = some dash then none
        else (letterEvents switches rest).map (.flag name :: ·)

/-- The events of words of which one is the operand; `due` says that it is still to come. Two
dashes before or right after the operand belong to it. -/
def events (switches : List Switch) : Bool → List Word → List Event
  | _, [] => []
  | true, .plain content :: .separator :: rest => .operand content :: events switches false rest
  | true, .plain content :: rest => .operand content :: events switches false rest
  | true, .separator :: .plain content :: rest => .operand content :: events switches false rest
  | due, .long (.flag name _) none :: rest => .flag name :: events switches due rest
  | due, .long (.text name) (some content) :: rest =>
      .text name content :: events switches due rest
  | due, .long (.text name) none :: .plain content :: rest =>
      .text name content :: events switches due rest
  | _, .long _ _ :: _ => [.refused]
  | due, .letters letters :: rest => match letterEvents switches letters with
    | none => [.refused]
    | some found => found ++ events switches due rest
  | due, _ :: rest => .stray :: events switches due rest

/-- The events before the name of a command, and the name with the words after it. -/
def commandEvents (switches : List Switch) :
    List Word → List String → List Event × Option (String × List String)
  | .plain content :: _, _ :: rest => ([], some (content, rest))
  | .long (.flag name _) none :: words, _ :: rest =>
      let (found, command) := commandEvents switches words rest
      (.flag name :: found, command)
  | .letters letters :: words, _ :: rest => match letterEvents switches letters with
    | none => ([.refused], none)
    | some flags =>
        let (found, command) := commandEvents switches words rest
        (flags ++ found, command)
  | .unknown :: words, _ :: rest =>
      let (found, command) := commandEvents switches words rest
      (.stray :: found, command)
  | _, _ => ([.refused], none)

end Keymap.CommandLine
