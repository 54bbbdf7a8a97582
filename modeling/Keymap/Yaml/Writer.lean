import Keymap.Yaml.Scalar
import Keymap.Text.Words

/-!
Writing a value as YAML: a line for each field and item, two more blanks for each level inside a
mapping, and quotes around text that would not be read back as itself.
-/

set_option autoImplicit false

namespace Keymap.Yaml

/-- Characters that are written in double quotes only. -/
def needsEscape (c : Char) : Bool := c.toNat < 0x20 || 0x7e < c.toNat

/-- Whether a mark inside a text ends a plain scalar, as a colon before a blank and a number sign
after one do. -/
def marksInside : Bool → List Char → Bool
  | _, [] => false
  | afterBlank, c :: rest =>
      (c = ':' && startsBlank rest) || (c = '#' && afterBlank) || marksInside (isBlank c) rest

def startsMarked : List Char → Bool
  | [] => true
  | c :: rest =>
      if c = '-' || c = '?' || c = ':' then startsBlank rest else indicators.contains c

def startsDocument (text : List Char) : Bool :=
  ['-', '-', '-'].isPrefixOf text || ['.', '.', '.'].isPrefixOf text

/-- Whether a text can stand without quotes. -/
def isPlain (text : List Char) : Bool :=
  isPlainText text && !startsMarked text && !startsDocument text && !marksInside false text &&
    text.head? ≠ some ' ' && text.getLast? ≠ some ' '

def singleQuotes (text : List Char) : List Char :=
  '\'' :: (text.flatMap fun c => if c = '\'' then ['\'', '\''] else [c]) ++ ['\'']

def writtenEscapes : List (Char × Char) :=
  [('\x00', '0'), ('\x07', 'a'), ('\x08', 'b'), ('\t', 't'), ('\n', 'n'), ('\x0b', 'v'),
   ('\x0c', 'f'), ('\r', 'r'), ('\x1b', 'e'), ('"', '"'), ('\\', '\\'), ('\u0085', 'N'),
   ('\u00a0', '_'), ('\u2028', 'L'), ('\u2029', 'P')]

def hexDigit (value : Nat) : Char :=
  if value < 10 then Char.ofNat (0x30 + value) else Char.ofNat (0x37 + value)

def hexDigits (width value : Nat) : List Char :=
  ((List.range width).map fun index => hexDigit (value / Number.twoTo (4 * index) % 16)).reverse

def escape (c : Char) : List Char :=
  match writtenEscapes.lookup c with
  | some letter => ['\\', letter]
  | none =>
      if !needsEscape c then [c]
      else if c.toNat ≤ 0xff then '\\' :: 'x' :: hexDigits 2 c.toNat
      else if c.toNat ≤ 0xffff then '\\' :: 'u' :: hexDigits 4 c.toNat
      else '\\' :: 'U' :: hexDigits 8 c.toNat

def doubleQuotes (text : List Char) : List Char := '"' :: text.flatMap escape ++ ['"']

def scalarText (text : String) : String :=
  let chars := text.toList
  String.ofList (if chars.any needsEscape then doubleQuotes chars
    else if isPlain chars then chars
    else singleQuotes chars)

/-- A fraction always shows its point. -/
def withPoint (text : List Char) : List Char :=
  if text.contains '.' || !text.contains 'e' then text
  else text.takeWhile (· ≠ 'e') ++ ['.', '0'] ++ text.dropWhile (· ≠ 'e')

def numberText : Number → String
  | .int value => Number.intText value
  | .float x => match Number.Binary.ofFloat x with
    | .nan => ".nan"
    | .infinite negative => if negative then "-.inf" else ".inf"
    | .finite .. => String.ofList (withPoint (Number.floatText ⟨"nan", "inf"⟩ x).toList)

/-- The text of a value that takes no lines of its own. -/
def inline? : Value → Option String
  | .null => some "null"
  | .undefined => some "null"
  | .bool flag => some (if flag then "true" else "false")
  | .number amount => some (numberText amount)
  | .text content => some (scalarText content)
  | .list [] => some "[]"
  | .object [] => some "\x7b\x7d"
  | _ => none

def indented (lines : List String) : List String := lines.map ("  " ++ ·)

/-- The lines of an item with its dash before the first. -/
def dashed : List String → List String
  | [] => ["-"]
  | first :: others => ("- " ++ first) :: indented others

/-- The lines of a field. A mapping stands deeper than its name; the dashes of a list do not. -/
def fieldLines (name : String) (value : Value) (lines : List String) : List String :=
  let label := scalarText name ++ ":"
  match inline? value, value with
  | some text, _ => [label ++ " " ++ text]
  | none, .object _ => label :: indented lines
  | none, _ => label :: lines

mutual

def lines : Value → List String
  | .list [] => ["[]"]
  | .list (first :: rest) => itemLines (first :: rest)
  | .object [] => ["\x7b\x7d"]
  | .object (first :: rest) => mappingLines (first :: rest)
  | value => (inline? value).toList

def itemLines : List Value → List String
  | [] => []
  | item :: rest => dashed (lines item) ++ itemLines rest

def mappingLines : List (String × Value) → List String
  | [] => []
  | (name, value) :: rest => fieldLines name value (lines value) ++ mappingLines rest

end

/-- The text of a value, each line ended by a line feed. -/
def render (value : Value) : String :=
  String.ofList ((lines value).flatMap fun line => line.toList ++ ['\n'])

end Keymap.Yaml
